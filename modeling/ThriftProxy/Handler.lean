import ThriftProxy.ClientInfo
import ThriftProxy.Lib.Program
import ThriftProxy.Lib.Decimal

/-!
# The request handlers

`tisProtoHandler` and `defaultProtoHandler` as programs over the operations by
which a worker thread touches anything outside its own stack: reads of the
`ClientInfo`, the connection pools, the remote calls and the reply. Writes to
the two stack buffers that hold a reply are operations as well, so that their
bounds can be stated.
-/

namespace ThriftProxy

open Machine Effect Program

/-! ## Thrift records -/

/-- `std::string`. -/
abbrev ByteString := List UInt8

/-- The bytes of a string literal. -/
def literal (s : String) : ByteString := s.toList.map fun c => UInt8.ofNat c.toNat

/-- `RequestCheckStruct`. -/
structure RequestCheckStruct where
  appid : Int32
  gameid : Int32
  content : ByteString
  dataid : ByteString
  userid : ByteString
  ip : ByteString
  deriving DecidableEq

/-- `CheckResultStruct`. -/
structure CheckResultStruct where
  code : Int32
  action : Int32
  label : Int32
  level : Int32
  detail : ByteString
  deriving DecidableEq

/-- `ReqCheckResult`, the record stored for the customer service. -/
structure ReqCheckResult where
  message : ByteString
  flag : Int32
  appid : Int32
  gameid : Int32
  nick : ByteString
  type : Int8
  serverid : Int32
  userid : Int32
  rolegrade : Int32
  vipgrade : Int32
  deriving DecidableEq

/-! ## Operations of a worker -/

/-- The stack buffers in which a reply is built. -/
inductive OutBuffer
  /-- `out_buf` of `tisProtoHandler`. -/
  | handler
  /-- `out_buf` of `SendToClient`. -/
  | sendToClient
  deriving DecidableEq

/-- The size of either buffer: `MAX_OUT_BUG_LEN` and the literal in `SendToClient`. -/
def outBufSize : ℕ := 8192

/-- The operations of a handler. -/
inductive HandlerOp
  | read (f : Field)
  /-- Bytes written to a stack buffer. -/
  | write (dst : OutBuffer) (offset count : ℕ)
  | getConnectionBySer (server : String)
  | releaseConnectionBySer (server : String) (conn : ℕ) (state : Bool)
  | check (conn : ℕ) (req : RequestCheckStruct)
  | storeMessage (conn : ℕ) (req : ReqCheckResult)
  | netSendCli (fd : Int32) (buf : List UInt8) (len : ℤ)
  deriving DecidableEq

/-- What an operation returns. A pool returns a connection or NULL, and each
remote call returns or throws a `TException`. -/
abbrev HandlerOp.Answer : HandlerOp → Type
  | read f => f.Value
  | write _ _ _ => Unit
  | getConnectionBySer _ => Option ℕ
  | releaseConnectionBySer _ _ _ => Unit
  | check _ _ => Option CheckResultStruct
  | storeMessage _ _ => Bool
  | netSendCli _ _ _ => Unit

/-- The signature of handler programs. -/
abbrev HandlerSig : Signature := { Op := HandlerOp, Answer := HandlerOp.Answer }

/-- The program that reads one member of the `ClientInfo`. -/
def readField (f : Field) : Program HandlerSig f.Value := call (S := HandlerSig) (.read f)

/-- The program that performs an operation for its effect. -/
def act (op : HandlerOp) : Program HandlerSig Unit := perform (S := HandlerSig) op fun _ => ret ()

/-- `ConnectionPool::getConnectionBySer`. -/
def getConnectionBySer (server : String) : Program HandlerSig (Option ℕ) :=
  call (S := HandlerSig) (.getConnectionBySer server)

/-- `TisServiceClient::check` over a connection. -/
def check (conn : ℕ) (req : RequestCheckStruct) : Program HandlerSig (Option CheckResultStruct) :=
  call (S := HandlerSig) (.check conn req)

/-- `IdentityServClient::StoreMessage` over a connection. -/
def storeMessage (conn : ℕ) (req : ReqCheckResult) : Program HandlerSig Bool :=
  call (S := HandlerSig) (.storeMessage conn req)

section

variable {α : Type}

/-- A program that begins with a read of a member. -/
@[simp] theorem readField_bind (f : Field) (next : f.Value → Program HandlerSig α) :
    readField f >>= next = perform (S := HandlerSig) (.read f) next := rfl

/-- A program that begins with an operation for its effect. -/
@[simp] theorem act_bind (op : HandlerOp) (next : Unit → Program HandlerSig α) :
    act op >>= next = perform (S := HandlerSig) op fun _ => next () := rfl

/-- A program that begins by asking for a connection. -/
@[simp] theorem getConnectionBySer_bind (server : String)
    (next : Option ℕ → Program HandlerSig α) :
    getConnectionBySer server >>= next =
      perform (S := HandlerSig) (.getConnectionBySer server) next := rfl

/-- A program that begins with a call of `check`. -/
@[simp] theorem check_bind (conn : ℕ) (req : RequestCheckStruct)
    (next : Option CheckResultStruct → Program HandlerSig α) :
    check conn req >>= next = perform (S := HandlerSig) (.check conn req) next := rfl

/-- A program that begins with a call of `StoreMessage`. -/
@[simp] theorem storeMessage_bind (conn : ℕ) (req : ReqCheckResult)
    (next : Bool → Program HandlerSig α) :
    storeMessage conn req >>= next = perform (S := HandlerSig) (.storeMessage conn req) next := rfl

end

/-! ## Sending a reply -/

/-- `Proxy::SendToClient(ci, buf, len, status_code)`. -/
def sendToClient (buf : List UInt8) (len : ℤ) (statusCode : UInt32) :
    Program HandlerSig Unit := do
  let seqNum ← readField .cliSeq
  let cmdId ← readField .cliCmd
  let userId ← readField .userid
  let header : ProtoHeader :=
    { pkgLen := UInt32.ofInt (sizeofProtoHeader + len), seqNum := seqNum, cmdId := cmdId,
      statusCode := statusCode, userId := userId }
  act (.write .sendToClient 0 sizeofProtoHeader)
  if 0 < len then act (.write .sendToClient sizeofProtoHeader len.toNat)
  let fd ← readField .cliFd
  act (.netSendCli fd (header.encode ++ buf.take len.toNat) header.pkgLen.toInt32.toInt)

/-- `defaultProtoHandler`. -/
def defaultProtoHandler : Program HandlerSig Unit := sendToClient [] 0 1001

/-! ## The moderation handler -/

/-- The flag of a message that has not been cleared: suspect. -/
def suspectFlag : Int32 := 2

/-- The request to the moderation service. -/
def tisRequest (content : ByteString) (gameid userid : Int32) : RequestCheckStruct :=
  { appid := 1, gameid := gameid, content := content, dataid := literal "8888",
    userid := Decimal.printInt userid.toInt, ip := literal "0.0.0.0" }

/-- `dirty_flag` after the moderation service has answered. -/
def dirtyFlagOf (res : CheckResultStruct) : Int32 :=
  if res.code ≠ 0 then suspectFlag else res.action

/-- The bytes at the start of `out_buf` of `tisProtoHandler`: the flag and the body. -/
def verdictBytes (dirtyFlag : Int32) (body : List UInt8) : List UInt8 :=
  bytesU32 dirtyFlag.toUInt32 ++ body

/-- The reply to a moderated message: game 5 gets its body back behind the flag. -/
def replyVerdict (gameid dirtyFlag : Int32) (outBuf : List UInt8) : Program HandlerSig Unit := do
  if gameid = 5 then
    let len ← readField .len
    sendToClient outBuf (wrapInt (len.toNat + 4)) 0
  else
    sendToClient (bytesU32 dirtyFlag.toUInt32) 4 0

/-- The log line behind a verdict reads three members of the request. -/
def logVerdict : Program HandlerSig Unit := do
  let _ ← readField .procTime
  let _ ← readField .len
  let _ ← readField .type

/-- What follows a `check` that returns: the flag and the body are copied to
`out_buf`, the connection is released and the client gets its reply. -/
def deliverVerdict (conn : ℕ) (gameid dirtyFlag : Int32) : Program HandlerSig Unit := do
  act (.write .handler 0 4)
  let len ← readField .len
  let body ← readField (.body len.toNat)
  act (.write .handler 4 len.toNat)
  act (.releaseConnectionBySer "tis" conn true)
  replyVerdict gameid dirtyFlag (verdictBytes dirtyFlag body)
  logVerdict

/-- The part of `tisProtoHandler` that asks the moderation service and replies
to the client. It returns `dirty_flag`. -/
def moderate (content : ByteString) (gameid : Int32) (type : UInt8) (userid : Int32) :
    Program HandlerSig Int32 := do
  if type = 4 ∧ gameid = 5 then
    sendToClient [] 0 1002
    return suspectFlag
  else
    match ← getConnectionBySer "tis" with
    | none =>
      sendToClient [] 0 1001
      return suspectFlag
    | some conn =>
      match ← check conn (tisRequest content gameid userid) with
      | some res =>
        deliverVerdict conn gameid (dirtyFlagOf res)
        return dirtyFlagOf res
      | none =>
        act (.releaseConnectionBySer "tis" conn false)
        sendToClient [] 0 1001
        return suspectFlag

/-- The record stored for a message. -/
def storeRequest (content : ByteString) (gameid userid dirtyFlag : Int32) (type : UInt8)
    (homeId roleGrade vipGrade : UInt32) (nick : ByteString) : ReqCheckResult :=
  { message := content, flag := dirtyFlag, appid := 1, gameid := gameid, nick := nick,
    type := type.toInt8, serverid := homeId.toInt32, userid := userid,
    rolegrade := roleGrade.toInt32, vipgrade := vipGrade.toInt32 }

/-- The part of `tisProtoHandler` that stores the message with its flag. -/
def storeResult (content : ByteString) (gameid userid dirtyFlag : Int32) :
    Program HandlerSig Unit := do
  match ← getConnectionBySer "dbser" with
  | none => return ()
  | some conn =>
    let type ← readField .type
    let homeId ← readField .homeId
    let roleGrade ← readField .roleGrade
    let vipGrade ← readField .vipGrade
    let nick ← readField .nick
    let stored ← storeMessage conn
      (storeRequest content gameid userid dirtyFlag type homeId roleGrade vipGrade nick)
    act (.releaseConnectionBySer "dbser" conn stored)

/-- `tisProtoHandler`. -/
def tisProtoHandler : Program HandlerSig Unit := do
  let content ← readField .content
  let gameId ← readField .gameId
  let type ← readField .type
  let userid ← readField .userid
  let dirtyFlag ← moderate content gameId.toInt32 type userid.toInt32
  storeResult content gameId.toInt32 userid.toInt32 dirtyFlag

/-- The handler a function object stands for. -/
def Func.handler : Func → Program HandlerSig Unit
  | .tisProtoHandler => ThriftProxy.tisProtoHandler
  | .defaultProtoHandler => ThriftProxy.defaultProtoHandler

/-- `ClientInfo::run`. -/
def runClientInfo : Program HandlerSig Unit := do
  let func ← readField .callBackFunc
  func.handler

/-! ## Runs on a fixed request -/

/-- What the pools and the remote services do during one run of a handler. -/
structure Outcomes where
  /-- The connection got from the moderation pool, or NULL. -/
  tisConn : Option ℕ
  /-- The reply of `check`, or a `TException`. -/
  checkResult : Option CheckResultStruct
  /-- The connection got from the storage pool, or NULL. -/
  dbserConn : Option ℕ
  /-- Whether `StoreMessage` returns. -/
  stored : Bool

/-- The answers to a handler that runs on a `ClientInfo` no other thread changes. -/
def Outcomes.answer (o : Outcomes) (ci : ClientInfo) (behind : List UInt8) :
    (op : HandlerOp) → op.Answer
  | .read f => f.get ci behind
  | .write _ _ _ => ()
  | .getConnectionBySer server => if server = "tis" then o.tisConn else o.dbserConn
  | .releaseConnectionBySer _ _ _ => ()
  | .check _ _ => o.checkResult
  | .storeMessage _ _ => o.stored
  | .netSendCli _ _ _ => ()

/-- The events of one complete run of `tisProtoHandler`. -/
def tisRun (ci : ClientInfo) (behind : List UInt8) (o : Outcomes) : List (Event HandlerSig) :=
  tisProtoHandler.trace (S := HandlerSig) (o.answer ci behind)

end ThriftProxy
