import ThriftProxy.Proto

/-!
# Requests in memory

`ClientInfo` of `client_info.h` as the handlers see it, the accesses by which
they read it, and the table of `cmd_handler.cpp` that chooses a handler. The
list node and the timer event of a `ClientInfo` are kept with the lists they
belong to.
-/

namespace ThriftProxy

open Machine

/-! ## The record -/

/-- `struct timeval`. -/
structure Timeval where
  /-- `tv_sec`. -/
  sec : ℤ
  /-- `tv_usec`. -/
  usec : ℤ
  deriving DecidableEq

/-- The functions that `call_back_func` is set to. -/
inductive Func
  | tisProtoHandler
  | defaultProtoHandler
  deriving DecidableEq

/-- `sizeof(ClientInfo::buf)`. -/
def bufSize : ℕ := 4096

/-- The members of `ClientInfo` behind its first eight bytes. -/
structure ClientTail where
  /-- `cli_cmd`. -/
  cliCmd : UInt16
  /-- `userid`. -/
  userid : UInt32
  /-- `ser_seq`. -/
  serSeq : UInt32
  /-- `len`. -/
  len : UInt32
  /-- `proc_time`. -/
  procTime : Timeval
  /-- `buf`. -/
  buf : Buffer bufSize
  /-- `call_back_func`. -/
  callBackFunc : Func
  deriving DecidableEq

/-- `ClientInfo`. The first two members share the word in which the memory pool
keeps the link of a free item. -/
structure ClientInfo extends ClientTail where
  /-- `cli_fd`. -/
  cliFd : Int32
  /-- `cli_seq`. -/
  cliSeq : UInt32
  deriving DecidableEq

/-- The word that holds `cli_fd` and `cli_seq`. -/
def packFirstWord (fd : Int32) (seq : UInt32) : ℕ := fd.toUInt32.toNat + 2 ^ 32 * seq.toNat

/-- The `ClientInfo` whose first word and other members are given. -/
def clientOf (word : ℕ) (tail : ClientTail) : ClientInfo :=
  { tail with cliFd := (UInt32.ofNat word).toInt32, cliSeq := UInt32.ofNat (word / 2 ^ 32) }

/-- The first word holds the file descriptor and the sequence number. -/
theorem clientOf_packFirstWord (fd : Int32) (seq : UInt32) (tail : ClientTail) :
    clientOf (packFirstWord fd seq) tail = { tail with cliFd := fd, cliSeq := seq } := by
  have hfd := fd.toUInt32.toNat_lt
  have hseq := seq.toNat_lt
  have hlow : UInt32.ofNat (packFirstWord fd seq) = fd.toUInt32 := by
    apply UInt32.toNat_inj.mp
    rw [UInt32.toNat_ofNat', packFirstWord]
    omega
  have hhigh : UInt32.ofNat (packFirstWord fd seq / 2 ^ 32) = seq := by
    apply UInt32.toNat_inj.mp
    rw [UInt32.toNat_ofNat', packFirstWord]
    omega
  rw [clientOf, hlow, hhigh]
  simp

/-! ## Reading a request -/

/-- The members of a `ClientInfo` that a handler reads. The members of
`DataBodyHuaXian` and `ContentBody` are overlaid on `buf`. -/
inductive Field
  | callBackFunc
  | cliFd
  | cliSeq
  | cliCmd
  | userid
  | len
  | procTime
  /-- The first bytes of `buf`. -/
  | body (count : ℕ)
  | gameId
  /-- The C string at `nick`. -/
  | nick
  | type
  | homeId
  | roleGrade
  | vipGrade
  /-- The C string at `content`. -/
  | content
  deriving DecidableEq

/-- The type of a member. -/
def Field.Value : Field → Type
  | callBackFunc => Func
  | cliFd => Int32
  | cliSeq => UInt32
  | cliCmd => UInt16
  | userid => UInt32
  | len => UInt32
  | procTime => Timeval
  | body _ => List UInt8
  | gameId => UInt32
  | nick => List UInt8
  | type => UInt8
  | homeId => UInt32
  | roleGrade => UInt32
  | vipGrade => UInt32
  | content => List UInt8

/-- What reading a member yields, with the bytes that lie behind `buf` in memory. -/
def Field.get (ci : ClientInfo) (behind : List UInt8) : (f : Field) → f.Value
  | callBackFunc => ci.callBackFunc
  | cliFd => ci.cliFd
  | cliSeq => ci.cliSeq
  | cliCmd => ci.cliCmd
  | userid => ci.userid
  | len => ci.len
  | procTime => ci.procTime
  | body count => (ci.buf.bytes ++ behind).take count
  | gameId => readU32 0 ci.buf.bytes
  | nick => cstr ((ci.buf.bytes ++ behind).drop 4)
  | type => UInt8.ofNat (decodeLE (field 20 1 ci.buf.bytes))
  | homeId => readU32 21 ci.buf.bytes
  | roleGrade => readU32 25 ci.buf.bytes
  | vipGrade => readU32 29 ci.buf.bytes
  | content => cstr ((ci.buf.bytes ++ behind).drop contentOffset)

/-- The access to `buf` by which a member is read; a C string is read up to and
including its NUL. -/
def Field.access : (f : Field) → f.Value → Option Access
  | body count, _ => some ⟨bufSize, 0, count⟩
  | gameId, _ => some ⟨bufSize, 0, 4⟩
  | nick, text => some ⟨bufSize, 4, text.length + 1⟩
  | type, _ => some ⟨bufSize, 20, 1⟩
  | homeId, _ => some ⟨bufSize, 21, 4⟩
  | roleGrade, _ => some ⟨bufSize, 25, 4⟩
  | vipGrade, _ => some ⟨bufSize, 29, 4⟩
  | content, text => some ⟨bufSize, contentOffset, text.length + 1⟩
  | _, _ => none

/-! ## The handler table -/

/-- `cmd_handler_map_`: the registered commands, each with a function object
that may be empty. -/
abbrev CmdHandler := List (ℤ × Option Func)

namespace CmdHandler

/-- `registerCmd`: inserting leaves a command that is already registered alone. -/
def registerCmd (handlers : CmdHandler) (cmd : ℤ) (func : Option Func) : CmdHandler :=
  if (handlers.lookup cmd).isSome then handlers else (cmd, func) :: handlers

/-- `getHandler`: an unknown command or an empty function gets the default handler. -/
def getHandler (handlers : CmdHandler) (cmd : ℤ) : Func :=
  match handlers.lookup cmd with
  | none => .defaultProtoHandler
  | some none => .defaultProtoHandler
  | some (some func) => func

end CmdHandler

/-- `g_cmd_handler` as `Proxy::Init` sets it up. -/
def cmdHandler : CmdHandler :=
  CmdHandler.registerCmd [] writeMessageCmdId.toNat (some .tisProtoHandler)

/-- The commands of moderation requests get their handler and all others the default. -/
theorem getHandler_cmdHandler (cmd : UInt16) :
    cmdHandler.getHandler cmd.toNat =
      if cmd = writeMessageCmdId then .tisProtoHandler else .defaultProtoHandler := by
  by_cases h : cmd = writeMessageCmdId
  · subst h
    rfl
  · have hne : ¬ ((cmd.toNat : ℤ) = (writeMessageCmdId.toNat : ℤ)) := by
      intro heq
      exact h (UInt16.toNat_inj.mp (by exact_mod_cast heq))
    simp [cmdHandler, CmdHandler.registerCmd, CmdHandler.getHandler, List.lookup_cons, h,
      beq_eq_false_iff_ne.mpr hne]

end ThriftProxy
