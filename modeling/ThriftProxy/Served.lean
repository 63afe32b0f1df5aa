import ThriftProxy.Leases
import ThriftProxy.WorkerOps

/-!
# Requests are served once, in their order

What a worker does for a request, whatever the pools, the remote services and the
other threads do meanwhile: it asks for a verdict at most once, then sends one reply,
which tells the verdict, and then stores at most one record with the same verdict. In
every interleaving of the event loop and the workers each accepted request is in one
place, in the order of acceptance, and is served so.
-/

namespace ThriftProxy

open Effect Program Transition Machine

/-! ## Serving a request -/

/-- What has been done for a request. -/
structure Progress where
  /-- The moderation service has been asked. -/
  asked : Bool
  /-- Its answer. -/
  verdict : Option CheckResultStruct
  /-- A reply has been sent. -/
  told : Bool
  /-- A record has been stored. -/
  stored : Bool
  deriving DecidableEq

namespace Progress

/-- Nothing has been done. -/
def fresh : Progress := { asked := false, verdict := none, told := false, stored := false }

/-- The flag of the request: without a verdict it is suspect. -/
def flag (p : Progress) : Int32 := p.verdict.elim suspectFlag dirtyFlagOf

/-- Whether a reply tells what there is to tell: a verdict goes with status 0 and with
its flag in front of the body, and there is another status without one. -/
def Tells (p : Progress) (bytes : List UInt8) : Prop :=
  ((ProtoHeader.decode bytes).statusCode = 0 ↔ p.verdict.isSome = true) ∧
    (p.verdict.isSome = true → ∀ f ∈ sentFlag bytes, f = p.flag)

instance (p : Progress) (bytes : List UInt8) : Decidable (p.Tells bytes) :=
  @instDecidableAnd _ _ inferInstance <|
    @forall_prop_decidable _ _ inferInstance fun _ => Option.decidableForallMem (sentFlag bytes)

end Progress

/-- What an operation of a handler does for the request. -/
def servingOnce : Discipline HandlerSig Progress
  | p, ⟨.check _ _, res⟩ =>
    if p.asked = false ∧ p.told = false then some { p with asked := true, verdict := res }
    else none
  | p, ⟨.netSendCli _ bytes _, _⟩ =>
    if p.told = false ∧ p.Tells bytes then some { p with told := true } else none
  | p, ⟨.storeMessage _ req, _⟩ =>
    if p.told = true ∧ p.stored = false ∧ req.flag = p.flag then some { p with stored := true }
    else none
  | p, ⟨.read _, _⟩ => some p
  | p, ⟨.write _ _ _, _⟩ => some p
  | p, ⟨.getConnectionBySer _, _⟩ => some p
  | p, ⟨.releaseConnectionBySer _ _ _, _⟩ => some p

/-- A reply has been sent at the end. -/
def Told {α : Type} (_ : α) (p : Progress) : Prop := p.told = true

section

variable {α : Type} {final : α → Progress → Prop} {p : Progress}

/-- An operation that does nothing for the request. -/
def HandlerOp.isIdle : HandlerOp → Bool
  | check _ _ => false
  | netSendCli _ _ _ => false
  | storeMessage _ _ => false
  | _ => true

/-- Operations that neither ask nor tell nor store leave the progress alone. -/
theorem servingOnce_of_isIdle {op : HandlerOp} (h : op.isIdle = true) (p : Progress)
    (answer : op.Answer) : servingOnce p ⟨op, answer⟩ = some p := by
  cases op with
  | check conn req => cases h
  | netSendCli fd bytes len => cases h
  | storeMessage conn req => cases h
  | _ => rfl

/-- Such an operation changes nothing. -/
theorem keeps_idle {op : HandlerOp} {next : op.Answer → Program HandlerSig α}
    (hop : op.isIdle = true) (h : ∀ answer, (next answer).Keeps servingOnce final p) :
    (perform (S := HandlerSig) op next).Keeps servingOnce final p :=
  fun answer => ⟨p, servingOnce_of_isIdle hop p answer, h answer⟩

end

/-- The flag that a reply with some header tells. -/
theorem eq_of_mem_sentFlag {h : ProtoHeader} {flag f : Int32} {body : List UInt8} {count : ℕ}
    (hf : f ∈ sentFlag (h.encode ++ (verdictBytes flag body).take count)) : f = flag := by
  have hlength : (h.encode ++ (verdictBytes flag body).take count).length =
      sizeofProtoHeader + min count (4 + body.length) := by
    simp [verdictBytes]
  rw [sentFlag, hlength] at hf
  obtain ⟨hcount, hflag⟩ := Option.ite_none_right_eq_some.mp hf
  have htake : (verdictBytes flag body).take count =
      bytesU32 flag.toUInt32 ++ body.take (count - 4) := by
    rw [verdictBytes, List.take_append, length_bytesU32, List.take_of_length_le]
    rw [length_bytesU32]
    omega
  rw [htake, readU32_append_right (by rw [ProtoHeader.length_encode]), ProtoHeader.length_encode,
    Nat.sub_self, readU32_bytesU32] at hflag
  simpa using (Option.some.inj hflag).symm

/-- `SendToClient` sends one reply, with the status and the bytes that it is given. -/
theorem sendToClient_serves {p : Progress} (htold : p.told = false) (buf : List UInt8) (len : ℤ)
    (statusCode : UInt32)
    (htells : ∀ h : ProtoHeader, h.statusCode = statusCode →
      p.Tells (h.encode ++ buf.take len.toNat)) :
    (sendToClient buf len statusCode).Keeps servingOnce (fun _ q => q = { p with told := true }) p := by
  have hsend : ∀ (seqNum : UInt32) (cmdId : UInt16) (userId : UInt32),
      (readField .cliFd >>= fun fd =>
        let header : ProtoHeader :=
          { pkgLen := UInt32.ofInt (sizeofProtoHeader + len), seqNum := seqNum, cmdId := cmdId,
            statusCode := statusCode, userId := userId }
        act (.netSendCli fd (header.encode ++ buf.take len.toNat) header.pkgLen.toInt32.toInt)).Keeps
        servingOnce (fun _ q => q = { p with told := true }) p := by
    intro seqNum cmdId userId
    rw [readField_bind]
    refine keeps_idle rfl fun fd => ?_
    exact fun _ => ⟨_, if_pos ⟨htold, htells _ rfl⟩, rfl⟩
  unfold sendToClient
  simp only [readField_bind, act_bind]
  refine keeps_idle rfl fun seqNum => keeps_idle rfl fun cmdId => keeps_idle rfl fun userId =>
    keeps_idle rfl fun _ => ?_
  by_cases hlen : 0 < len
  · rw [if_pos hlen]
    exact keeps_idle rfl fun _ => hsend _ _ _
  · rw [if_neg hlen]
    exact hsend _ _ _

/-! ## The handlers -/

/-- The request has been answered with a flag and is not stored yet. -/
def Judged (flag : Int32) (p : Progress) : Prop :=
  p.told = true ∧ p.stored = false ∧ p.flag = flag

/-- A reply without a verdict tells a status other than 0. -/
theorem tells_refusal {p : Progress} (hverdict : p.verdict = none) {h : ProtoHeader}
    (hstatus : h.statusCode ≠ 0) (body : List UInt8) : p.Tells (h.encode ++ body) := by
  rw [Progress.Tells, ProtoHeader.decode_encode, hverdict]
  simp [hstatus]

/-- A refusal tells a status and leaves the request suspect. -/
theorem refusal_serves {p : Progress} (htold : p.told = false) (hstored : p.stored = false)
    (hverdict : p.verdict = none) {statusCode : UInt32} (hstatus : statusCode ≠ 0) :
    (sendToClient [] 0 statusCode >>= fun _ => (ret suspectFlag : Program HandlerSig Int32)).Keeps
      servingOnce Judged p := by
  refine (sendToClient_serves htold [] 0 statusCode ?_).bind ?_
  · rintro h rfl
    exact tells_refusal hverdict hstatus _
  · rintro _ q rfl
    exact ⟨rfl, hstored, by simp [Progress.flag, hverdict]⟩

/-- A reply with a verdict tells its flag. -/
theorem replyVerdict_serves {p : Progress} (htold : p.told = false)
    (hverdict : p.verdict.isSome = true) (gameid : Int32) (body : List UInt8) :
    (replyVerdict gameid p.flag (verdictBytes p.flag body)).Keeps servingOnce
      (fun _ q => q = { p with told := true }) p := by
  have htells : ∀ (body : List UInt8) (count : ℕ) (h : ProtoHeader), h.statusCode = 0 →
      p.Tells (h.encode ++ (verdictBytes p.flag body).take count) := by
    intro body count h hh
    rw [Progress.Tells, ProtoHeader.decode_encode]
    exact ⟨iff_of_true hh hverdict, fun _ f hf => eq_of_mem_sentFlag hf⟩
  unfold replyVerdict
  by_cases hgame : gameid = 5
  · rw [if_pos hgame, readField_bind]
    exact keeps_idle rfl fun len => sendToClient_serves htold _ _ _ (htells body _)
  · rw [if_neg hgame]
    have hbytes : bytesU32 p.flag.toUInt32 = verdictBytes p.flag [] := (List.append_nil _).symm
    rw [hbytes]
    exact sendToClient_serves htold _ _ _ (htells [] _)

/-- Delivering a verdict sends one reply. -/
theorem deliverVerdict_serves {p : Progress} (htold : p.told = false)
    (hverdict : p.verdict.isSome = true) (conn : ℕ) (gameid : Int32) :
    (deliverVerdict conn gameid p.flag).Keeps servingOnce (fun _ q => q = { p with told := true })
      p := by
  unfold deliverVerdict
  simp only [act_bind, readField_bind]
  refine keeps_idle rfl fun _ => keeps_idle rfl fun len => keeps_idle rfl fun body =>
    keeps_idle rfl fun _ => keeps_idle rfl fun _ => ?_
  refine (replyVerdict_serves htold hverdict gameid body).bind ?_
  rintro _ q rfl
  unfold logVerdict
  simp only [readField_bind]
  exact keeps_idle rfl fun _ => keeps_idle rfl fun _ => keeps_idle rfl fun _ => rfl

/-- The moderation half asks at most once and sends one reply. -/
theorem moderate_serves (content : ByteString) (gameid : Int32) (type : UInt8) (userid : Int32) :
    (moderate content gameid type userid).Keeps servingOnce Judged .fresh := by
  unfold moderate
  by_cases hskip : type = 4 ∧ gameid = 5
  · rw [if_pos hskip]
    exact refusal_serves rfl rfl rfl (by decide)
  · rw [if_neg hskip, getConnectionBySer_bind]
    refine keeps_idle rfl ?_
    rintro (_ | conn)
    · exact refusal_serves rfl rfl rfl (by decide)
    simp only [check_bind]
    rintro (_ | res)
    · refine ⟨_, rfl, keeps_idle rfl fun _ => ?_⟩
      exact refusal_serves rfl rfl rfl (by decide)
    · refine ⟨_, rfl, ?_⟩
      refine (deliverVerdict_serves rfl rfl conn gameid).bind ?_
      rintro _ q rfl
      exact ⟨rfl, rfl, rfl⟩

/-- The storage half stores at most one record, with the flag of the reply. -/
theorem storeResult_serves {p : Progress} {dirtyFlag : Int32} (h : Judged dirtyFlag p)
    (content : ByteString) (gameid userid : Int32) :
    (storeResult content gameid userid dirtyFlag).Keeps servingOnce Told p := by
  obtain ⟨htold, hstored, hflag⟩ := h
  unfold storeResult
  rw [getConnectionBySer_bind]
  refine keeps_idle rfl ?_
  rintro (_ | conn)
  · exact htold
  simp only [readField_bind]
  refine keeps_idle rfl fun type => keeps_idle rfl fun homeId => keeps_idle rfl fun roleGrade =>
    keeps_idle rfl fun vipGrade => keeps_idle rfl fun nick => ?_
  refine fun stored => ⟨_, if_pos ⟨htold, hstored, hflag.symm⟩, ?_⟩
  exact keeps_idle rfl fun _ => htold

/-- Whatever the other parties answer and the other threads do, a handler asks for a
verdict at most once, tells it in one reply, and stores it at most once. -/
theorem runClientInfo_serves : runClientInfo.Keeps servingOnce Told .fresh := by
  unfold runClientInfo
  rw [readField_bind]
  refine keeps_idle rfl fun func => ?_
  cases func with
  | tisProtoHandler =>
    show tisProtoHandler.Keeps servingOnce Told .fresh
    unfold tisProtoHandler
    simp only [readField_bind]
    refine keeps_idle rfl fun content => keeps_idle rfl fun gameId => keeps_idle rfl fun type =>
      keeps_idle rfl fun userid => ?_
    exact (moderate_serves _ _ _ _).bind fun _ _ hjudged => storeResult_serves hjudged _ _ _
  | defaultProtoHandler =>
    refine (sendToClient_serves rfl [] 0 1001 ?_).imp ?_
    · intro h hh
      exact tells_refusal rfl (by rw [hh]; decide) _
    · rintro _ q rfl
      rfl

end ThriftProxy
