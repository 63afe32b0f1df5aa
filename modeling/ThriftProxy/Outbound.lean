import ThriftProxy.HandlerProtocol
import ThriftProxy.Content
import ThriftProxy.Inbound

/-!
# Outbound framing

What `tisProtoHandler` and `SendToClient` write to their two stack buffers and
hand to `net_send_cli`. A reply frames itself, names the request it answers and
carries the body due to it, if `ProcPkgCli` has left the request in memory as it
came. The copy of a large body does not: it runs over the end of the buffer of
the `ClientInfo`. And the largest bodies, given back with a verdict, run over the
end of the buffer of `SendToClient`.
-/

namespace ThriftProxy

open Machine Effect Program

/-! ## Operations on the output buffers -/

/-- The operation of an event that uses an output buffer. -/
def outboundOp (e : Event HandlerSig) : Option HandlerOp :=
  match e.op with
  | .write _ _ _ | .netSendCli _ _ _ => some e.op
  | _ => none

/-- The access to an output buffer that an operation makes. -/
def HandlerOp.outAccess : HandlerOp → Option Access
  | write _ offset count => some ⟨outBufSize, offset, count⟩
  | netSendCli _ _ len => some ⟨outBufSize, 0, len.toNat⟩
  | _ => none

/-- The package that an operation hands to `net_send_cli`. -/
def HandlerOp.sent : HandlerOp → Option (Int32 × List UInt8 × ℤ)
  | netSendCli fd bytes len => some (fd, bytes, len)
  | _ => none

section

variable (ci : ClientInfo) (behind : List UInt8) (o : Outcomes)

/-- The operations of a run that use the output buffers. -/
def outbound : List HandlerOp := (tisRun ci behind o).filterMap outboundOp

/-- The operations of `SendToClient` that use the output buffers. -/
def sendOps (buf : List UInt8) (len : ℤ) (statusCode : UInt32) : List HandlerOp :=
  .write .sendToClient 0 sizeofProtoHeader ::
    ((if 0 < len then [.write .sendToClient sizeofProtoHeader len.toNat] else []) ++
      [.netSendCli ci.cliFd (replyBytes ci buf len statusCode)
        (replyHeader ci len statusCode).pkgLen.toInt32.toInt])

/-- Sending a reply performs these operations. -/
theorem observed_sendToClient (buf : List UInt8) (len : ℤ) (statusCode : UInt32) :
    (sendToClient buf len statusCode).observed (S := HandlerSig) (o.answer ci behind) outboundOp =
      sendOps ci buf len statusCode := by
  unfold sendToClient sendOps
  by_cases hlen : 0 < len
  · simp only [hlen, if_true]
    rfl
  · simp only [hlen, if_false]
    rfl

/-- The verdict on a request that is to be moderated, if the service is reached
and answers. -/
def Outcomes.verdict (bypassed : Prop) [Decidable bypassed] : Option CheckResultStruct :=
  if bypassed then none else o.tisConn.bind fun _ => o.checkResult

/-- The status of a reply without a verdict. -/
def refusalStatus (bypassed : Prop) [Decidable bypassed] : UInt32 := if bypassed then 1002 else 1001

/-- The operations that deliver a verdict. -/
def deliverOps (gameid dirtyFlag : Int32) : List HandlerOp :=
  .write .handler 0 4 :: .write .handler 4 ci.len.toNat ::
    if gameid = 5 then
      sendOps ci (verdictBytes dirtyFlag ((ci.buf.bytes ++ behind).take ci.len.toNat))
        (wrapInt (ci.len.toNat + 4)) 0
    else sendOps ci (verdictBytes dirtyFlag []) 4 0

/-- Delivering a verdict performs these operations. -/
theorem observed_deliverVerdict (conn : ℕ) (gameid dirtyFlag : Int32) :
    (deliverVerdict conn gameid dirtyFlag).observed (S := HandlerSig) (o.answer ci behind)
      outboundOp = deliverOps ci behind gameid dirtyFlag := by
  have hreply : ∀ buf, (replyVerdict gameid dirtyFlag buf).observed (S := HandlerSig)
      (o.answer ci behind) outboundOp =
        if gameid = 5 then sendOps ci buf (wrapInt (ci.len.toNat + 4)) 0
        else sendOps ci (verdictBytes dirtyFlag []) 4 0 := by
    intro buf
    unfold replyVerdict
    by_cases hgame : gameid = 5
    · rw [if_pos hgame, if_pos hgame]
      exact observed_sendToClient ci behind o _ _ _
    · rw [if_neg hgame, if_neg hgame, observed_sendToClient, verdictBytes, List.append_nil]
  have hlog := observed_bind (S := HandlerSig) (o.answer ci behind) outboundOp
    (replyVerdict gameid dirtyFlag (verdictBytes dirtyFlag
      (Field.get ci behind (.body ci.len.toNat)))) fun _ => logVerdict
  rw [hreply] at hlog
  rw [deliverOps]
  refine congrArg (HandlerOp.write .handler 0 4 :: HandlerOp.write .handler 4 ci.len.toNat :: ·) ?_
  exact hlog.trans (List.append_nil _)

/-- The moderation half delivers the verdict or a refusal. -/
theorem observed_moderate (content : ByteString) (gameid : Int32) (type : UInt8)
    (userid : Int32) : (moderate content gameid type userid).observed (S := HandlerSig)
      (o.answer ci behind) outboundOp =
        match o.verdict (type = 4 ∧ gameid = 5) with
        | none => sendOps ci [] 0 (refusalStatus (type = 4 ∧ gameid = 5))
        | some res => deliverOps ci behind gameid (dirtyFlagOf res) := by
  have hrefuse : ∀ status, (sendToClient [] 0 status >>= fun _ =>
      (ret suspectFlag : Program HandlerSig Int32)).observed (o.answer ci behind) outboundOp =
        sendOps ci [] 0 status := by
    intro status
    rw [observed_bind, observed_sendToClient]
    exact List.append_nil _
  unfold moderate Outcomes.verdict refusalStatus
  by_cases hskip : type = 4 ∧ gameid = 5
  · rw [if_pos hskip, if_pos hskip, if_pos hskip]
    exact hrefuse 1002
  · rw [if_neg hskip, if_neg hskip, if_neg hskip]
    obtain ⟨tisConn, checkResult, dbserConn, stored⟩ := o
    cases tisConn with
    | none => exact hrefuse 1001
    | some conn =>
      cases checkResult with
      | none => exact hrefuse 1001
      | some res =>
        have hdeliver := observed_bind (S := HandlerSig)
          (Outcomes.answer ⟨some conn, some res, dbserConn, stored⟩ ci behind) outboundOp
          (deliverVerdict conn gameid (dirtyFlagOf res)) fun _ => ret (dirtyFlagOf res)
        rw [observed_deliverVerdict] at hdeliver
        exact hdeliver.trans (List.append_nil _)

/-- A run delivers the verdict or a refusal. -/
theorem outbound_eq : outbound ci behind o =
    match o.verdict ci.Bypassed with
    | none => sendOps ci [] 0 (refusalStatus ci.Bypassed)
    | some res => deliverOps ci behind ci.gameid (dirtyFlagOf res) := by
  have hstore : ∀ flag, (storeResult (ci.text behind) ci.gameid ci.userid.toInt32 flag).observed
      (S := HandlerSig) (o.answer ci behind) outboundOp = [] := by
    intro flag
    obtain ⟨tisConn, checkResult, dbserConn, stored⟩ := o
    cases dbserConn <;> rfl
  rw [outbound, filterMap_tisRun ci behind o outboundOp fun _ _ => rfl, hstore, List.append_nil,
    observed_moderate]
  rfl

end

/-! ## One reply -/

section

variable {ci : ClientInfo} {buf : List UInt8} {len : ℕ} {statusCode : UInt32}

/-- The length in the header of a reply. -/
theorem pkgLen_replyHeader (ci : ClientInfo) (len : ℕ) (statusCode : UInt32) :
    (replyHeader ci len statusCode).pkgLen = UInt32.ofNat (sizeofProtoHeader + len) := by
  rw [replyHeader, ← uint32_ofInt_natCast]
  push_cast
  rfl

/-- The length in the header of a short reply is not negative as an `int`. -/
theorem toInt_pkgLen (hlen : sizeofProtoHeader + len < 2 ^ 31) :
    (replyHeader ci len statusCode).pkgLen.toInt32.toInt = (sizeofProtoHeader + len : ℕ) := by
  rw [pkgLen_replyHeader, UInt32.toInt32_ofNat', Int32.toInt_ofNat_of_lt hlen]

/-- A short reply stays within bounds exactly when header and body fit in the buffer. -/
theorem sendOps_inRange_iff (hlen : sizeofProtoHeader + len < 2 ^ 31) :
    (∀ op ∈ sendOps ci buf len statusCode, ∀ access ∈ op.outAccess, access.InRange) ↔
      sizeofProtoHeader + len ≤ outBufSize := by
  have hheader : sizeofProtoHeader = 18 := rfl
  have hout : outBufSize = 8192 := rfl
  rw [sendOps, toInt_pkgLen hlen]
  rcases Nat.eq_zero_or_pos len with rfl | hpos
  · simp [HandlerOp.outAccess, Access.InRange, hheader, hout]
  · simp [hpos, HandlerOp.outAccess, Access.InRange, hheader, hout]
    omega

/-- One package is sent, whole. -/
theorem sent_sendOps (hlen : sizeofProtoHeader + len < 2 ^ 31) :
    (sendOps ci buf len statusCode).filterMap HandlerOp.sent =
      [(ci.cliFd, replyBytes ci buf len statusCode, ((sizeofProtoHeader + len : ℕ) : ℤ))] := by
  rw [sendOps, toInt_pkgLen hlen]
  rcases Nat.eq_zero_or_pos len with rfl | hpos
  · simp [HandlerOp.sent, List.filterMap_cons]
  · simp [hpos, HandlerOp.sent, List.filterMap_cons]

/-- A reply consists of a header and the first bytes of the given buffer. -/
theorem drop_replyBytes :
    (replyBytes ci buf len statusCode).drop sizeofProtoHeader = buf.take len := by
  rw [replyBytes, List.drop_append_of_le_length (by simp), List.drop_of_length_le (by simp)]
  simp

/-- The number of bytes of a reply. -/
theorem length_replyBytes (hbuf : len ≤ buf.length) :
    (replyBytes ci buf len statusCode).length = sizeofProtoHeader + len := by
  simp [replyBytes, hbuf]

/-- The length that frames a reply is the number of its bytes. -/
theorem getPkgLenCli_replyBytes (hlen : sizeofProtoHeader + len < 2 ^ 31)
    (hbuf : len ≤ buf.length) : getPkgLenCli (replyBytes ci buf len statusCode) =
      (replyBytes ci buf len statusCode).length := by
  have hpkgLen : readU32 0 (replyBytes ci buf len statusCode) =
      (replyHeader ci len statusCode).pkgLen :=
    congrArg ProtoHeader.pkgLen (ProtoHeader.decode_encode _ _)
  have hheader : sizeofProtoHeader = 18 := rfl
  rw [getPkgLenCli, hpkgLen, toInt_pkgLen hlen, length_replyBytes hbuf, if_neg (by omega)]

end

/-! ## The reply due to a request -/

/-- The game that the body of a request names; bytes that are missing count as 0. -/
def gameOf (body : List UInt8) : Int32 := (readU32 0 body).toInt32

/-- The type byte in the body of a request. -/
def typeOf (body : List UInt8) : UInt8 := UInt8.ofNat (decodeLE (field 20 1 body))

/-- The status and the body of the reply that is due to a request. -/
def dueReply (body : List UInt8) (o : Outcomes) : UInt32 × List UInt8 :=
  match o.verdict (typeOf body = 4 ∧ gameOf body = 5) with
  | none => (refusalStatus (typeOf body = 4 ∧ gameOf body = 5), [])
  | some res => (0, verdictBytes (dirtyFlagOf res) (if gameOf body = 5 then body else []))

/-- The body of a request is given back with the verdict. -/
structure Echoes (body : List UInt8) (o : Outcomes) : Prop where
  game : gameOf body = 5
  moderated : typeOf body ≠ 4
  reached : o.tisConn ≠ none
  answered : o.checkResult ≠ none

/-- Every access to the output buffers is in range. -/
def InBounds (ops : List HandlerOp) : Prop := ∀ op ∈ ops, ∀ access ∈ op.outAccess, access.InRange

/-- The output buffers are used within bounds and one package is sent, which
frames itself, has the header of the request with the given status, and has the
given body. -/
structure Answers (fd : Int32) (request : ProtoHeader) (reply : UInt32 × List UInt8)
    (ops : List HandlerOp) : Prop where
  in_bounds : InBounds ops
  sent : ∃ bytes : List UInt8, ops.filterMap HandlerOp.sent = [(fd, bytes, (bytes.length : ℤ))] ∧
    getPkgLenCli bytes = bytes.length ∧
    ProtoHeader.decode bytes =
      { request with pkgLen := UInt32.ofNat bytes.length, statusCode := reply.1 } ∧
    bytes.drop sizeofProtoHeader = reply.2

section

variable {ci : ClientInfo} {fd : Int32} {h : ProtoHeader} {body behind : List UInt8} {o : Outcomes}

/-- The game of a request is in its body. -/
theorem ClientInfo.Carries.gameid_eq (hci : ci.Carries fd h body) : ci.gameid = gameOf body := by
  rw [ClientInfo.gameid, hci.buf, readU32, Buffer.decodeLE_field_zeroFilled (by decide)]
  rfl

/-- The type of a request is in its body. -/
theorem ClientInfo.Carries.type_eq (hci : ci.Carries fd h body) : ci.type = typeOf body := by
  rw [ClientInfo.type, hci.buf, Buffer.decodeLE_field_zeroFilled (by decide)]
  rfl

/-- The body is given back with a verdict on a message of game 5. -/
theorem echoes_iff : Echoes body o ↔ gameOf body = 5 ∧
    ∃ res, o.verdict (typeOf body = 4 ∧ gameOf body = 5) = some res := by
  unfold Outcomes.verdict
  constructor
  · intro hecho
    obtain ⟨conn, hconn⟩ := Option.ne_none_iff_exists'.mp hecho.reached
    obtain ⟨res, hres⟩ := Option.ne_none_iff_exists'.mp hecho.answered
    refine ⟨hecho.game, res, ?_⟩
    rw [if_neg fun hskip => hecho.moderated hskip.1, hconn, hres]
    rfl
  · rintro ⟨hgame, res, hres⟩
    by_cases hskip : typeOf body = 4 ∧ gameOf body = 5
    · rw [if_pos hskip] at hres
      simp at hres
    · rw [if_neg hskip, Option.bind_eq_some_iff] at hres
      obtain ⟨conn, hconn, hres⟩ := hres
      exact ⟨hgame, fun htype => hskip ⟨htype, hgame⟩, by simp [hconn], by simp [hres]⟩

/-- A short reply to a request answers it exactly when it fits in the buffer and
has the right body. -/
theorem answers_sendOps_iff (hci : ci.Carries fd h body) {buf : List UInt8} {len : ℕ}
    {reply : UInt32 × List UInt8} (hlen : sizeofProtoHeader + len < 2 ^ 31)
    (hbuf : len ≤ buf.length) : Answers fd h reply (sendOps ci buf len reply.1) ↔
      sizeofProtoHeader + len ≤ outBufSize ∧ buf.take len = reply.2 := by
  constructor
  · rintro ⟨hbounds, bytes, hsent, -, -, hbody⟩
    refine ⟨(sendOps_inRange_iff hlen).mp hbounds, ?_⟩
    rw [sent_sendOps hlen] at hsent
    obtain ⟨_, rfl, _⟩ : _ ∧ replyBytes ci buf len reply.1 = bytes ∧ _ := by simpa using hsent
    rw [← hbody, drop_replyBytes]
  · rintro ⟨hfits, hbody⟩
    refine ⟨(sendOps_inRange_iff hlen).mpr hfits, replyBytes ci buf len reply.1, ?_,
      getPkgLenCli_replyBytes hlen hbuf, ?_, ?_⟩
    · rw [sent_sendOps hlen, length_replyBytes hbuf, hci.fd]
    · rw [length_replyBytes hbuf, replyBytes, ProtoHeader.decode_encode]
      rw [← pkgLen_replyHeader ci len reply.1, ← hci.seq, ← hci.cmd, ← hci.userid]
      rfl
    · rw [drop_replyBytes, hbody]

/-- The verdict on a request is the one its body calls for. -/
theorem outbound_carries (hci : ci.Carries fd h body) (behind : List UInt8) (o : Outcomes) :
    outbound ci behind o = match o.verdict (typeOf body = 4 ∧ gameOf body = 5) with
      | none => sendOps ci [] 0 (refusalStatus (typeOf body = 4 ∧ gameOf body = 5))
      | some res => deliverOps ci behind (gameOf body) (dirtyFlagOf res) := by
  rw [outbound_eq]
  simp only [ClientInfo.Bypassed, hci.gameid_eq, hci.type_eq]

/-- The two writes of the handler are within bounds. -/
theorem inBounds_cons_iff {len : ℕ} {ops : List HandlerOp} (hlen : 4 + len ≤ outBufSize) :
    InBounds (.write .handler 0 4 :: .write .handler 4 len :: ops) ↔ InBounds ops := by
  have hout : outBufSize = 8192 := rfl
  simp [InBounds, HandlerOp.outAccess, Access.InRange, hout]
  omega

/-- The two writes of the handler send nothing. -/
theorem answers_cons_iff {reply : UInt32 × List UInt8} {len : ℕ} {ops : List HandlerOp}
    (hlen : 4 + len ≤ outBufSize) :
    Answers fd h reply (.write .handler 0 4 :: .write .handler 4 len :: ops) ↔
      Answers fd h reply ops := by
  constructor
  · rintro ⟨hall, hsent⟩
    exact ⟨(inBounds_cons_iff hlen).mp hall, hsent⟩
  · rintro ⟨hall, hsent⟩
    exact ⟨(inBounds_cons_iff hlen).mpr hall, hsent⟩

/-- What lies in memory from the buffer on starts with the body exactly when the
body fits, unless the memory behind happens to continue it. -/
theorem ClientInfo.Carries.take_eq_iff (hci : ci.Carries fd h body) :
    (∀ behind, bufSize ≤ behind.length →
      (ci.buf.bytes ++ behind).take ci.len.toNat = body) ↔ body.length ≤ bufSize := by
  rw [hci.len]
  constructor
  · intro hread
    by_contra hlong
    rw [not_le] at hlong
    have hbytes : ci.buf.bytes = body.take bufSize := by
      rw [hci.buf, Buffer.bytes_zeroFilled, Nat.sub_eq_zero_of_le hlong.le]
      exact List.append_nil _
    have hother := hread (List.replicate bufSize (body[bufSize] + 1)) (by simp)
    have hbyte := congrArg (fun bytes : List UInt8 => bytes[bufSize]?) hother
    simp only [hbytes] at hbyte
    have hfront : (body.take bufSize).length = bufSize := List.length_take_of_le hlong.le
    rw [List.getElem?_take_of_lt hlong, List.getElem?_append_right hfront.le, hfront, Nat.sub_self,
      List.getElem?_replicate_of_lt (by decide), List.getElem?_eq_getElem hlong,
      Option.some.injEq] at hbyte
    simp at hbyte
  · intro hfits behind _
    rw [hci.bytes hfits, List.append_assoc, List.take_append_of_le_length (le_refl _),
      List.take_length]

/-- A reply without a verdict answers the request. -/
theorem answers_refusal (hci : ci.Carries fd h body)
    (hverdict : o.verdict (typeOf body = 4 ∧ gameOf body = 5) = none) :
    Answers fd h (dueReply body o) (outbound ci behind o) := by
  rw [outbound_carries hci, dueReply, hverdict]
  exact (answers_sendOps_iff hci (by decide) (Nat.zero_le _)).mpr ⟨by decide, rfl⟩

/-- A verdict without the body answers the request. -/
theorem answers_flag (hci : ci.Carries fd h body) (hlen : 4 + body.length ≤ outBufSize)
    (hgame : gameOf body ≠ 5) {res : CheckResultStruct}
    (hverdict : o.verdict (typeOf body = 4 ∧ gameOf body = 5) = some res) :
    Answers fd h (dueReply body o) (outbound ci behind o) := by
  rw [outbound_carries hci, dueReply, hverdict]
  simp only [if_neg hgame, deliverOps, hci.len]
  rw [answers_cons_iff hlen]
  have hflag : (verdictBytes (dirtyFlagOf res) []).length = 4 := by simp [verdictBytes]
  exact (answers_sendOps_iff hci (by decide) hflag.ge).mpr
    ⟨by decide, List.take_of_length_le hflag.le⟩

section

variable {res : CheckResultStruct} (hci : ci.Carries fd h body)
  (hlen : 4 + body.length ≤ outBufSize) (hgame : gameOf body = 5)
  (hverdict : o.verdict (typeOf body = 4 ∧ gameOf body = 5) = some res)

include hci hlen hgame hverdict

/-- The operations that give the body back. -/
theorem outbound_echo : outbound ci behind o =
    .write .handler 0 4 :: .write .handler 4 body.length ::
      sendOps ci (verdictBytes (dirtyFlagOf res) ((ci.buf.bytes ++ behind).take body.length))
        ((4 + body.length : ℕ) : ℤ) 0 := by
  have hout : outBufSize = 8192 := rfl
  have hwrap : wrapInt ((body.length : ℤ) + 4) = ((4 + body.length : ℕ) : ℤ) := by
    rw [wrapInt_eq_self (by omega) (by omega)]
    omega
  rw [outbound_carries hci, hverdict]
  simp only [deliverOps, hci.len, if_pos hgame, hwrap]

/-- Giving the body back stays within bounds exactly when flag and body fit
behind the header. -/
theorem inBounds_echo_iff : InBounds (outbound ci behind o) ↔
    sizeofProtoHeader + (4 + body.length) ≤ outBufSize := by
  have hout : outBufSize = 8192 := rfl
  have hheader : sizeofProtoHeader = 18 := rfl
  rw [outbound_echo hci hlen hgame hverdict, inBounds_cons_iff hlen]
  exact sendOps_inRange_iff (by omega)

/-- A verdict with the body answers the request exactly when the reply fits in
the buffer and the body is what is read. -/
theorem answers_echo_iff (hbehind : bufSize ≤ behind.length) :
    Answers fd h (dueReply body o) (outbound ci behind o) ↔
      sizeofProtoHeader + (4 + body.length) ≤ outBufSize ∧
        (ci.buf.bytes ++ behind).take ci.len.toNat = body := by
  have hout : outBufSize = 8192 := rfl
  have hbuf : bufSize = 4096 := rfl
  have hheader : sizeofProtoHeader = 18 := rfl
  have hread : ((ci.buf.bytes ++ behind).take body.length).length = body.length := by
    rw [List.length_take_of_le]
    rw [List.length_append, ci.buf.length_eq]
    omega
  have hverdictLength : (verdictBytes (dirtyFlagOf res)
      ((ci.buf.bytes ++ behind).take body.length)).length = 4 + body.length := by
    rw [verdictBytes, List.length_append, length_bytesU32, hread]
  have hdue : dueReply body o = (0, verdictBytes (dirtyFlagOf res) body) := by
    rw [dueReply, hverdict]
    simp only [if_pos hgame]
  rw [outbound_echo hci hlen hgame hverdict, answers_cons_iff hlen, hdue,
    answers_sendOps_iff hci (by omega) hverdictLength.ge,
    List.take_of_length_le hverdictLength.le, hci.len]
  exact and_congr_right' (List.append_right_inj _)

end

/-- The output buffers are used within bounds exactly when a body that is given
back leaves room for the flag and the header. -/
theorem inBounds_iff (hci : ci.Carries fd h body) (hlen : 4 + body.length ≤ outBufSize) :
    InBounds (outbound ci behind o) ↔
      (Echoes body o → sizeofProtoHeader + (4 + body.length) ≤ outBufSize) := by
  rw [echoes_iff]
  cases hverdict : o.verdict (typeOf body = 4 ∧ gameOf body = 5) with
  | none => simpa using (answers_refusal hci hverdict).in_bounds
  | some res =>
    by_cases hgame : gameOf body = 5
    · simpa [hgame] using inBounds_echo_iff hci hlen hgame hverdict
    · simpa [hgame] using (answers_flag hci hlen hgame hverdict).in_bounds

/-- A request is answered, whatever lies behind the buffer, exactly when a body
that is given back fits in the buffer of the `ClientInfo`. -/
theorem answers_iff (hci : ci.Carries fd h body) (hlen : 4 + body.length ≤ outBufSize) :
    (∀ behind, bufSize ≤ behind.length → Answers fd h (dueReply body o) (outbound ci behind o)) ↔
      (Echoes body o → body.length ≤ bufSize) := by
  rw [echoes_iff]
  cases hverdict : o.verdict (typeOf body = 4 ∧ gameOf body = 5) with
  | none => simpa using fun behind _ => answers_refusal hci hverdict
  | some res =>
    by_cases hgame : gameOf body = 5
    · have hiff : (∀ behind, bufSize ≤ behind.length →
          Answers fd h (dueReply body o) (outbound ci behind o)) ↔ body.length ≤ bufSize := by
        rw [← hci.take_eq_iff]
        constructor
        · intro h behind hbehind
          exact ((answers_echo_iff hci hlen hgame hverdict hbehind).mp (h behind hbehind)).2
        · intro h behind hbehind
          have hfits := hci.take_eq_iff.mp h
          refine (answers_echo_iff hci hlen hgame hverdict hbehind).mpr ⟨?_, h behind hbehind⟩
          unfold sizeofProtoHeader outBufSize bufSize at *
          omega
      simpa [hgame] using hiff
    · simpa [hgame] using fun behind _ => answers_flag hci hlen hgame hverdict

end

/-! ## Packages -/

/-- The `ClientInfo` that the handler of an accepted package gets. There is none that
is known if the package has not been copied and linked in within bounds: what the copy
overwrites then includes `call_back_func` and other requests. -/
def handlerClient (st : Store) (fd : Int32) (pkg : List UInt8) (malloc : Option ℕ)
    (procTime : Timeval) (now : ℤ) : Option ClientInfo :=
  let out := procPkgCli st fd pkg malloc procTime now
  if out.Faults then none else out.task.map out.store.client

/-- Nothing is known of a request behind a fault. -/
theorem handlerClient_of_faults {st : Store} {fd : Int32} {pkg : List UInt8}
    {malloc : Option ℕ} {procTime : Timeval} {now : ℤ}
    (h : (procPkgCli st fd pkg malloc procTime now).Faults) :
    handlerClient st fd pkg malloc procTime now = none := if_pos h

/-- The handler gets the request of a package and gives the reply that is due to it,
whatever lies behind `buf`. -/
def Replies (st : Store) (fd : Int32) (pkg : List UInt8) (malloc : Option ℕ)
    (procTime : Timeval) (now : ℤ) (o : Outcomes) : Prop :=
  ∃ ci ∈ handlerClient st fd pkg malloc procTime now, ∀ behind, bufSize ≤ behind.length →
    Answers fd (ProtoHeader.decode pkg) (dueReply (pkg.drop sizeofProtoHeader) o)
      (outbound ci behind o)

/-- An accepted package that holds a header is handled within bounds exactly when its
body fits in the buffer and its file descriptor is valid. -/
theorem not_faults_iff {st : Store} {fd : Int32} {pkg : List UInt8} {malloc : Option ℕ}
    {procTime : Timeval} {now : ℤ} {item : ℕ} (hlow : sizeofProtoHeader ≤ pkg.length)
    (hhigh : pkg.length ≤ 8192)
    (htask : (procPkgCli st fd pkg malloc procTime now).task = some item) :
    ¬ (procPkgCli st fd pkg malloc procTime now).Faults ↔
      pkg.length ≤ sizeofProtoHeader + bufSize ∧ 0 ≤ fd.toInt ∧ fd.toInt < st.maxOpenFd := by
  have haccepted : ¬ st.pool.Exhausted malloc := by
    intro hexhausted
    rw [(procPkgCli_refused fd procTime now (.inr hexhausted)).2] at htask
    cases htask
  obtain ⟨pool, words, ci, -, hproc⟩ := procPkgCli_accepted fd procTime now hhigh haccepted
  have hrange := @acceptAccesses_inRange_iff st fd pkg.length hhigh
  simp only [PkgOutcome.Faults, hproc, not_exists, not_and, not_not, hrange, hlow, true_and]

/-- **Outbound framing.** For an accepted package that holds a header, and any verdict, the
handler gives the reply that is due within the bounds of its buffers exactly when the
package has been copied and linked in within bounds: its body fits in the buffer of the
`ClientInfo` and its file descriptor is valid. -/
theorem reply_framed_iff {st : Store} {fd : Int32} {pkg : List UInt8} {malloc : Option ℕ}
    {procTime : Timeval} {now : ℤ} {item : ℕ} (hlow : sizeofProtoHeader ≤ pkg.length)
    (hhigh : pkg.length ≤ 8192)
    (htask : (procPkgCli st fd pkg malloc procTime now).task = some item) (o : Outcomes) :
    Replies st fd pkg malloc procTime now o ↔
      pkg.length ≤ sizeofProtoHeader + bufSize ∧ 0 ≤ fd.toInt ∧ fd.toInt < st.maxOpenFd := by
  rw [← not_faults_iff hlow hhigh htask]
  constructor
  · rintro ⟨ci, hci, -⟩ hfaults
    rw [handlerClient_of_faults hfaults] at hci
    cases hci
  · intro hsafe
    have hcarries := carries_of_task hlow htask
    have hshort := ((not_faults_iff hlow hhigh htask).mp hsafe).1
    have hlength : (pkg.drop sizeofProtoHeader).length = pkg.length - sizeofProtoHeader :=
      List.length_drop
    have hheader : sizeofProtoHeader = 18 := rfl
    have hbuf : bufSize = 4096 := rfl
    have hout : outBufSize = 8192 := rfl
    refine ⟨_, by simp only [handlerClient, if_neg hsafe, htask]; rfl, ?_⟩
    exact (answers_iff hcarries (by omega)).mpr fun _ => by omega

/-- The body of a request of game 5 that fills the largest package. -/
def largestBody : List UInt8 := [5, 0, 0, 0] ++ List.replicate 8170 0

/-- The header of the largest package. -/
def largestHeader : ProtoHeader := { requestHeader with pkgLen := 8192 }

/-- The largest package, with a request of game 5. -/
def largestPackage : List UInt8 := largestHeader.encode ++ largestBody

/-- The moderation service lets a message pass. -/
def passed : Outcomes := ⟨some 0, some ⟨0, 0, 0, 0, []⟩, none, true⟩

/-- The verdict on the largest package is sent back with its body. -/
theorem echoes_largestBody : Echoes largestBody passed := by
  refine ⟨?_, ?_, by decide, by decide⟩
  · rw [gameOf, largestBody, readU32, field_append_left (by decide)]
    decide
  · rw [typeOf, largestBody, field_append_right (by decide), field, List.drop_replicate,
      List.take_replicate]
    decide

/-- The reply to the largest package of game 5 leaves the buffer of `SendToClient`,
whatever lies behind `buf`. The copy of its body has left `buf` before. -/
theorem not_reply_framed_largest :
    Framed largestPackage 8192 ∧ largestPackage.length = 8192 ∧
    (receive largestPackage).task = some 4104 ∧
    (∀ behind, ¬ InBounds
      (outbound ((receive largestPackage).store.client 4104) behind passed)) ∧
    ¬ Replies freshStore 7 largestPackage none ⟨100, 0⟩ 100 passed := by
  have hbody : largestBody.length = 8174 := by
    rw [largestBody, List.length_append, List.length_replicate]
    rfl
  have hlength : largestPackage.length = 8192 := by
    rw [largestPackage, List.length_append, ProtoHeader.length_encode, hbody]
    rfl
  have htask : (receive largestPackage).task = some 4104 := by
    unfold receive procPkgCli
    rw [if_neg (by omega)]
    rfl
  have hlow : sizeofProtoHeader ≤ largestPackage.length := by
    rw [hlength]
    decide
  have hpkgLen : readU32 0 largestPackage = 8192 :=
    congrArg ProtoHeader.pkgLen (ProtoHeader.decode_encode largestHeader largestBody)
  have hframed : Framed largestPackage 8192 :=
    { length_eq := by rw [getPkgLenCli, hpkgLen, hlength]; decide
      pos := by decide
      arrived := hlength.ge }
  refine ⟨hframed, hlength, htask, fun behind hbounds => ?_, ?_⟩
  · have hcarries :
        ((receive largestPackage).store.client 4104).Carries 7 largestHeader largestBody :=
      carries_procPkgCli htask
    have hfits := (inBounds_iff hcarries (by rw [hbody]; decide)).mp hbounds echoes_largestBody
    rw [hbody] at hfits
    exact absurd hfits (by decide)
  · rintro ⟨ci, hci, -⟩
    have hfaults : (procPkgCli freshStore 7 largestPackage none ⟨100, 0⟩ 100).Faults := by
      by_contra hsafe
      have hfits := ((not_faults_iff hlow hlength.le htask).mp hsafe).1
      rw [hlength] at hfits
      exact absurd hfits (by decide)
    rw [handlerClient_of_faults hfaults] at hci
    cases hci

/-- The equivalence at a request with a text of three letters. -/
theorem reply_framed_iff_text :
    Replies freshStore 7 (textPackage 3) none ⟨100, 0⟩ 100 passed ↔
      (textPackage 3).length ≤ sizeofProtoHeader + bufSize ∧
        0 ≤ (7 : Int32).toInt ∧ (7 : Int32).toInt < freshStore.maxOpenFd :=
  reply_framed_iff (by decide) (by decide)
    (show (receive (textPackage 3)).task = some 4104 by decide) passed

end ThriftProxy
