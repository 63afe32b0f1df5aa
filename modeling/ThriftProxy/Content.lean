import ThriftProxy.HandlerRequests
import ThriftProxy.Refinement

/-!
# What the handler reads out of a package

The text and the record that reach the back-ends when a package has gone through
`ProcPkgCli` and `tisProtoHandler`. The handler overlays the packed structures on
the zero-filled buffer and takes both strings up to their first NUL, wherever
that is; the declared `content_len` is not looked at.
-/

namespace ThriftProxy

open Machine Effect Program

/-! ## Reads within the buffer -/

/-- The access to the buffer that an event makes. -/
def readAccess : Event HandlerSig → Option Access
  | ⟨.read f, v⟩ => f.access v
  | _ => none

/-- The access to the buffer by which an operation reads a given `ClientInfo`. -/
def HandlerOp.access (ci : ClientInfo) (behind : List UInt8) : HandlerOp → Option Access
  | read f => f.access (f.get ci behind)
  | _ => none

section

variable (ci : ClientInfo) (behind : List UInt8) (o : Outcomes)

/-- An event of a run on a fixed `ClientInfo` has the answer that is read from it. -/
theorem readAccess_of_answer {e : Event HandlerSig} (h : e.answer = o.answer ci behind e.op) :
    readAccess e = e.op.access ci behind := by
  obtain ⟨op, answer⟩ := e
  simp only at h
  subst h
  cases op <;> rfl

/-- An operation that reads the buffer within its bounds, if at all. -/
def HandlerOp.ReadsInRange (op : HandlerOp) : Prop :=
  ∀ access ∈ op.access ci behind, access.InRange

/-- A reply reads no buffer. -/
theorem sendToClient_reads (ok : Event HandlerSig → Prop) (buf : List UInt8) (len : ℤ)
    (statusCode : UInt32) : (sendToClient buf len statusCode).Always (S := HandlerSig) ok
      (HandlerOp.ReadsInRange ci behind) := by
  unfold sendToClient
  by_cases hlen : 0 < len <;>
    simp [hlen, act, HandlerOp.ReadsInRange, HandlerOp.access, Field.access]

/-- The answers of a run on a fixed `ClientInfo`. -/
def FromClient (e : Event HandlerSig) : Prop := e.answer = o.answer ci behind e.op

variable {ci behind}

/-- The verdict is delivered within bounds when the body fits in the buffer. -/
theorem deliverVerdict_reads (hbody : ci.len.toNat ≤ bufSize) (conn : ℕ)
    (gameid dirtyFlag : Int32) : (deliverVerdict conn gameid dirtyFlag).Always (S := HandlerSig)
      (FromClient ci behind o) (HandlerOp.ReadsInRange ci behind) := by
  have hreply : ∀ buf, (replyVerdict gameid dirtyFlag buf).Always (S := HandlerSig)
      (FromClient ci behind o) (HandlerOp.ReadsInRange ci behind) := by
    intro buf
    unfold replyVerdict
    by_cases hgame : gameid = 5
    · rw [if_pos hgame, readField_bind, always_perform]
      exact ⟨by simp [HandlerOp.ReadsInRange, HandlerOp.access, Field.access],
        fun len _ => sendToClient_reads ci behind _ _ _ _⟩
    · rw [if_neg hgame]
      exact sendToClient_reads ci behind _ _ _ _
  have htype : (⟨bufSize, 20, 1⟩ : Access).InRange := by decide
  have hlog : logVerdict.Always (S := HandlerSig) (FromClient ci behind o)
      (HandlerOp.ReadsInRange ci behind) := by
    simp [logVerdict, HandlerOp.ReadsInRange, HandlerOp.access, Field.access, htype]
  unfold deliverVerdict
  simp only [act_bind, readField_bind, always_perform]
  refine ⟨by simp [HandlerOp.ReadsInRange, HandlerOp.access], fun _ _ => ?_⟩
  refine ⟨by simp [HandlerOp.ReadsInRange, HandlerOp.access, Field.access], fun len hlen => ?_⟩
  obtain rfl : len = ci.len := hlen
  refine ⟨?_, fun body _ => ?_⟩
  · intro access haccess
    obtain rfl : _ = access := by simpa [HandlerOp.access, Field.access] using haccess
    exact ⟨le_refl _, by simpa using hbody⟩
  · refine ⟨by simp [HandlerOp.ReadsInRange, HandlerOp.access], fun _ _ => ?_⟩
    refine ⟨by simp [HandlerOp.ReadsInRange, HandlerOp.access], fun _ _ => ?_⟩
    exact always_bind (hreply _) fun _ => hlog

/-- The moderation half stays within bounds when the body fits in the buffer. -/
theorem moderate_reads (hbody : ci.len.toNat ≤ bufSize) (content : ByteString) (gameid : Int32)
    (type : UInt8) (userid : Int32) :
    (moderate content gameid type userid).Always (S := HandlerSig) (FromClient ci behind o)
      (HandlerOp.ReadsInRange ci behind) := by
  have hsend : ∀ status, (sendToClient [] 0 status >>= fun _ =>
      (ret suspectFlag : Program HandlerSig Int32)).Always (FromClient ci behind o)
        (HandlerOp.ReadsInRange ci behind) := fun status =>
    always_bind (sendToClient_reads ci behind _ _ _ _) fun _ => always_ret _ _ _
  have hother : ∀ op : HandlerOp, op.access ci behind = none → op.ReadsInRange ci behind := by
    intro op hop access haccess
    simp [hop] at haccess
  unfold moderate
  by_cases hskip : type = 4 ∧ gameid = 5
  · rw [if_pos hskip]
    exact hsend 1002
  · rw [if_neg hskip, getConnectionBySer_bind, always_perform]
    refine ⟨hother _ rfl, fun tisConn _ => ?_⟩
    cases tisConn with
    | none => exact hsend 1001
    | some conn =>
      simp only [check_bind, always_perform]
      refine ⟨hother _ rfl, fun checkResult _ => ?_⟩
      cases checkResult with
      | none => exact ⟨hother _ rfl, fun _ _ => hsend 1001⟩
      | some res =>
        exact always_bind (deliverVerdict_reads o hbody conn gameid (dirtyFlagOf res))
          fun _ => always_ret _ _ _

/-- The storage half stays within bounds when the name ends in the buffer. -/
theorem storeResult_reads (hnick : 4 + ((ci.nick behind).length + 1) ≤ bufSize)
    (content : ByteString) (gameid userid dirtyFlag : Int32) :
    (storeResult content gameid userid dirtyFlag).Always (S := HandlerSig)
      (FromClient ci behind o) (HandlerOp.ReadsInRange ci behind) := by
  have hfixed : ∀ offset ∈ [21, 25, 29], (⟨bufSize, offset, 4⟩ : Access).InRange := by decide
  have htype : (⟨bufSize, 20, 1⟩ : Access).InRange := by decide
  have hname : (⟨bufSize, 4, (ci.nick behind).length + 1⟩ : Access).InRange := by
    refine ⟨by simp, ?_⟩
    simp only
    omega
  unfold storeResult
  rw [getConnectionBySer_bind, always_perform]
  refine ⟨by simp [HandlerOp.ReadsInRange, HandlerOp.access], fun dbserConn _ => ?_⟩
  cases dbserConn with
  | none => exact always_ret _ _ _
  | some conn =>
    simp [HandlerOp.ReadsInRange, HandlerOp.access, Field.access, htype, hfixed, act]
    exact fun _ _ _ _ _ _ _ _ => hname

/-- The handler stays within bounds when the body fits in the buffer and both
strings end there. -/
theorem tisProtoHandler_reads (hbody : ci.len.toNat ≤ bufSize)
    (htext : contentOffset + ((ci.text behind).length + 1) ≤ bufSize)
    (hnick : 4 + ((ci.nick behind).length + 1) ≤ bufSize) :
    tisProtoHandler.Always (S := HandlerSig) (FromClient ci behind o)
      (HandlerOp.ReadsInRange ci behind) := by
  have hcontent : (⟨bufSize, contentOffset, (ci.text behind).length + 1⟩ : Access).InRange := by
    refine ⟨by simp, ?_⟩
    simp only
    omega
  have hgame : (⟨bufSize, 0, 4⟩ : Access).InRange := by decide
  have htype : (⟨bufSize, 20, 1⟩ : Access).InRange := by decide
  unfold tisProtoHandler
  simp only [readField_bind, always_perform]
  refine ⟨?_, fun content _ => ⟨?_, fun game _ => ⟨?_, fun type _ => ⟨?_, fun user _ => ?_⟩⟩⟩⟩
  · intro access haccess
    obtain rfl : _ = access := by simpa [HandlerOp.access, Field.access] using haccess
    exact hcontent
  · simpa [HandlerOp.ReadsInRange, HandlerOp.access, Field.access] using hgame
  · simpa [HandlerOp.ReadsInRange, HandlerOp.access, Field.access] using htype
  · simp [HandlerOp.ReadsInRange, HandlerOp.access, Field.access]
  · exact always_bind (moderate_reads o hbody _ _ _ _) fun _ =>
      storeResult_reads o hnick _ _ _ _

/-- A run reads within bounds when the body fits in the buffer and both strings
end there. -/
theorem readAccess_inRange (hbody : ci.len.toNat ≤ bufSize)
    (htext : contentOffset + ((ci.text behind).length + 1) ≤ bufSize)
    (hnick : 4 + ((ci.nick behind).length + 1) ≤ bufSize) :
    ∀ e ∈ tisRun ci behind o, ∀ access ∈ readAccess e, access.InRange := by
  intro e he access haccess
  rw [readAccess_of_answer ci behind o (answer_of_mem_trace he)] at haccess
  have hanswer : ∀ op, FromClient ci behind o ⟨op, o.answer ci behind op⟩ := fun _ => rfl
  exact (tisProtoHandler_reads o hbody htext hnick).trace hanswer e he access haccess

/-- A run starts by reading the text. -/
theorem content_mem_tisRun (ci : ClientInfo) (behind : List UInt8) (o : Outcomes) :
    (⟨.read .content, ci.text behind⟩ : Event HandlerSig) ∈ tisRun ci behind o :=
  List.mem_cons_self

end

/-! ## The text -/

/-- Whatever lies behind the buffer and whatever the back-ends do, the text that
reaches them is the given one and the buffer is read within its bounds. -/
structure ModeratesText (ci : ClientInfo) (text : ByteString) : Prop where
  checked : ∀ behind o, ∀ req ∈ checkRequests ci behind o, req.content = text
  stored : ∀ behind o, ∀ req ∈ storedRecords ci behind o, req.message = text
  in_range : ∀ behind o, ∀ e ∈ tisRun ci behind o, ∀ access ∈ readAccess e, access.InRange

/-- The bytes of the buffer from the text on. -/
def ClientInfo.textArea (ci : ClientInfo) : List UInt8 := ci.buf.bytes.drop contentOffset

section

variable {ci : ClientInfo} {behind : List UInt8} {count : ℕ}

/-- The text area is what is left of the buffer. -/
theorem length_textArea (ci : ClientInfo) : ci.textArea.length = bufSize - contentOffset := by
  rw [ClientInfo.textArea, List.length_drop, ci.buf.length_eq]

/-- The text starts in the text area and may go on behind the buffer. -/
theorem text_eq (ci : ClientInfo) (behind : List UInt8) :
    ci.text behind = cstr (ci.textArea ++ behind) := by
  rw [ClientInfo.text, List.drop_append_of_le_length, ClientInfo.textArea]
  rw [ci.buf.length_eq]
  decide

/-- A text that ends in the buffer does not depend on what lies behind it. -/
theorem text_of_mem (h : (0 : UInt8) ∈ ci.textArea) : ci.text behind = cstr ci.textArea := by
  rw [text_eq, cstr_append_of_mem h]

/-- A text that ends in the buffer is shorter than the text area. -/
theorem text_length_lt_iff :
    (cstr ci.textArea).length < bufSize - contentOffset ↔ (0 : UInt8) ∈ ci.textArea := by
  have h := length_cstr_lt_iff (le_refl ci.textArea.length)
  rwa [List.take_length, length_textArea] at h

/-- The text area ends the part of the buffer that starts with the name. -/
theorem mem_drop_of_mem_textArea (h : (0 : UInt8) ∈ ci.textArea) :
    (0 : UInt8) ∈ ci.buf.bytes.drop 4 := by
  have hdrop : ci.textArea = (ci.buf.bytes.drop 4).drop (contentOffset - 4) := by
    rw [List.drop_drop]
    rfl
  rw [hdrop] at h
  exact List.mem_of_mem_drop h

/-- The name does not depend on what lies behind the buffer when the text ends there. -/
theorem nick_of_mem (h : (0 : UInt8) ∈ ci.textArea) :
    ci.nick behind = cstr (ci.buf.bytes.drop 4) := by
  rw [ClientInfo.nick, List.drop_append_of_le_length,
    cstr_append_of_mem (mem_drop_of_mem_textArea h)]
  rw [ci.buf.length_eq]
  decide

/-- The name ends in the buffer when the text does. -/
theorem nick_length_lt (h : (0 : UInt8) ∈ ci.textArea) :
    4 + ((ci.nick behind).length + 1) ≤ bufSize := by
  have hlength : (ci.buf.bytes.drop 4).length = bufSize - 4 := by
    rw [List.length_drop, ci.buf.length_eq]
  have hlt := (length_cstr_lt_iff (le_refl (ci.buf.bytes.drop 4).length)).mpr
    (by rw [List.take_length]; exact mem_drop_of_mem_textArea h)
  rw [hlength] at hlt
  rw [nick_of_mem h]
  unfold bufSize at *
  omega

/-- The first bytes of the text area are the text exactly when a NUL is among
them or right behind them. -/
theorem moderatesText_take_iff (hbody : ci.len.toNat ≤ bufSize)
    (hcount : count ≤ bufSize - contentOffset) :
    ModeratesText ci (cstr (ci.textArea.take count)) ↔
      (0 : UInt8) ∈ ci.textArea.take (count + 1) := by
  constructor
  · intro h
    have hstored := h.stored [] ⟨none, none, some 0, true⟩
    obtain ⟨flag, hrecords⟩ := storedRecords_eq ci [] ⟨none, none, some 0, true⟩
    rw [hrecords, if_neg (by simp)] at hstored
    have htext : ci.text [] = cstr (ci.textArea.take count) :=
      hstored _ (List.mem_singleton.mpr rfl)
    rw [text_eq, List.append_nil, cstr_take] at htext
    have hle : (cstr ci.textArea).length ≤ count := by
      rw [htext, List.length_take]
      exact min_le_left _ _
    by_cases hall : count = bufSize - contentOffset
    · -- the declared text fills the buffer, so a NUL is needed inside it
      have haccess := h.in_range [] ⟨none, none, some 0, true⟩ _ (content_mem_tisRun ci [] _) _ rfl
      rw [List.take_of_length_le (by rw [length_textArea]; omega), ← text_length_lt_iff]
      have hend := haccess.2
      rw [text_eq, List.append_nil] at hend
      have hsize : contentOffset ≤ bufSize := by decide
      simp only at hend
      omega
    · rw [← length_cstr_lt_iff (by rw [length_textArea]; omega)]
      omega
  · intro h
    have hmem : (0 : UInt8) ∈ ci.textArea := List.mem_of_mem_take h
    have hlt := text_length_lt_iff.mpr hmem
    have hle : (cstr ci.textArea).length ≤ count := by
      by_cases hall : count = bufSize - contentOffset
      · omega
      · have := (length_cstr_lt_iff (by rw [length_textArea]; omega)).mpr h
        omega
    have htext : ∀ behind, ci.text behind = cstr (ci.textArea.take count) := by
      intro behind
      rw [text_of_mem hmem, cstr_take, List.take_of_length_le hle]
    refine ⟨?_, ?_, ?_⟩
    · intro behind o req hreq
      rw [checkRequests_eq] at hreq
      split at hreq
      · simp at hreq
      · rw [List.mem_singleton.mp hreq]
        exact htext behind
    · intro behind o req hreq
      obtain ⟨flag, hrecords⟩ := storedRecords_eq ci behind o
      rw [hrecords] at hreq
      split at hreq
      · simp at hreq
      · rw [List.mem_singleton.mp hreq]
        exact htext behind
    · intro behind o
      have hsize : contentOffset ≤ bufSize := by decide
      exact readAccess_inRange o hbody (by rw [text_of_mem hmem]; omega) (nick_length_lt hmem)

end

/-! ## Packages -/

section

variable {st : Store} {fd : Int32} {h : ProtoHeader} {malloc : Option ℕ} {procTime : Timeval}
  {now : ℤ} {item : ℕ}

/-- **The moderated text.** The text that reaches the back-ends is the declared
one, whatever else is in memory, exactly when a NUL is among the first
`content_len + 1` bytes behind the fixed part, or the declared text ends the
package and the buffer has room behind it. -/
theorem moderatesText_iff {d : DataBodyHuaXian} {contentLen : UInt32} {rest : List UInt8}
    (hfits : contentOffset + rest.length ≤ bufSize) (hlen : contentLen.toNat ≤ rest.length)
    (htask : (procPkgCli st fd (h.encode ++ (d.encode ++ (bytesU32 contentLen ++ rest))) malloc
      procTime now).task = some item) :
    ModeratesText ((procPkgCli st fd (h.encode ++ (d.encode ++ (bytesU32 contentLen ++ rest)))
        malloc procTime now).store.client item) (cstr (rest.take contentLen.toNat)) ↔
      (0 : UInt8) ∈ rest.take (contentLen.toNat + 1) ∨
        contentLen.toNat = rest.length ∧ contentOffset + rest.length < bufSize := by
  have hprefix : (d.encode ++ bytesU32 contentLen).length = contentOffset := by
    simp [contentOffset]
  have hbody :
      (d.encode ++ (bytesU32 contentLen ++ rest)).length = contentOffset + rest.length := by
    rw [← List.append_assoc, List.length_append, hprefix]
  have hcarries := carries_procPkgCli htask
  have harea : ClientInfo.textArea ((procPkgCli st fd (h.encode ++ (d.encode ++
      (bytesU32 contentLen ++ rest))) malloc procTime now).store.client item) =
        rest ++ List.replicate (bufSize - (contentOffset + rest.length)) 0 := by
    rw [ClientInfo.textArea, hcarries.bytes (hbody.trans_le hfits), hbody,
      ← List.append_assoc d.encode, List.append_assoc,
      List.drop_append_of_le_length hprefix.ge, List.drop_of_length_le hprefix.le, List.nil_append]
  have hdeclared : (rest ++ List.replicate (bufSize - (contentOffset + rest.length)) 0).take
      contentLen.toNat = rest.take contentLen.toNat := List.take_append_of_le_length hlen
  have hbufLen := hcarries.len.trans_le (hbody.trans_le hfits)
  have hcount : contentLen.toNat ≤ bufSize - contentOffset := by omega
  have hiff := moderatesText_take_iff hbufLen hcount
  rw [harea, hdeclared] at hiff
  rw [hiff]
  by_cases hall : contentLen.toNat = rest.length
  · rw [List.take_append, List.mem_append, List.take_replicate]
    simp only [hall, true_and, List.mem_replicate, and_true]
    constructor
    · rintro (hmem | hroom)
      · exact Or.inl hmem
      · exact Or.inr (by omega)
    · rintro (hmem | hroom)
      · exact Or.inl hmem
      · exact Or.inr (by omega)
  · rw [List.take_append_of_le_length (by omega)]
    simp [hall]

end

/-! ## A short declaration -/

/-- The header of a moderation request. -/
def requestHeader : ProtoHeader :=
  { pkgLen := 59, seqNum := 1, cmdId := writeMessageCmdId, statusCode := 0, userId := 100 }

/-- The fixed part of a moderation request. -/
def requestBody : DataBodyHuaXian :=
  { gameId := 1, nick := literal "role", type := 1, homeId := 1000, roleGrade := 1, vipGrade := 1 }

/-- A request whose text is "abc" and whose `content_len` is given. -/
def textPackage (contentLen : UInt32) : List UInt8 :=
  requestHeader.encode ++ (requestBody.encode ++ (bytesU32 contentLen ++ [97, 98, 99, 0]))

/-- What `ProcPkgCli` does with a package at a fresh store. -/
def receive (package : List UInt8) : PkgOutcome :=
  procPkgCli freshStore 7 package none ⟨100, 0⟩ 100

/-- The third byte of the text is moderated although it is not declared. -/
theorem not_moderatesText_shortText :
    (receive (textPackage 2)).task = some 4104 ∧
    ¬ ModeratesText ((receive (textPackage 2)).store.client 4104)
      (cstr ([97, 98, 99, 0].take (2 : UInt32).toNat)) := by
  have htask : (receive (textPackage 2)).task = some 4104 := by decide
  have hcarries : ((receive (textPackage 2)).store.client 4104).Carries 7 requestHeader
      (requestBody.encode ++ (bytesU32 2 ++ [97, 98, 99, 0])) :=
    carries_procPkgCli htask
  have harea : ((receive (textPackage 2)).store.client 4104).textArea =
      [97, 98, 99, 0] ++ List.replicate 4055 0 := by
    rw [ClientInfo.textArea, hcarries.bytes (by decide)]
    rfl
  have hdeclared : [97, 98, 99, 0].take (2 : UInt32).toNat =
      ((receive (textPackage 2)).store.client 4104).textArea.take 2 := by
    rw [harea]
    rfl
  refine ⟨htask, fun h => ?_⟩
  rw [hdeclared, moderatesText_take_iff (by rw [hcarries.len]; decide) (by decide), harea] at h
  exact absurd h (by decide)

/-- The exact condition at a request whose text is declared in full. -/
theorem moderatesText_iff_abc :
    ModeratesText ((receive (textPackage 3)).store.client 4104)
        (cstr ([97, 98, 99, 0].take (3 : UInt32).toNat)) ↔
      (0 : UInt8) ∈ [97, 98, 99, 0].take ((3 : UInt32).toNat + 1) ∨
        (3 : UInt32).toNat = [97, 98, 99, 0].length ∧
          contentOffset + [97, 98, 99, 0].length < bufSize :=
  moderatesText_iff (by decide) (by decide) (by decide)

end ThriftProxy
