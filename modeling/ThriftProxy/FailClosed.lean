import ThriftProxy.CheckReply

/-!
# Moderation that fails closed

A message is to pass for clean only if the moderation service has said so, with a code and
an action of 0. `tisProtoHandler` sees the defaults of the generated reader as well,
so it keeps to this exactly when no accepted reply without one of the two fields
reads as clean.
-/

namespace ThriftProxy

open Machine Effect Program

/-- A flag of 0 is told and stored only if the message has been cleared. Without a result
of `check` the client is told no flag, and the message is stored as suspect. -/
structure FailsClosed (run : List Milestone) (cleared : Prop) : Prop where
  /-- A flag of 0 is told only for a cleared message. -/
  told_clean : ∀ bytes, Milestone.replied bytes ∈ run →
    (ProtoHeader.decode bytes).statusCode = 0 → sentFlag bytes = some 0 → cleared
  /-- A flag of 0 is stored only for a cleared message. -/
  stored_clean : ∀ conn req returned, Milestone.stored conn req returned ∈ run →
    req.flag = 0 → cleared
  /-- No flag is told without a result, and 2 is stored. -/
  suspect : (∀ conn res, Milestone.checked conn (some res) ∉ run) →
    (∀ bytes, Milestone.replied bytes ∈ run → (ProtoHeader.decode bytes).statusCode ≠ 0) ∧
      ∀ conn req returned, Milestone.stored conn req returned ∈ run → req.flag = 2

/-- The moderation service has cleared the message: the last well-typed code is 0, and so
is the last well-typed action. -/
def Cleared (message : Option WireMessage) : Prop :=
  ∃ msg, message = some msg ∧ lastI32 1 msg.replyFields = some 0 ∧
    lastI32 2 msg.replyFields = some 0

/-- An accepted reply has no well-typed code or no well-typed action, and what it has of
them ends with 0. -/
def ReadsAsClean (message : Option WireMessage) : Prop :=
  ∃ msg, message = some msg ∧ msg.Accepted ∧
    (lastI32 1 msg.replyFields = none ∨ lastI32 2 msg.replyFields = none) ∧
    (lastI32 1 msg.replyFields).getD 0 = 0 ∧ (lastI32 2 msg.replyFields).getD 0 = 0

section

variable (ci : ClientInfo) (behind : List UInt8) (o : Outcomes) (message : Option WireMessage)

/-- The milestones of a run of the handler in which `check` gets this message. -/
def runOnMessage : List Milestone :=
  (tisRun ci behind { o with checkResult := recvCheck .init message }).filterMap milestone

/-- The moderation service is asked. -/
def Asked : Prop := ¬ ci.Bypassed ∧ o.tisConn ≠ none

/-- A verdict is told or stored: the body is not too long for a reply to game 5, or
there is a connection to the storage service. -/
def Noticed : Prop :=
  ¬ (ci.gameid = 5 ∧ 2 ^ 31 ≤ ci.len.toNat + 4) ∨ o.dbserConn ≠ none

variable {o message}

/-- A result means a clean message if code and action are 0. -/
theorem dirtyFlagOf_eq_zero_iff (res : CheckResultStruct) :
    dirtyFlagOf res = 0 ↔ res.code = 0 ∧ res.action = 0 := by
  rw [dirtyFlagOf]
  split
  · rename_i hcode
    constructor
    · intro h
      exact absurd h (by decide)
    · rintro ⟨h, -⟩
      exact absurd h hcode
  · rename_i hcode
    rw [not_not] at hcode
    exact (and_iff_right hcode).symm

/-- The storage half without a connection, and with one. -/
theorem milestones_storeResult (content : ByteString) (gameid userid flag : Int32) :
    (o.dbserConn = none →
      milestones ci behind o (storeResult content gameid userid flag) = []) ∧
    ∀ conn, o.dbserConn = some conn → ∃ req, req.flag = flag ∧
      milestones ci behind o (storeResult content gameid userid flag) =
        [.obtained "dbser" conn, .stored conn req o.stored, .released "dbser" conn o.stored] := by
  obtain ⟨tisConn, checkResult, dbserConn, stored⟩ := o
  constructor
  · rintro rfl
    rfl
  · rintro conn rfl
    exact ⟨_, rfl, rfl⟩

/-- The replies and the records behind a moderation half. -/
theorem mem_append_storeResult {moderation : List Milestone} {bytes : List UInt8}
    (hreplied : ∀ sent, Milestone.replied sent ∈ moderation ↔ sent = bytes)
    (hstored : ∀ conn req returned, Milestone.stored conn req returned ∉ moderation)
    (content : ByteString) (gameid userid flag : Int32) :
    let run := moderation ++ milestones ci behind o (storeResult content gameid userid flag)
    (∀ sent, Milestone.replied sent ∈ run ↔ sent = bytes) ∧
      (∀ conn req returned, Milestone.stored conn req returned ∈ run → req.flag = flag) ∧
      (o.dbserConn ≠ none ↔ ∃ conn req returned, Milestone.stored conn req returned ∈ run) := by
  intro run
  obtain ⟨hnone, hsome⟩ := milestones_storeResult ci behind (o := o) content gameid userid flag
  cases hconn : o.dbserConn with
  | none =>
    have hrun : run = moderation := by rw [← List.append_nil moderation, ← hnone hconn]
    rw [hrun]
    refine ⟨hreplied, ?_, ?_⟩
    · intro conn req returned hmem
      exact absurd hmem (hstored conn req returned)
    · simp [hstored]
  | some conn =>
    obtain ⟨req, hflag, hmilestones⟩ := hsome conn hconn
    have hrun : run = moderation ++ [.obtained "dbser" conn, .stored conn req o.stored,
        .released "dbser" conn o.stored] := by
      rw [← hmilestones]
    rw [hrun]
    refine ⟨?_, ?_, ?_⟩
    · intro sent
      simp [hreplied]
    · intro conn' req' returned hmem
      rw [List.mem_append] at hmem
      rcases hmem with hmem | hmem
      · exact absurd hmem (hstored conn' req' returned)
      · obtain ⟨-, rfl, -⟩ : conn' = conn ∧ req' = req ∧ returned = o.stored := by simpa using hmem
        exact hflag
    · exact iff_of_true (by simp) ⟨conn, req, o.stored, by simp⟩

/-- A run without a result of `check` fails closed. -/
theorem failsClosed_of_no_answer (cleared : Prop)
    (h : ci.Bypassed ∨ o.tisConn = none ∨ o.checkResult = none) :
    FailsClosed ((tisRun ci behind o).filterMap milestone) cleared := by
  obtain ⟨hresult, bytes, hstatus, hbytes⟩ :=
    moderate_of_no_answer ci behind (ci.text behind) ci.userid.toInt32 h
  have hmoderation : (∀ sent, Milestone.replied sent ∈ milestones ci behind o
        (moderate (ci.text behind) ci.gameid ci.type ci.userid.toInt32) ↔ sent = bytes) ∧
      ∀ conn req returned, Milestone.stored conn req returned ∉ milestones ci behind o
        (moderate (ci.text behind) ci.gameid ci.type ci.userid.toInt32) := by
    rcases hbytes with hbytes | ⟨conn, hbytes⟩
    · simp [hbytes]
    · simp [hbytes]
  obtain ⟨hreplied, hstored, -⟩ := mem_append_storeResult ci behind (o := o) hmoderation.1
    hmoderation.2 (ci.text behind) ci.gameid ci.userid.toInt32 suspectFlag
  rw [filterMap_tisRun ci behind o milestone fun _ _ => rfl, hresult]
  constructor
  · intro sent hsent hzero
    rw [(hreplied sent).mp hsent] at hzero
    exact absurd hzero hstatus
  · intro conn req returned hmem hzero
    rw [hstored conn req returned hmem] at hzero
    exact absurd hzero (by decide)
  · intro _
    constructor
    · intro sent hsent
      rwa [(hreplied sent).mp hsent]
    · exact hstored

/-- A run with a result fails closed if a flag of 0 that somebody notices is that of a
cleared message. -/
theorem failsClosed_of_answer (cleared : Prop) (hbypassed : ¬ ci.Bypassed) {conn : ℕ}
    (hconn : o.tisConn = some conn) {res : CheckResultStruct} (hres : o.checkResult = some res) :
    FailsClosed ((tisRun ci behind o).filterMap milestone) cleared ↔
      (dirtyFlagOf res = 0 → Noticed ci o → cleared) := by
  obtain ⟨hresult, bytes, hbytes, hstatus, hsent⟩ :=
    moderate_of_answer ci behind (ci.text behind) ci.userid.toInt32 hbypassed hconn hres
  have hmoderation : (∀ sent, Milestone.replied sent ∈ milestones ci behind o
        (moderate (ci.text behind) ci.gameid ci.type ci.userid.toInt32) ↔ sent = bytes) ∧
      ∀ conn req returned, Milestone.stored conn req returned ∉ milestones ci behind o
        (moderate (ci.text behind) ci.gameid ci.type ci.userid.toInt32) := by
    simp [hbytes]
  obtain ⟨hreplied, hstored, hexists⟩ := mem_append_storeResult ci behind (o := o) hmoderation.1
    hmoderation.2 (ci.text behind) ci.gameid ci.userid.toInt32 (dirtyFlagOf res)
  have hchecked : Milestone.checked conn (some res) ∈ (tisRun ci behind o).filterMap milestone := by
    rw [filterMap_tisRun ci behind o milestone fun _ _ => rfl, List.mem_append]
    refine .inl ?_
    change _ ∈ milestones ci behind o _
    rw [hbytes]
    simp
  rw [filterMap_tisRun ci behind o milestone fun _ _ => rfl, hresult] at hchecked ⊢
  constructor
  · rintro ⟨htold, hclean, -⟩ hzero (hfits | hdbser)
    · refine htold bytes ((hreplied bytes).mpr rfl) hstatus ?_
      rw [hsent, if_neg hfits, hzero]
    · obtain ⟨conn, req, returned, hmem⟩ := hexists.mp hdbser
      exact hclean conn req returned hmem ((hstored conn req returned hmem).trans hzero)
  · intro h
    constructor
    · intro sent hmem _ hzero
      rw [(hreplied sent).mp hmem, hsent] at hzero
      split at hzero
      · cases hzero
      · rename_i hfits
        exact h (Option.some.inj hzero) (.inl hfits)
    · intro conn' req returned hmem hzero
      exact h ((hstored conn' req returned hmem).symm.trans hzero)
        (.inr (hexists.mpr ⟨conn', req, returned, hmem⟩))
    · intro hnot
      exact absurd hchecked (hnot conn res)

/-- A value that is there is the one that a default would stand in for. -/
theorem eq_some_of_getD {value : Option Int32} (hsome : value ≠ none) {default x : Int32}
    (h : value.getD default = x) : value = some x := by
  obtain ⟨y, rfl⟩ := Option.ne_none_iff_exists'.mp hsome
  exact congrArg some h

/-- An accepted reply reads as clean if what it has of code and action ends with 0 though
it has not cleared the message. -/
theorem readsAsClean_iff {msg : WireMessage} (haccepted : msg.Accepted) :
    ReadsAsClean (some msg) ↔
      ((lastI32 1 msg.replyFields).getD 0 = 0 ∧ (lastI32 2 msg.replyFields).getD 0 = 0) ∧
        ¬ Cleared (some msg) := by
  constructor
  · rintro ⟨_, heq, -, hmissing, hzero⟩
    cases heq
    refine ⟨hzero, ?_⟩
    rintro ⟨_, heq, hcode, haction⟩
    cases heq
    rw [hcode, haction] at hmissing
    rcases hmissing with hmissing | hmissing
    · cases hmissing
    · cases hmissing
  · rintro ⟨hzero, hcleared⟩
    refine ⟨msg, rfl, haccepted, ?_, hzero⟩
    by_contra hpresent
    rw [not_or] at hpresent
    exact hcleared ⟨msg, rfl, eq_some_of_getD hpresent.1 hzero.1,
      eq_some_of_getD hpresent.2 hzero.2⟩

/-- **Failing closed.** For every request, all outcomes and every message that `check` gets,
the handler takes the message for clean only if the moderation service has cleared it,
unless it asks, somebody notices, and an accepted reply without a code or an action reads
as clean. -/
theorem failsClosed_iff (ci : ClientInfo) (behind : List UInt8) (o : Outcomes)
    (message : Option WireMessage) :
    FailsClosed (runOnMessage ci behind o message) (Cleared message) ↔
      ¬ (Asked ci o ∧ Noticed ci o ∧ ReadsAsClean message) := by
  by_cases hasked : Asked ci o
  · obtain ⟨hbypassed, hconn⟩ := hasked
    obtain ⟨conn, htis⟩ := Option.ne_none_iff_exists'.mp hconn
    cases hres : recvCheck .init message with
    | none =>
      have hnot : ¬ ReadsAsClean message := by
        rintro ⟨msg, rfl, haccepted, -⟩
        have hsome : recvCheck .init (some msg) = some _ :=
          recvCheck_eq_some_iff.mpr ⟨haccepted, rfl⟩
        rw [hres] at hsome
        cases hsome
      exact iff_of_true (failsClosed_of_no_answer ci behind _ (.inr (.inr hres)))
        fun h => hnot h.2.2
    | some res =>
      obtain ⟨msg, rfl⟩ : ∃ msg, message = some msg := by
        cases message with
        | none => cases hres
        | some msg => exact ⟨msg, rfl⟩
      obtain ⟨haccepted, hfields⟩ := recvCheck_eq_some_iff.mp hres
      have hclean : dirtyFlagOf res = 0 ↔
          (lastI32 1 msg.replyFields).getD 0 = 0 ∧ (lastI32 2 msg.replyFields).getD 0 = 0 := by
        rw [dirtyFlagOf_eq_zero_iff, hfields,
          CheckResultStruct.foldl_readField CheckResultStruct.code_readField,
          CheckResultStruct.foldl_readField CheckResultStruct.action_readField]
        rfl
      have hrun : FailsClosed (runOnMessage ci behind o (some msg)) (Cleared (some msg)) ↔
          (dirtyFlagOf res = 0 → Noticed ci o → Cleared (some msg)) :=
        failsClosed_of_answer ci behind (o := { o with checkResult := recvCheck .init (some msg) })
          (Cleared (some msg)) hbypassed htis hres
      have hasked : Asked ci o := ⟨hbypassed, hconn⟩
      rw [hrun, hclean, readsAsClean_iff haccepted]
      constructor
      · rintro h ⟨-, hnoticed, hzero, hdirty⟩
        exact hdirty (h hzero hnoticed)
      · intro h hzero hnoticed
        by_contra hdirty
        exact h ⟨hasked, hnoticed, hzero, hdirty⟩
  · have hno : ci.Bypassed ∨ o.tisConn = none := by
      by_contra hneither
      exact hasked (not_or.mp hneither)
    refine iff_of_true (failsClosed_of_no_answer ci behind _ ?_) fun h => hasked h.1
    exact hno.imp_right .inl

end

/-- A request of game 1 to moderate the text `hello`. -/
def helloRequest : ClientInfo :=
  let body := [1, 0, 0, 0] ++ List.replicate 29 0 ++ [5, 0, 0, 0] ++ literal "hello"
  { cliFd := 7, cliSeq := 1, cliCmd := 0x4702, userid := 100, serSeq := 1, len := 42
    procTime := ⟨0, 0⟩, buf := Buffer.zeroFilled bufSize body, callBackFunc := .tisProtoHandler }

/-- Connections to both services. -/
def bothConnections : Outcomes :=
  { tisConn := some 1, checkResult := none, dbserConn := some 2, stored := true }

/-- The answer to `check` with a result that has no fields. -/
def emptyReply : WireMessage :=
  { mtype := .reply, fname := literal "check"
    structs := [{ fields := [(0, .struct { fields := [], complete := true })], complete := true }] }

/-- An empty result lets the text pass for clean. -/
theorem emptyReply_passes : ¬ FailsClosed
    (runOnMessage helloRequest [] bothConnections (some emptyReply))
    (Cleared (some emptyReply)) := by
  have hbypassed : ¬ helloRequest.Bypassed := by decide
  have hconn : bothConnections.tisConn = some 1 := rfl
  have hres : recvCheck .init (some emptyReply) = some .init := by decide
  have hrun : FailsClosed (runOnMessage helloRequest [] bothConnections (some emptyReply))
      (Cleared (some emptyReply)) ↔
        (dirtyFlagOf .init = 0 → Noticed helloRequest bothConnections →
          Cleared (some emptyReply)) :=
    failsClosed_of_answer helloRequest []
      (o := { bothConnections with checkResult := recvCheck .init (some emptyReply) })
      (Cleared (some emptyReply)) hbypassed hconn hres
  rw [hrun]
  intro h
  obtain ⟨msg, heq, hcode, -⟩ := h (by decide) (.inr (Option.some_ne_none 2))
  cases heq
  exact absurd hcode (by decide)

end ThriftProxy
