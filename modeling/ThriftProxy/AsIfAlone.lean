import ThriftProxy.Lib.Alone
import ThriftProxy.Ownership
import ThriftProxy.ServedRuns

/-!
# Every request is handled as if alone

Any number of workers share the memory, the pools and the remote services with each
other and with the event loop. As long as the event loop spares the requests that may
still be read, what is done for a request is what `ClientInfo::run` does on the
`ClientInfo` made from its own package when nobody else is there.
-/

namespace ThriftProxy

open Machine Effect Program Transition

/-! ## Questions of a handler -/

/-- What a handler asks the pools and the remote services. -/
inductive Question
  | tisConn
  | checkResult
  | dbserConn
  | stored
  deriving DecidableEq

/-- The question that an operation asks. -/
def HandlerOp.question : HandlerOp → Option Question
  | getConnectionBySer server => some (if server = "tis" then .tisConn else .dbserConn)
  | check _ _ => some .checkResult
  | storeMessage _ _ => some .stored
  | _ => none

/-- Each question once. -/
abbrev asking : Discipline HandlerSig (List Question) := askingOnce HandlerOp.question

section

variable {α : Type} {final : α → List Question → Prop} {asked : List Question}

/-- An operation that asks nothing. -/
theorem keeps_unasked {op : HandlerOp} {next : op.Answer → Program HandlerSig α}
    (hop : op.question = none) (h : ∀ answer, (next answer).Keeps asking final asked) :
    (perform (S := HandlerSig) op next).Keeps asking final asked :=
  fun answer => ⟨asked, askingOnce_none hop asked, h answer⟩

/-- An operation that asks something new. -/
theorem keeps_asked {op : HandlerOp} {next : op.Answer → Program HandlerSig α} {q : Question}
    (hop : op.question = some q) (hnew : q ∉ asked)
    (h : ∀ answer, (next answer).Keeps asking final (q :: asked)) :
    (perform (S := HandlerSig) op next).Keeps asking final asked :=
  fun answer => ⟨q :: asked, askingOnce_some hop hnew, h answer⟩

end

/-- `SendToClient` asks nothing. -/
theorem sendToClient_asks (buf : List UInt8) (len : ℤ) (statusCode : UInt32)
    (asked : List Question) :
    (sendToClient buf len statusCode).Keeps asking (fun _ asked' => asked' = asked) asked := by
  unfold sendToClient
  simp only [readField_bind, act_bind]
  refine keeps_unasked rfl fun _ => keeps_unasked rfl fun _ => keeps_unasked rfl fun _ =>
    keeps_unasked rfl fun _ => ?_
  by_cases hlen : 0 < len
  · rw [if_pos hlen]
    exact keeps_unasked rfl fun _ => keeps_unasked rfl fun _ => keeps_unasked rfl fun _ => rfl
  · rw [if_neg hlen]
    exact keeps_unasked rfl fun _ => keeps_unasked rfl fun _ => rfl

/-- Delivering a verdict asks nothing. -/
theorem deliverVerdict_asks (conn : ℕ) (gameid dirtyFlag : Int32) (asked : List Question) :
    (deliverVerdict conn gameid dirtyFlag).Keeps asking (fun _ asked' => asked' = asked) asked := by
  have hreply : ∀ buf, (replyVerdict gameid dirtyFlag buf).Keeps asking
      (fun _ asked' => asked' = asked) asked := by
    intro buf
    unfold replyVerdict
    by_cases hgame : gameid = 5
    · rw [if_pos hgame, readField_bind]
      exact keeps_unasked rfl fun _ => sendToClient_asks _ _ _ _
    · rw [if_neg hgame]
      exact sendToClient_asks _ _ _ _
  unfold deliverVerdict
  simp only [act_bind, readField_bind]
  refine keeps_unasked rfl fun _ => keeps_unasked rfl fun _ => keeps_unasked rfl fun _ =>
    keeps_unasked rfl fun _ => keeps_unasked rfl fun _ => ?_
  refine (hreply _).bind ?_
  rintro _ _ rfl
  unfold logVerdict
  simp only [readField_bind]
  exact keeps_unasked rfl fun _ => keeps_unasked rfl fun _ => keeps_unasked rfl fun _ => rfl

/-- What the moderation half may have asked. -/
def AskedTis (asked : List Question) : Prop := .dbserConn ∉ asked ∧ .stored ∉ asked

/-- The moderation half asks for a connection and for a verdict. -/
theorem moderate_asks (content : ByteString) (gameid : Int32) (type : UInt8) (userid : Int32) :
    (moderate content gameid type userid).Keeps asking (fun _ => AskedTis) [] := by
  have hrefuse : ∀ status asked, AskedTis asked → (sendToClient [] 0 status >>= fun _ =>
      (ret suspectFlag : Program HandlerSig Int32)).Keeps asking (fun _ => AskedTis) asked := by
    intro status asked hasked
    refine (sendToClient_asks _ _ _ asked).bind ?_
    rintro _ _ rfl
    exact hasked
  unfold moderate
  by_cases hskip : type = 4 ∧ gameid = 5
  · rw [if_pos hskip]
    exact hrefuse 1002 [] (by simp [AskedTis])
  · rw [if_neg hskip, getConnectionBySer_bind]
    refine keeps_asked rfl List.not_mem_nil fun tisConn => ?_
    cases tisConn with
    | none => exact hrefuse 1001 _ (by simp [AskedTis])
    | some conn =>
      simp only [check_bind]
      refine keeps_asked rfl (by simp) fun checkResult => ?_
      cases checkResult with
      | none =>
        simp only [act_bind]
        exact keeps_unasked rfl fun _ => hrefuse 1001 _ (by simp [AskedTis])
      | some res =>
        refine (deliverVerdict_asks conn gameid (dirtyFlagOf res) _).bind ?_
        rintro _ _ rfl
        simp [AskedTis]

/-- The storage half asks for a connection and for a record to be stored. -/
theorem storeResult_asks (content : ByteString) (gameid userid dirtyFlag : Int32)
    {asked : List Question} (hasked : AskedTis asked) :
    (storeResult content gameid userid dirtyFlag).Keeps asking (fun _ _ => True) asked := by
  unfold storeResult
  rw [getConnectionBySer_bind]
  refine keeps_asked rfl hasked.1 fun dbserConn => ?_
  cases dbserConn with
  | none => trivial
  | some conn =>
    simp only [readField_bind, storeMessage_bind]
    refine keeps_unasked rfl fun _ => keeps_unasked rfl fun _ => keeps_unasked rfl fun _ =>
      keeps_unasked rfl fun _ => keeps_unasked rfl fun _ => ?_
    refine keeps_asked rfl (by simp [hasked.2]) fun stored => ?_
    exact keeps_unasked rfl fun _ => trivial

/-- A handler asks each question at most once. -/
theorem runClientInfo_asks : runClientInfo.Keeps asking (fun _ _ => True) [] := by
  unfold runClientInfo
  rw [readField_bind]
  refine keeps_unasked rfl fun func => ?_
  cases func with
  | tisProtoHandler =>
    show tisProtoHandler.Keeps asking (fun _ _ => True) []
    unfold tisProtoHandler
    simp only [readField_bind]
    refine keeps_unasked rfl fun content => keeps_unasked rfl fun gameId =>
      keeps_unasked rfl fun type => keeps_unasked rfl fun userid => ?_
    exact (moderate_asks _ _ _ _).bind fun _ _ => storeResult_asks _ _ _ _
  | defaultProtoHandler => exact (sendToClient_asks _ _ _ []).imp fun _ _ _ => trivial

/-! ## The answers -/

/-- The answer of a pool, of the moderation service or of another one. -/
def gotConnection (q : Question) : Event HandlerSig → Option (Option ℕ)
  | ⟨.getConnectionBySer server, conn⟩ =>
    if (HandlerOp.getConnectionBySer server).question = some q then some conn else none
  | _ => none

/-- The answer of the moderation service. -/
def gotResult : Event HandlerSig → Option (Option CheckResultStruct)
  | ⟨.check _ _, res⟩ => some res
  | _ => none

/-- The answer of the storage service. -/
def gotStored : Event HandlerSig → Option Bool
  | ⟨.storeMessage _ _, stored⟩ => some stored
  | _ => none

/-- A connection is the answer to a call of the pool. -/
theorem question_of_gotConnection {q : Question} {e : Event HandlerSig} {conn : Option ℕ}
    (h : gotConnection q e = some conn) : e.op.question = some q := by
  obtain ⟨op, answer⟩ := e
  cases op with
  | getConnectionBySer server => exact (Option.ite_none_right_eq_some.mp h).1
  | _ => cases h

/-- A result is the answer to a call of `check`. -/
theorem question_of_gotResult {e : Event HandlerSig} {res : Option CheckResultStruct}
    (h : gotResult e = some res) : e.op.question = some .checkResult := by
  obtain ⟨op, answer⟩ := e
  cases op with
  | check conn req => rfl
  | _ => cases h

/-- Whether a message has been stored is the answer to a call of `StoreMessage`. -/
theorem question_of_gotStored {e : Event HandlerSig} {stored : Bool}
    (h : gotStored e = some stored) : e.op.question = some .stored := by
  obtain ⟨op, answer⟩ := e
  cases op with
  | storeMessage conn req => rfl
  | _ => cases h

/-- What the pools and the remote services have done in an execution. -/
def outcomesOf (events : List (Event HandlerSig)) : Outcomes where
  tisConn := (events.findSome? (gotConnection .tisConn)).join
  checkResult := (events.findSome? gotResult).join
  dbserConn := (events.findSome? (gotConnection .dbserConn)).join
  stored := (events.findSome? gotStored).getD false

/-! ## The reads -/

/-- A read does not depend on what is behind the buffer. -/
def HandlerOp.Inside (ci : ClientInfo) : HandlerOp → Prop
  | read f => ∀ behind, f.get ci behind = f.get ci []
  | _ => True

section

variable (ci : ClientInfo)

/-- `SendToClient` reads plain members. -/
theorem sendToClient_inside (buf : List UInt8) (len : ℤ) (statusCode : UInt32) :
    (sendToClient buf len statusCode).Always (S := HandlerSig) (ReadFrom ci)
      (HandlerOp.Inside ci) := by
  unfold sendToClient
  simp only [readField_bind, act_bind, always_perform]
  refine ⟨fun _ => rfl, fun _ _ => ⟨fun _ => rfl, fun _ _ => ⟨fun _ => rfl, fun _ _ =>
    ⟨trivial, fun _ _ => ?_⟩⟩⟩⟩
  by_cases hlen : 0 < len
  · rw [if_pos hlen]
    exact ⟨trivial, fun _ _ => ⟨fun _ => rfl, fun _ _ => ⟨trivial, fun _ _ => trivial⟩⟩⟩
  · rw [if_neg hlen]
    exact ⟨fun _ => rfl, fun _ _ => ⟨trivial, fun _ _ => trivial⟩⟩

variable {ci}

/-- Delivering a verdict copies a body that fits. -/
theorem deliverVerdict_inside (hlen : ci.len.toNat ≤ bufSize) (conn : ℕ)
    (gameid dirtyFlag : Int32) :
    (deliverVerdict conn gameid dirtyFlag).Always (S := HandlerSig) (ReadFrom ci)
      (HandlerOp.Inside ci) := by
  have hreply : ∀ buf, (replyVerdict gameid dirtyFlag buf).Always (S := HandlerSig)
      (ReadFrom ci) (HandlerOp.Inside ci) := by
    intro buf
    unfold replyVerdict
    by_cases hgame : gameid = 5
    · rw [if_pos hgame, readField_bind, always_perform]
      exact ⟨fun _ => rfl, fun len _ => sendToClient_inside ci _ _ _⟩
    · rw [if_neg hgame]
      exact sendToClient_inside ci _ _ _
  have hlog : logVerdict.Always (S := HandlerSig) (ReadFrom ci) (HandlerOp.Inside ci) :=
    ⟨fun _ => rfl, fun _ _ => ⟨fun _ => rfl, fun _ _ => ⟨fun _ => rfl, fun _ _ => trivial⟩⟩⟩
  have hbody : (HandlerOp.read (.body ci.len.toNat)).Inside ci := by
    intro behind
    show (ci.buf.bytes ++ behind).take _ = (ci.buf.bytes ++ []).take _
    rw [List.append_nil, List.take_append_of_le_length (by rwa [ci.buf.length_eq])]
  unfold deliverVerdict
  simp only [act_bind, readField_bind, always_perform]
  refine ⟨trivial, fun _ _ => ⟨fun _ => rfl, fun len hread => ?_⟩⟩
  obtain ⟨_, rfl⟩ := hread
  refine ⟨hbody, fun body _ => ⟨trivial, fun _ _ => ⟨trivial, fun _ _ => ?_⟩⟩⟩
  exact always_bind (hreply _) fun _ => hlog

/-- The moderation half reads inside the buffer. -/
theorem moderate_inside (hlen : ci.len.toNat ≤ bufSize) (content : ByteString) (gameid : Int32)
    (type : UInt8) (userid : Int32) :
    (moderate content gameid type userid).Always (S := HandlerSig) (ReadFrom ci)
      (HandlerOp.Inside ci) := by
  have hrefuse : ∀ status, (sendToClient [] 0 status >>= fun _ =>
      (ret suspectFlag : Program HandlerSig Int32)).Always (ReadFrom ci)
        (HandlerOp.Inside ci) := fun status =>
    always_bind (sendToClient_inside ci _ _ _) fun _ => always_ret _ _ _
  unfold moderate
  by_cases hskip : type = 4 ∧ gameid = 5
  · rw [if_pos hskip]
    exact hrefuse 1002
  · rw [if_neg hskip, getConnectionBySer_bind, always_perform]
    refine ⟨trivial, fun tisConn _ => ?_⟩
    cases tisConn with
    | none => exact hrefuse 1001
    | some conn =>
      simp only [check_bind, always_perform]
      refine ⟨trivial, fun checkResult _ => ?_⟩
      cases checkResult with
      | none => exact ⟨trivial, fun _ _ => hrefuse 1001⟩
      | some res =>
        exact always_bind (deliverVerdict_inside hlen conn gameid (dirtyFlagOf res))
          fun _ => always_ret _ _ _

/-- The storage half reads a nick that ends in the buffer. -/
theorem storeResult_inside (hends : (0 : UInt8) ∈ ci.textArea) (content : ByteString)
    (gameid userid dirtyFlag : Int32) :
    (storeResult content gameid userid dirtyFlag).Always (S := HandlerSig) (ReadFrom ci)
      (HandlerOp.Inside ci) := by
  have hnick : (HandlerOp.read .nick).Inside ci := fun behind =>
    (nick_of_mem hends).trans (nick_of_mem hends).symm
  unfold storeResult
  rw [getConnectionBySer_bind, always_perform]
  refine ⟨trivial, fun dbserConn _ => ?_⟩
  cases dbserConn with
  | none => exact always_ret _ _ _
  | some conn =>
    simp only [readField_bind, storeMessage_bind, always_perform]
    refine ⟨fun _ => rfl, fun _ _ => ⟨fun _ => rfl, fun _ _ => ⟨fun _ => rfl, fun _ _ =>
      ⟨fun _ => rfl, fun _ _ => ⟨hnick, fun _ _ => ?_⟩⟩⟩⟩⟩
    exact ⟨trivial, fun _ _ => ⟨trivial, fun _ _ => trivial⟩⟩

/-- A handler reads inside the buffer, when the body fits and the text ends in it. -/
theorem runClientInfo_inside (hlen : ci.len.toNat ≤ bufSize) (hends : ci.TextEnds) :
    runClientInfo.Always (S := HandlerSig) (ReadFrom ci) (HandlerOp.Inside ci) := by
  unfold runClientInfo
  rw [readField_bind, always_perform]
  refine ⟨fun _ => rfl, fun func hread => ?_⟩
  obtain ⟨_, rfl⟩ := hread
  show (Func.handler ci.callBackFunc).Always (S := HandlerSig) (ReadFrom ci) (HandlerOp.Inside ci)
  cases hfunc : ci.callBackFunc with
  | defaultProtoHandler => exact sendToClient_inside ci _ _ _
  | tisProtoHandler =>
    have hmem := hends hfunc
    have hcontent : (HandlerOp.read .content).Inside ci := fun behind =>
      (text_of_mem hmem).trans (text_of_mem hmem).symm
    show tisProtoHandler.Always (S := HandlerSig) (ReadFrom ci) (HandlerOp.Inside ci)
    unfold tisProtoHandler
    simp only [readField_bind, always_perform]
    refine ⟨hcontent, fun _ _ => ⟨fun _ => rfl, fun _ _ => ⟨fun _ => rfl, fun _ _ =>
      ⟨fun _ => rfl, fun _ _ => ?_⟩⟩⟩⟩
    exact always_bind (moderate_inside hlen _ _ _ _) fun _ => storeResult_inside hmem _ _ _ _

end

section

variable {ci : ClientInfo} {events : List (Event HandlerSig)} {rest : Program HandlerSig Unit}

/-- Everything that a handler is told could have been told by nobody but the pools and
the remote services, in one go. -/
theorem answers_of_exec (hlen : ci.len.toNat ≤ bufSize) (hends : ci.TextEnds)
    (h : Exec runClientInfo events rest) (hread : ∀ e ∈ events, ReadFrom ci e)
    {e : Event HandlerSig} (he : e ∈ events) :
    e.answer = (outcomesOf events).answer ci [] e.op := by
  have hinside := (h.always hread (runClientInfo_inside hlen hends)).1 e he
  have hconn : ∀ q conn, gotConnection q e = some conn →
      events.findSome? (gotConnection q) = some conn := fun q conn =>
    h.answer_unique runClientInfo_asks (fun _ _ => question_of_gotConnection) he
  have hresult : ∀ res, gotResult e = some res → events.findSome? gotResult = some res :=
    fun res => h.answer_unique runClientInfo_asks (fun _ _ => question_of_gotResult) he
  have hstored : ∀ stored, gotStored e = some stored → events.findSome? gotStored = some stored :=
    fun stored => h.answer_unique runClientInfo_asks (fun _ _ => question_of_gotStored) he
  have hmem := hread e he
  obtain ⟨op, answer⟩ := e
  cases op with
  | read f =>
    obtain ⟨behind, rfl⟩ := hmem
    exact hinside behind
  | getConnectionBySer server =>
    by_cases hserver : server = "tis"
    · have hfirst := hconn .tisConn answer (by simp [gotConnection, HandlerOp.question, hserver])
      simp [Outcomes.answer, outcomesOf, hserver, hfirst]
    · have hfirst := hconn .dbserConn answer (by simp [gotConnection, HandlerOp.question, hserver])
      simp [Outcomes.answer, outcomesOf, hserver, hfirst]
  | check conn req => simp [Outcomes.answer, outcomesOf, hresult answer rfl]
  | storeMessage conn req => simp [Outcomes.answer, outcomesOf, hstored answer rfl]
  | write dst offset count => rfl
  | releaseConnectionBySer server conn state => rfl
  | netSendCli fd buf len => rfl

/-- An execution on one `ClientInfo` is the beginning of a run alone. -/
theorem trace_of_exec (hlen : ci.len.toNat ≤ bufSize) (hends : ci.TextEnds)
    (h : Exec runClientInfo events rest) (hread : ∀ e ∈ events, ReadFrom ci e) :
    runClientInfo.trace (S := HandlerSig) ((outcomesOf events).answer ci []) =
      events ++ rest.trace (S := HandlerSig) ((outcomesOf events).answer ci []) :=
  h.trace_eq fun _ he => answers_of_exec hlen hends h hread he

end

/-! ## The whole proxy -/

namespace System

variable {s s' : System}

/-- The body of each accepted package fits. -/
def BodiesFit (s : System) : Prop :=
  ∀ r fd pkg, Entry.accepted r fd pkg ∈ s.log → pkg.length ≤ sizeofProtoHeader + bufSize

/-- The condition on the event loop lets no other package in. -/
theorem BodiesFit.step (h : s.BodiesFit) {op : SystemOp} (hop : SparesReaders s op)
    (hstep : SystemStep s op s') : s'.BodiesFit := by
  cases hstep with
  | @loop op st' idle fresh step =>
    obtain hafter | ⟨fd, -, hafter⟩ | ⟨fd, pkg, malloc, procTime, now, item, rfl, htask, hafter⟩ :=
      s.afterLoop_cases st' op
    · rw [hafter]
      exact h
    · rw [hafter]
      exact fun r fd' pkg hr => h r fd' pkg (by simpa using hr)
    · rw [hafter]
      intro r fd' pkg' hr
      rcases List.mem_append.mp hr with hr | hr
      · exact h r fd' pkg' hr
      · obtain ⟨-, -, rfl⟩ := Entry.accepted.inj (List.mem_singleton.mp hr)
        rcases hop with hrefused | ⟨⟨-, hfits, -⟩, -⟩
        · rw [(procPkgCli_refused fd procTime now hrefused).2] at htask
          cases htask
        · exact hfits
  | put pending room => exact h
  | take idle front => exact h
  | work busy read => exact fun r fd pkg hr => h r fd pkg (by simpa using hr)
  | finish done => exact h

/-- What is recorded for a request has been read from its own `ClientInfo`. -/
theorem Owned.readFrom (h : s.Owned) {r : Request} {fd : Int32} {pkg : List UInt8}
    (hr : Entry.accepted r fd pkg ∈ s.log) {e : Event HandlerSig} (he : e ∈ eventsOf r.id s.log) :
    ReadFrom r.client e := by
  obtain ⟨q, owner, hq, hid⟩ := mem_eventsOf.mp he
  obtain ⟨fd', pkg', hqaccepted⟩ := h.coherent.performed_accepted q owner e hq
  obtain ⟨rfl, -, -⟩ := h.coherent.accepted_unique q fd' pkg' r fd pkg hqaccepted hr hid
  exact (h.performed q owner e hq).1

/-- A request is handled as if alone: what has been done so far is the beginning of a
run on its own `ClientInfo`, and when it neither waits nor is with a worker, the run is
complete. -/
def HandledAlone (s : System) (r : Request) (o : Outcomes) : Prop :=
  eventsOf r.id s.log <+: runClientInfo.trace (S := HandlerSig) (o.answer r.client []) ∧
    (r ∉ s.waiting → ¬ s.Working r →
      eventsOf r.id s.log = runClientInfo.trace (S := HandlerSig) (o.answer r.client []))

/-- The execution recorded for a request is a run alone. -/
theorem handledAlone (howned : s.Owned) (hplaced : s.Placed) {r : Request} {fd : Int32}
    {pkg : List UInt8} (hr : Entry.accepted r fd pkg ∈ s.log) (hlen : r.client.len.toNat ≤ bufSize)
    (hends : r.client.TextEnds) : s.HandledAlone r (outcomesOf (eventsOf r.id s.log)) := by
  have hread : ∀ e ∈ eventsOf r.id s.log, ReadFrom r.client e := fun e he => howned.readFrom hr he
  obtain ⟨rest, hexec⟩ := howned.coherent.history r.id
  refine ⟨⟨_, (trace_of_exec hlen hends hexec hread).symm⟩, fun hwaiting hworking => ?_⟩
  obtain hmem | hmem | hdone := hplaced.somewhere r (mem_acceptedOf.mpr ⟨fd, pkg, hr⟩)
  · exact absurd hmem hwaiting
  · exact absurd hmem hworking
  · rw [trace_of_exec hlen hends hdone hread, trace_ret, List.append_nil]

end System

/-- **Every request is handled as if alone.** In every run from `Proxy::Init` in which
every package that is accepted fits, with a text that ends in the buffer and a free serial
number, and in which no request is taken out that may still be read, what is done for a
request is what `ClientInfo::run` does on the `ClientInfo` of its package with nobody else
around, for some outcomes of the remote calls. -/
theorem handled_as_if_alone {memory : Store} {maxOpenFd timeoutS : ℤ}
    {sizeofClientInfo pagesize chunk : ℕ} (hpage : 0 < pagesize) (hne : chunk ≠ 0)
    (hle : chunk + mempoolAllocSize pagesize (mempoolItemSize sizeofClientInfo) (pagesize * 4096)
      ≤ 2 ^ 64)
    {ops : List SystemOp} {s : System}
    (hrun : Run (Guarded SparesReaders SystemStep)
      (System.start (Store.init memory maxOpenFd timeoutS sizeofClientInfo pagesize chunk)) ops s)
    {r : Request} {fd : Int32} {pkg : List UInt8} (hr : Entry.accepted r fd pkg ∈ s.log) :
    r.client.Carries fd (ProtoHeader.decode pkg) (pkg.drop sizeofProtoHeader) ∧
      ∃ o, s.HandledAlone r o := by
  have howned : s.Owned := hrun.invariant (fun _ _ _ h hstep => h.step hstep.1 hstep.2)
    (System.owned_start (represents_init memory maxOpenFd timeoutS sizeofClientInfo hpage hne hle))
  have hplaced : s.Placed :=
    hrun.invariant (fun _ _ _ h hstep => h.step hstep.2) (System.placed_start _)
  have hfit : s.BodiesFit := hrun.invariant (fun _ _ _ h hstep => h.step hstep.1 hstep.2) nofun
  obtain ⟨hheader, hends⟩ := howned.accepted r fd pkg hr
  have hcarries := (howned.coherent.accepted_client r fd pkg hr).2 hheader
  have hlen : r.client.len.toNat ≤ bufSize := by
    rw [hcarries.len, List.length_drop]
    have hpkg := hfit r fd pkg hr
    omega
  exact ⟨hcarries, _, System.handledAlone howned hplaced hr hlen hends⟩

/-- Two requests are handled by two workers at a time, each as if alone. -/
theorem handled_as_if_alone_both : ∃ ops s,
    Run (Guarded SparesReaders SystemStep) (System.start freshStore) ops s ∧
      s.waiting = [] ∧ (∀ w, s.workers w = none) ∧
      (firstRequest.client.Carries 7 (ProtoHeader.decode emptyPackage)
          (emptyPackage.drop sizeofProtoHeader) ∧
        ∃ o, s.HandledAlone firstRequest o) ∧
      secondRequest.client.Carries 9 (ProtoHeader.decode (textPackage 3))
          ((textPackage 3).drop sizeofProtoHeader) ∧
        ∃ o, s.HandledAlone secondRequest o := by
  obtain ⟨ops, s, hrun, hfirst, hsecond, hwaiting, hidle, -⟩ :=
    run_bothServed sparesReaders_firstPackage sparesReaders_secondPackage (fun _ => trivial)
      (fun _ _ => trivial) (fun _ _ _ => trivial) fun _ _ => trivial
  exact ⟨ops, s, hrun, hwaiting, hidle,
    handled_as_if_alone (by decide) (by decide) (by decide) hrun hfirst,
    handled_as_if_alone (by decide) (by decide) (by decide) hrun hsecond⟩

end ThriftProxy
