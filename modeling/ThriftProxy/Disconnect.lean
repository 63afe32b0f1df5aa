import ThriftProxy.WorkerOps

/-!
# Replies and lost clients

`LinkDownCli` takes the requests of a client out of the store but not out of the
queue or the hands of a worker, and the number of its file descriptor is given
to the next client. A reply crosses the loss of its client unless it has been
sent before.
-/

namespace ThriftProxy

open Machine Effect Program Transition

/-- No reply to a package goes to the file descriptor it was received on after
the link has gone down. -/
def NoReplyCrosses (log : List Entry) : Prop :=
  ∀ before fd after, log = before ++ .linkDown fd :: after →
    ∀ r pkg, Entry.accepted r fd pkg ∈ before →
      ∀ owner e, Entry.performed r owner e ∈ after → ∀ bytes len, e.op ≠ .netSendCli fd bytes len

/-- The reply to a request has been handed to `net_send_cli`. -/
def Answered (log : List Entry) (r : Request) : Prop :=
  ∃ owner e, Entry.performed r owner e ∈ log ∧ e.op.isSend = true

/-- The task for a request is waiting or in the hands of a worker. -/
def System.InHand (s : System) (r : Request) : Prop :=
  r ∈ s.waiting ∨ ∃ w j, s.workers w = some j ∧ j.request = r

/-- A link goes down only when every task in hand for a package received on it
has sent its reply. -/
def AnsweredBeforeLinkDown (s : System) : SystemOp → Prop
  | .loop (.linkDownCli fd) => ∀ r, s.InHand r → r.fd = fd → Answered s.log r
  | _ => True

/-! ## Requests whose client has gone -/

/-- The client of a request has gone. -/
def Gone (log : List Entry) (r : Request) : Prop :=
  ∃ before fd after pkg, log = before ++ .linkDown fd :: after ∧ Entry.accepted r fd pkg ∈ before

/-- A link that goes down in a longer history has gone down before or does so now. -/
theorem linkDown_split {log before after : List Entry} {entry : Entry} {fd : Int32}
    (h : log ++ [entry] = before ++ .linkDown fd :: after) :
    (∃ after', after = after' ++ [entry] ∧ log = before ++ .linkDown fd :: after') ∨
      after = [] ∧ entry = .linkDown fd ∧ before = log := by
  rcases List.eq_nil_or_concat' after with rfl | ⟨after', last, rfl⟩
  · obtain ⟨rfl, hlast⟩ := List.append_inj' h rfl
    exact Or.inr ⟨rfl, List.head_eq_of_cons_eq hlast, rfl⟩
  · rw [← List.cons_append, ← List.append_assoc] at h
    obtain ⟨rfl, hlast⟩ := List.append_inj' h rfl
    exact Or.inl ⟨after', by rw [List.head_eq_of_cons_eq hlast], rfl⟩

/-- A client that goes has gone before or goes now. -/
theorem Gone.cases {log : List Entry} {entry : Entry} {r : Request}
    (h : Gone (log ++ [entry]) r) :
    Gone log r ∨ ∃ fd pkg, entry = .linkDown fd ∧ Entry.accepted r fd pkg ∈ log := by
  obtain ⟨before, fd, after, pkg, hlog, hr⟩ := h
  rcases linkDown_split hlog with ⟨after', -, hlog⟩ | ⟨-, hentry, rfl⟩
  · exact Or.inl ⟨before, fd, after', pkg, hlog, hr⟩
  · exact Or.inr ⟨fd, pkg, hentry, hr⟩

/-- A request whose client has gone was accepted. -/
theorem Gone.accepted {log : List Entry} {r : Request} (h : Gone log r) :
    ∃ fd pkg, Entry.accepted r fd pkg ∈ log := by
  obtain ⟨before, fd, after, pkg, rfl, hr⟩ := h
  exact ⟨fd, pkg, List.mem_append_left _ hr⟩

/-- No reply to a request is to be expected. -/
structure System.Silent (s : System) (r : Request) : Prop where
  not_waiting : r ∉ s.waiting
  no_send : ∀ w j, s.workers w = some j → j.request = r →
    j.rest.Avoids (S := HandlerSig) HandlerOp.isSend

namespace System

variable {s s' : System}

/-- A task that has sent its reply sends nothing more. -/
theorem Coherent.avoids_of_answered (h : s.Coherent) {w : ℕ} {j : Job}
    (hj : s.workers w = some j) (hanswered : Answered s.log j.request) :
    j.rest.Avoids (S := HandlerSig) HandlerOp.isSend := by
  obtain ⟨owner, e, hentry, hsend⟩ := hanswered
  have hmem : e ∈ eventsOf j.request.id s.log := mem_eventsOf.mpr ⟨_, owner, hentry, rfl⟩
  have hcount : 0 < (eventsOf j.request.id s.log).countP fun e => e.op.isSend :=
    List.countP_pos_iff.mpr ⟨e, hmem, hsend⟩
  have hrest := ((h.working_history w j hj).atMost runClientInfo_atMost).2
  rw [Nat.sub_eq_zero_of_le hcount] at hrest
  exact hrest.avoids

/-- The replies to requests whose clients have gone. -/
structure Settled (s : System) : Prop where
  coherent : s.Coherent
  crosses : NoReplyCrosses s.log
  silent : ∀ r, Gone s.log r → s.Silent r

/-- Nothing has happened yet. -/
theorem settled_start (st : Store) : (System.start st).Settled where
  coherent := coherent_start st
  crosses := by
    intro before fd after hlog
    simp [System.start] at hlog
  silent := by
    rintro r ⟨before, fd, after, pkg, hlog, -⟩
    simp [System.start] at hlog

/-- An entry that is no reply crosses nothing. -/
theorem crosses_append {log : List Entry} {entry : Entry} (h : NoReplyCrosses log)
    (hentry : ∀ r owner e, entry = .performed r owner e → Gone log r → e.op.isSend = false) :
    NoReplyCrosses (log ++ [entry]) := by
  intro before fd after hlog r pkg hr owner e he bytes len hop
  rcases linkDown_split hlog with ⟨after', rfl, hold⟩ | ⟨rfl, -, -⟩
  · rcases List.mem_append.mp he with he | he
    · exact h before fd after' hold r pkg hr owner e he bytes len hop
    · have hquiet := hentry r owner e (List.mem_singleton.mp he).symm
        ⟨before, fd, after', pkg, hold, hr⟩
      rw [hop] at hquiet
      simp [HandlerOp.isSend] at hquiet
  · simp at he

namespace Settled

variable {op : SystemOp}

/-- A step of the event loop leaves no reply to be expected when it meets the
condition. -/
theorem loop (h : s.Settled) {op : StoreOp} {st' : Store}
    (hop : AnsweredBeforeLinkDown s (.loop op)) (hcoherent : (s.afterLoop st' op).Coherent) :
    (s.afterLoop st' op).Settled := by
  refine ⟨hcoherent, ?_, ?_⟩
  · rcases s.afterLoop_cases st' op with heq | ⟨fd, -, heq⟩ | ⟨fd, pkg, _, _, _, item, -, -, heq⟩
    · rw [heq]
      exact h.crosses
    · rw [heq]
      exact crosses_append h.crosses (by simp)
    · rw [heq]
      exact crosses_append h.crosses (by simp)
  · intro r hgone
    rcases s.afterLoop_cases st' op with heq | ⟨fd, rfl, heq⟩ |
      ⟨fd, pkg, _, procTime, now, item, -, -, heq⟩
    · rw [heq] at hgone ⊢
      exact ⟨(h.silent r hgone).not_waiting, (h.silent r hgone).no_send⟩
    · rw [heq] at hgone ⊢
      rcases hgone.cases with hgone | ⟨fd', pkg, hentry, hr⟩
      · exact ⟨(h.silent r hgone).not_waiting, (h.silent r hgone).no_send⟩
      · -- the client of `r` goes now, so its reply has been sent
        obtain rfl : fd = fd' := by simpa using hentry
        have hfd := (h.coherent.accepted_client r fd pkg hr).1
        constructor
        · intro hwaiting
          obtain ⟨owner, e, hentry, -⟩ := hop r (Or.inl hwaiting) hfd
          have hnew := h.coherent.waiting_new r hwaiting
          rw [List.eq_nil_iff_forall_not_mem] at hnew
          exact hnew e (mem_eventsOf.mpr ⟨r, owner, hentry, rfl⟩)
        · rintro w j hj rfl
          exact h.coherent.avoids_of_answered hj (hop _ (Or.inr ⟨w, j, hj, rfl⟩) hfd)
    · rw [heq] at hgone ⊢
      have hold : Gone s.log r := by
        rcases hgone.cases with hgone | ⟨_, _, hentry, -⟩
        · exact hgone
        · simp at hentry
      obtain ⟨fd', pkg', hr⟩ := hold.accepted
      refine ⟨?_, (h.silent r hold).no_send⟩
      intro hwaiting
      rcases List.mem_append.mp hwaiting with hqueue | hnew
      · exact (h.silent r hold).not_waiting (List.mem_append_left _ hqueue)
      · have heq : r = s.store.newRequest item fd pkg procTime now := by simpa using hnew
        have hid : r.id = s.store.accepted := by
          rw [heq]
          rfl
        have := h.coherent.accepted_lt r fd' pkg' hr
        omega

/-- A task that is taken is none of a client that has gone. -/
theorem take (h : s.Settled) {w : ℕ} {r : Request} {queue : List Request}
    (hfront : s.queue = r :: queue) : Settled { s with
      queue := queue
      workers := Function.update s.workers w (some ⟨r, runClientInfo⟩) } := by
  refine ⟨h.coherent.take w hfront, h.crosses, ?_⟩
  intro q hgone
  have hq := (h.silent q hgone).not_waiting
  rw [waiting, hfront, List.cons_append] at hq
  constructor
  · exact fun hmem => hq (List.mem_cons_of_mem r hmem)
  · intro w' j hj hjq
    rcases worker_of_update hj with ⟨-, rfl⟩ | ⟨-, hj⟩
    · exact absurd (by simp [← hjq]) hq
    · exact (h.silent q hgone).no_send w' j hj hjq

/-- A worker sends no reply to a client that has gone. -/
theorem work (h : s.Settled) {w : ℕ} {r : Request} {op : HandlerOp}
    {next : op.Answer → Program HandlerSig Unit} {answer : op.Answer} {owner : Option ℕ}
    (hbusy : s.workers w = some ⟨r, perform (S := HandlerSig) op next⟩) : Settled { s with
      workers := Function.update s.workers w (some ⟨r, next answer⟩)
      log := s.log ++ [.performed r owner ⟨op, answer⟩] } := by
  refine ⟨h.coherent.work hbusy, ?_, ?_⟩
  · refine crosses_append h.crosses ?_
    intro q owner' e hentry hgone
    obtain ⟨rfl, -, rfl⟩ : r = q ∧ owner = owner' ∧ ⟨op, answer⟩ = e := by simpa using hentry
    have hquiet := (h.silent r hgone).no_send w _ hbusy rfl
    exact ((avoids_perform _ _ _).mp hquiet).1
  · intro q hgone
    have hold : Gone s.log q := by
      rcases hgone.cases with hgone | ⟨_, _, hentry, -⟩
      · exact hgone
      · simp at hentry
    refine ⟨(h.silent q hold).not_waiting, ?_⟩
    intro w' j hj hjq
    rcases worker_of_update hj with ⟨-, rfl⟩ | ⟨-, hj⟩
    · have hquiet := (h.silent q hold).no_send w _ hbusy hjq
      exact ((avoids_perform _ _ _).mp hquiet).2 answer
    · exact (h.silent q hold).no_send w' j hj hjq

/-- Every step that meets the condition leaves no reply to be expected. -/
theorem step (h : s.Settled) {op : SystemOp} (hop : AnsweredBeforeLinkDown s op)
    (hstep : SystemStep s op s') : s'.Settled := by
  have hcoherent := h.coherent.step hstep
  cases hstep with
  | loop idle fresh step => exact h.loop hop hcoherent
  | @put r pending room =>
    have hwaiting : waiting { s with pending := none, queue := s.queue ++ [r] } = s.waiting := by
      simp [waiting, pending]
    refine ⟨hcoherent, h.crosses, fun q hgone => ⟨?_, (h.silent q hgone).no_send⟩⟩
    rw [hwaiting]
    exact (h.silent q hgone).not_waiting
  | take idle front => exact h.take front
  | work busy read => exact h.work busy
  | finish done =>
    refine ⟨hcoherent, h.crosses, fun q hgone => ⟨(h.silent q hgone).not_waiting, ?_⟩⟩
    intro w' j hj
    exact (h.silent q hgone).no_send w' j (worker_of_update_none hj)

end Settled

end System

/-- **Replies and lost clients.** In every run in which links go down only when
the tasks of their clients have sent their replies, no reply crosses the loss of
its client. -/
theorem noReplyCrosses_of_answered {st : Store} {ops : List SystemOp} {s : System}
    (hrun : Run (Guarded AnsweredBeforeLinkDown SystemStep) (System.start st) ops s) :
    NoReplyCrosses s.log :=
  (hrun.invariant (fun _ _ _ h hstep => h.step hstep.1 hstep.2) (System.settled_start st)).crosses

/-! ## A reply that crosses -/

/-- The store when the client of the first request has gone. -/
def abandoned : Store := (linkDownCli 2 7 taken.store).getD taken.store

/-- The second package, from the next client on the same file descriptor, gets
the item that the first task still points to. -/
def reused : PkgOutcome := procPkgCli abandoned 7 emptyPackage none ⟨101, 0⟩ 101

/-- The proxy when the second package has been accepted. -/
def reassigned : System :=
  { taken with
    store := reused.store
    pending := some (abandoned.newRequest 4104 7 emptyPackage ⟨101, 0⟩ 101)
    log := [.accepted firstRequest 7 emptyPackage, .linkDown 7,
      .accepted (abandoned.newRequest 4104 7 emptyPackage ⟨101, 0⟩ 101) 7 emptyPackage] }

/-- The first client goes, and the next one gets its file descriptor and its item. -/
theorem run_reassigned : Run (Guarded (fun _ _ => True) SystemStep) taken
    [.loop (.linkDownCli 7), .loop (.procPkgCli 7 emptyPackage none ⟨101, 0⟩ 101)] reassigned := by
  have hdown : linkDownCli 2 7 taken.store = some abandoned := rfl
  have hfresh : (StoreOp.procPkgCli 7 emptyPackage none ⟨101, 0⟩ 101).MallocFresh abandoned := by
    simp [StoreOp.MallocFresh]
  refine Run.cons ⟨trivial, SystemStep.loop rfl trivial ⟨2, hdown⟩⟩ ?_
  exact Run.cons ⟨trivial, SystemStep.loop rfl hfresh rfl⟩ (Run.nil _)

/-- The worker sends its reply to the first package to the next client. -/
theorem exists_reply_crosses : ∃ ops s, Run SystemStep (System.start freshStore) ops s ∧
    ¬ NoReplyCrosses s.log := by
  have htask : reused.task = some 4104 := by decide
  have hclient := client_of_task htask
  have hfd : (reassigned.store.client 4104).cliFd = 7 := by
    rw [show reassigned.store.client 4104 = _ from hclient]
    rfl
  have hfunc : (reassigned.store.client 4104).callBackFunc = .defaultProtoHandler := by
    rw [show reassigned.store.client 4104 = _ from hclient]
    rfl
  have htaken := run_taken (P := fun _ _ => True) trivial (fun _ => trivial) fun _ => trivial
  have hwork :=
    System.run_work (P := fun _ _ => True) (fun _ _ _ => trivial) [] ⟨none, none, none, true⟩
    (show reassigned.workers 0 = some ⟨firstRequest, runClientInfo⟩ from rfl)
  refine ⟨_, _, ((htaken.append run_reassigned).append hwork).unguard, fun h => ?_⟩
  obtain ⟨bytes, len, hmem⟩ := netSendCli_mem_trace [] ⟨none, none, none, true⟩ hfunc
  rw [hfd] at hmem
  exact h [.accepted firstRequest 7 emptyPackage] 7 _ rfl firstRequest emptyPackage (by simp) _ _
    (List.mem_cons_of_mem _ (List.mem_map_of_mem hmem)) bytes len rfl

/-- A reply that is sent before the client goes. -/
theorem noReplyCrosses_of_answered_first : ∃ ops s,
    Run (Guarded AnsweredBeforeLinkDown SystemStep) (System.start freshStore) ops s ∧
      Entry.linkDown 7 ∈ s.log ∧ NoReplyCrosses s.log := by
  obtain ⟨ops, hanswered⟩ := run_answered (P := AnsweredBeforeLinkDown) trivial (fun _ => trivial)
    (fun _ => trivial) fun _ _ _ => trivial
  have hguard : AnsweredBeforeLinkDown answered (.loop (.linkDownCli 7)) := by
    intro r hr _
    rcases hr with hr | ⟨w, j, hj, rfl⟩
    · simp [System.waiting, answered, taken] at hr
    · obtain ⟨fd, bytes, len, hmem⟩ := netSendCli_mem_firstEvents
      rw [eq_of_answered_workers hj]
      exact ⟨_, _, List.mem_append_right _ (List.mem_map_of_mem hmem), rfl⟩
  have hdown : linkDownCli 2 7 answered.store = some abandoned := rfl
  have hrun := hanswered.snoc ⟨hguard, SystemStep.loop rfl trivial ⟨2, hdown⟩⟩
  exact ⟨_, _, hrun, by simp [System.afterLoop], noReplyCrosses_of_answered hrun⟩

end ThriftProxy
