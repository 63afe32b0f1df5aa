import ThriftProxy.Refinement
import ThriftProxy.Handler

/-!
# The event loop and the worker threads

The whole proxy as a transition system: the event loop works on the store and
puts accepted requests into the queue of `ThreadPool`, and any number of worker
threads take them from there and run their handlers, one operation at a time,
on the items in memory. The queue holds addresses; the request that a task was
queued for is known to the model only, and so is the history.
-/

namespace ThriftProxy

open Machine Effect Program Transition

/-! ## The state -/

/-- `max_queue_size_`. -/
def maxQueueSize : ℕ := 20

/-- A task in the hands of a worker thread. -/
structure Job where
  /-- The request it was queued for; the thread has the address of its item. -/
  request : Request
  /-- What is left of `ClientInfo::run`. -/
  rest : Program HandlerSig Unit

/-- An entry in the history of the proxy. -/
inductive Entry
  /-- `ProcPkgCli` has accepted a package. -/
  | accepted (r : Request) (fd : Int32) (pkg : List UInt8)
  /-- `LinkDownCli` has returned. -/
  | linkDown (fd : Int32)
  /-- A worker has performed an operation for a request, at a time when the
  item of the request was allocated as given. -/
  | performed (r : Request) (owner : Option ℕ) (e : Event HandlerSig)

/-- The state of the proxy. -/
structure System where
  /-- The store of the event loop, with the memory that all threads share. -/
  store : Store
  /-- The task that `put` has still to append to the queue. -/
  pending : Option Request
  /-- `queue_`. -/
  queue : List Request
  /-- The threads of `thread_group_`. -/
  workers : ℕ → Option Job
  /-- The history. -/
  log : List Entry

/-- The proxy when the threads have been started. -/
def System.start (st : Store) : System :=
  { store := st, pending := none, queue := [], workers := fun _ => none, log := [] }

/-! ## Steps -/

/-- The steps of the event loop and of the workers. -/
inductive SystemOp
  /-- A step of the event loop, up to the call of `put`. -/
  | loop (op : StoreOp)
  /-- `ThreadPool::put` appends a task to the queue. -/
  | put
  /-- `ThreadPool::take` gives a task to a worker. -/
  | take (w : ℕ)
  /-- A worker performs an operation. -/
  | work (w : ℕ) (e : Event HandlerSig)
  /-- A worker returns from `run`. -/
  | finish (w : ℕ)

/-- A read gets what is in memory, with anything behind the buffer; whatever else
an operation returns is up to the other parties. -/
def ReadFrom (ci : ClientInfo) : Event HandlerSig → Prop
  | ⟨.read f, v⟩ => ∃ behind, v = f.get ci behind
  | _ => True

/-- What a step of the event loop leaves behind besides the store. -/
def System.afterLoop (s : System) (st' : Store) : StoreOp → System
  | .procPkgCli fd pkg malloc procTime now =>
    match (procPkgCli s.store fd pkg malloc procTime now).task with
    | none => { s with store := st' }
    | some item =>
      let r := s.store.newRequest item fd pkg procTime now
      { s with store := st', pending := some r, log := s.log ++ [.accepted r fd pkg] }
  | .timeEvent _ => { s with store := st' }
  | .linkDownCli fd => { s with store := st', log := s.log ++ [.linkDown fd] }

/-- A step of the event loop changes the store only, or also records the loss of
a client, or has a new task for the workers. -/
theorem System.afterLoop_cases (s : System) (st' : Store) (op : StoreOp) :
    s.afterLoop st' op = { s with store := st' } ∨
    (∃ fd, op = .linkDownCli fd ∧
      s.afterLoop st' op = { s with store := st', log := s.log ++ [.linkDown fd] }) ∨
    ∃ fd pkg malloc procTime now item, op = .procPkgCli fd pkg malloc procTime now ∧
      (procPkgCli s.store fd pkg malloc procTime now).task = some item ∧
      s.afterLoop st' op = { s with
        store := st'
        pending := some (s.store.newRequest item fd pkg procTime now)
        log := s.log ++ [.accepted (s.store.newRequest item fd pkg procTime now) fd pkg] } := by
  cases op with
  | procPkgCli fd pkg malloc procTime now =>
    cases htask : (procPkgCli s.store fd pkg malloc procTime now).task with
    | none => exact Or.inl (by simp only [System.afterLoop, htask])
    | some item =>
      refine Or.inr (Or.inr ⟨fd, pkg, malloc, procTime, now, item, rfl, htask, ?_⟩)
      simp only [System.afterLoop, htask]
  | timeEvent now => exact Or.inl rfl
  | linkDownCli fd => exact Or.inr (Or.inl ⟨fd, rfl, rfl⟩)

/-- The step from one state to the next. -/
inductive SystemStep : System → SystemOp → System → Prop
  /-- The event loop is not held up by `put`, and `malloc` returns no block in use. -/
  | loop {s : System} {op : StoreOp} {st' : Store} (idle : s.pending = none)
      (fresh : op.MallocFresh s.store) (step : StoreStep s.store op st') :
      SystemStep s (.loop op) (s.afterLoop st' op)
  /-- `put` waits while the queue is full. -/
  | put {s : System} {r : Request} (pending : s.pending = some r)
      (room : s.queue.length ≠ maxQueueSize) :
      SystemStep s .put { s with pending := none, queue := s.queue ++ [r] }
  /-- `take` gives the first task to a worker without one. -/
  | take {s : System} {w : ℕ} {r : Request} {queue : List Request} (idle : s.workers w = none)
      (front : s.queue = r :: queue) :
      SystemStep s (.take w)
        { s with
          queue := queue
          workers := Function.update s.workers w (some ⟨r, runClientInfo⟩) }
  /-- The next operation of a handler. -/
  | work {s : System} {w : ℕ} {r : Request} {op : HandlerOp}
      {next : op.Answer → Program HandlerSig Unit} {answer : op.Answer}
      (busy : s.workers w = some ⟨r, perform (S := HandlerSig) op next⟩)
      (read : ReadFrom (s.store.client r.item) ⟨op, answer⟩) :
      SystemStep s (.work w ⟨op, answer⟩)
        { s with
          workers := Function.update s.workers w (some ⟨r, next answer⟩)
          log := s.log ++ [.performed r (s.store.owner r.item) ⟨op, answer⟩] }
  /-- The handler has returned. -/
  | finish {s : System} {w : ℕ} {r : Request} (done : s.workers w = some ⟨r, ret ()⟩) :
      SystemStep s (.finish w) { s with workers := Function.update s.workers w none }

/-! ## History -/

/-- The event that an entry records for a request. -/
def Entry.eventFor (id : ℕ) : Entry → Option (Event HandlerSig)
  | performed r _ e => if r.id = id then some e else none
  | _ => none

/-- The events recorded for a request. -/
def eventsOf (id : ℕ) (log : List Entry) : List (Event HandlerSig) :=
  log.filterMap (Entry.eventFor id)

/-- In the beginning nothing has been done for a request. -/
@[simp] theorem eventsOf_nil (id : ℕ) : eventsOf id [] = [] := rfl

/-- The acceptance of a package is no event of a handler. -/
@[simp] theorem eventsOf_append_accepted (id : ℕ) (log : List Entry) (r : Request) (fd : Int32)
    (pkg : List UInt8) : eventsOf id (log ++ [.accepted r fd pkg]) = eventsOf id log := by
  simp [eventsOf, Entry.eventFor]

/-- The loss of a client is no event of a handler. -/
@[simp] theorem eventsOf_append_linkDown (id : ℕ) (log : List Entry) (fd : Int32) :
    eventsOf id (log ++ [.linkDown fd]) = eventsOf id log := by
  simp [eventsOf, Entry.eventFor]

/-- An operation is an event of its own request. -/
@[simp] theorem eventsOf_append_performed (id : ℕ) (log : List Entry) (r : Request)
    (owner : Option ℕ) (e : Event HandlerSig) :
    eventsOf id (log ++ [.performed r owner e]) =
      if r.id = id then eventsOf id log ++ [e] else eventsOf id log := by
  by_cases h : r.id = id <;> simp [eventsOf, Entry.eventFor, h]

/-- The events of a request are recorded for it. -/
theorem mem_eventsOf {id : ℕ} {log : List Entry} {e : Event HandlerSig} :
    e ∈ eventsOf id log ↔ ∃ r owner, Entry.performed r owner e ∈ log ∧ r.id = id := by
  unfold eventsOf
  rw [List.mem_filterMap]
  constructor
  · rintro ⟨entry, hentry, heq⟩
    cases entry with
    | performed r owner e' =>
      by_cases hid : r.id = id
      · obtain rfl : e' = e := by simpa [Entry.eventFor, hid] using heq
        exact ⟨r, owner, hentry, hid⟩
      · simp [Entry.eventFor, hid] at heq
    | accepted r fd pkg => simp [Entry.eventFor] at heq
    | linkDown fd => simp [Entry.eventFor] at heq
  · rintro ⟨r, owner, hentry, hid⟩
    exact ⟨_, hentry, by simp [Entry.eventFor, hid]⟩

/-- A worker after one of them has got something to do. -/
theorem worker_of_update {workers : ℕ → Option Job} {w w' : ℕ} {job j : Job}
    (h : Function.update workers w (some job) w' = some j) :
    w' = w ∧ j = job ∨ w' ≠ w ∧ workers w' = some j := by
  by_cases hw : w' = w
  · rw [hw, Function.update_self, Option.some.injEq] at h
    exact Or.inl ⟨hw, h.symm⟩
  · rw [Function.update_of_ne hw] at h
    exact Or.inr ⟨hw, h⟩

/-- A worker after one of them has returned. -/
theorem worker_of_update_none {workers : ℕ → Option Job} {w w' : ℕ} {j : Job}
    (h : Function.update workers w none w' = some j) : workers w' = some j := by
  by_cases hw : w' = w
  · rw [hw, Function.update_self] at h
    simp at h
  · rwa [Function.update_of_ne hw] at h

namespace System

/-- The requests whose tasks no worker has taken yet, in the order of the queue. -/
def waiting (s : System) : List Request := s.queue ++ s.pending.toList

/-- What holds of every state: each request accepted is with one task, which is
waiting, with one worker, or done, and the events recorded for it are those of
one execution of `ClientInfo::run`. -/
structure Coherent (s : System) : Prop where
  accepted_lt : ∀ r fd pkg, Entry.accepted r fd pkg ∈ s.log → r.id < s.store.accepted
  accepted_unique : ∀ r fd pkg r' fd' pkg', Entry.accepted r fd pkg ∈ s.log →
    Entry.accepted r' fd' pkg' ∈ s.log → r.id = r'.id → r = r' ∧ fd = fd' ∧ pkg = pkg'
  /-- The `ClientInfo` of a request is filled in from its package. -/
  accepted_client : ∀ r fd pkg, Entry.accepted r fd pkg ∈ s.log → r.fd = fd ∧
    (sizeofProtoHeader ≤ pkg.length →
      r.client.Carries fd (ProtoHeader.decode pkg) (pkg.drop sizeofProtoHeader))
  performed_accepted : ∀ r owner e, Entry.performed r owner e ∈ s.log →
    ∃ fd pkg, Entry.accepted r fd pkg ∈ s.log
  waiting_accepted : ∀ r ∈ s.waiting, ∃ fd pkg, Entry.accepted r fd pkg ∈ s.log
  waiting_nodup : (s.waiting.map Request.id).Nodup
  waiting_new : ∀ r ∈ s.waiting, eventsOf r.id s.log = []
  waiting_idle : ∀ r ∈ s.waiting, ∀ w j, s.workers w = some j → j.request.id ≠ r.id
  working_accepted : ∀ w j, s.workers w = some j →
    ∃ fd pkg, Entry.accepted j.request fd pkg ∈ s.log
  working_unique : ∀ w w' j j', s.workers w = some j → s.workers w' = some j' →
    j.request.id = j'.request.id → w = w'
  working_history : ∀ w j, s.workers w = some j →
    Exec runClientInfo (eventsOf j.request.id s.log) j.rest
  history : ∀ id, ∃ rest, Exec runClientInfo (eventsOf id s.log) rest

/-- No request is accepted yet when the threads are started. -/
theorem coherent_start (st : Store) : (System.start st).Coherent := by
  constructor
  case history => exact fun id => ⟨_, Exec.refl _⟩
  all_goals simp [System.start, waiting]

namespace Coherent

variable {s : System} {st' : Store}

/-- A step of the event loop that accepts nothing keeps the history in order. -/
theorem quiet (h : s.Coherent) (hle : s.store.accepted ≤ st'.accepted) {log : List Entry}
    (hlog : log = s.log ∨ ∃ fd, log = s.log ++ [.linkDown fd]) :
    Coherent { s with store := st', log := log } := by
  have hevents : ∀ id, eventsOf id log = eventsOf id s.log := by
    intro id
    rcases hlog with rfl | ⟨fd, rfl⟩
    · rfl
    · simp
  have haccepted : ∀ r fd pkg, Entry.accepted r fd pkg ∈ log ↔ Entry.accepted r fd pkg ∈ s.log := by
    intro r fd pkg
    rcases hlog with rfl | ⟨fd', rfl⟩ <;> simp
  have hperformed : ∀ r owner e, Entry.performed r owner e ∈ log ↔
      Entry.performed r owner e ∈ s.log := by
    intro r owner e
    rcases hlog with rfl | ⟨fd', rfl⟩ <;> simp
  have hwaiting : waiting { s with store := st', log := log } = s.waiting := rfl
  constructor <;> simp only [hevents, haccepted, hperformed, hwaiting]
  case accepted_lt => exact fun r fd pkg hr => (h.accepted_lt r fd pkg hr).trans_le hle
  case accepted_unique => exact h.accepted_unique
  case accepted_client => exact h.accepted_client
  case performed_accepted => exact h.performed_accepted
  case waiting_accepted => exact h.waiting_accepted
  case waiting_nodup => exact h.waiting_nodup
  case waiting_new => exact h.waiting_new
  case waiting_idle => exact h.waiting_idle
  case working_accepted => exact h.working_accepted
  case working_unique => exact h.working_unique
  case working_history => exact h.working_history
  case history => exact h.history

/-- The requests accepted so far have smaller numbers than the next one. -/
theorem id_lt (h : s.Coherent) {r : Request} (hr : ∃ fd pkg, Entry.accepted r fd pkg ∈ s.log) :
    r.id < s.store.accepted := by
  obtain ⟨fd, pkg, hr⟩ := hr
  exact h.accepted_lt r fd pkg hr

/-- Nothing is recorded for requests to come. -/
theorem eventsOf_eq_nil (h : s.Coherent) {id : ℕ} (hid : s.store.accepted ≤ id) :
    eventsOf id s.log = [] := by
  rw [List.eq_nil_iff_forall_not_mem]
  intro e he
  obtain ⟨r, owner, hentry, rfl⟩ := mem_eventsOf.mp he
  have hlt := h.id_lt (h.performed_accepted r owner e hentry)
  omega

/-- The packages accepted before and the next one. -/
theorem mem_append_accepted {log : List Entry} {r q : Request} {fd fd' : Int32}
    {pkg pkg' : List UInt8} :
    Entry.accepted q fd' pkg' ∈ log ++ [.accepted r fd pkg] ↔
      Entry.accepted q fd' pkg' ∈ log ∨ q = r ∧ fd' = fd ∧ pkg' = pkg := by
  simp

/-- A number stays with one package when the next one is accepted. -/
theorem unique_append (h : s.Coherent) {r q q' : Request} {fd fd₁ fd₂ : Int32}
    {pkg pkg₁ pkg₂ : List UInt8} (hid : r.id = s.store.accepted)
    (hq : Entry.accepted q fd₁ pkg₁ ∈ s.log ++ [.accepted r fd pkg])
    (hq' : Entry.accepted q' fd₂ pkg₂ ∈ s.log ++ [.accepted r fd pkg])
    (heq : q.id = q'.id) : q = q' ∧ fd₁ = fd₂ ∧ pkg₁ = pkg₂ := by
  rcases mem_append_accepted.mp hq with hqold | ⟨hqr, hfd, hpkg⟩
  · rcases mem_append_accepted.mp hq' with hqold' | ⟨hqr', -, -⟩
    · exact h.accepted_unique q fd₁ pkg₁ q' fd₂ pkg₂ hqold hqold' heq
    · have hlt := h.id_lt ⟨_, _, hqold⟩
      rw [heq, hqr', hid] at hlt
      exact absurd hlt (lt_irrefl _)
  · rcases mem_append_accepted.mp hq' with hqold' | ⟨hqr', hfd', hpkg'⟩
    · have hlt := h.id_lt ⟨_, _, hqold'⟩
      rw [← heq, hqr, hid] at hlt
      exact absurd hlt (lt_irrefl _)
    · exact ⟨hqr.trans hqr'.symm, hfd.trans hfd'.symm, hpkg.trans hpkg'.symm⟩

/-- An accepted package starts a new task. -/
theorem accept (h : s.Coherent) (hidle : s.pending = none) {r : Request} {fd : Int32}
    {pkg : List UInt8} (hid : r.id = s.store.accepted)
    (hcount : st'.accepted = s.store.accepted + 1)
    (hclient : r.fd = fd ∧ (sizeofProtoHeader ≤ pkg.length →
      r.client.Carries fd (ProtoHeader.decode pkg) (pkg.drop sizeofProtoHeader))) :
    Coherent { s with
      store := st', pending := some r, log := s.log ++ [.accepted r fd pkg] } := by
  have hold : ∀ q : Request, (∃ fd pkg, Entry.accepted q fd pkg ∈ s.log) → q.id < r.id := by
    intro q hq
    rw [hid]
    exact h.id_lt hq
  have hnew : eventsOf r.id s.log = [] := h.eventsOf_eq_nil hid.ge
  have hwaiting : waiting { s with
      store := st', pending := some r, log := s.log ++ [.accepted r fd pkg] } =
        s.waiting ++ [r] := by
    simp [waiting, hidle]
  have hkept : ∀ {q : Request}, (∃ fd pkg, Entry.accepted q fd pkg ∈ s.log) →
      ∃ fd' pkg', Entry.accepted q fd' pkg' ∈ s.log ++ [.accepted r fd pkg] := by
    rintro q ⟨fd', pkg', hq⟩
    exact ⟨fd', pkg', List.mem_append_left _ hq⟩
  constructor
  case accepted_lt =>
    intro q fd' pkg' hq
    show q.id < st'.accepted
    rcases mem_append_accepted.mp hq with hq | ⟨rfl, -, -⟩
    · have := h.accepted_lt q fd' pkg' hq
      omega
    · omega
  case accepted_unique =>
    exact fun q fd₁ pkg₁ q' fd₂ pkg₂ hq hq' heq => h.unique_append hid hq hq' heq
  case accepted_client =>
    intro q fd' pkg' hq
    rcases mem_append_accepted.mp hq with hq | ⟨rfl, rfl, rfl⟩
    · exact h.accepted_client q fd' pkg' hq
    · exact hclient
  case performed_accepted =>
    intro q owner e hq
    exact hkept (h.performed_accepted q owner e (by simpa using hq))
  case waiting_accepted =>
    rw [hwaiting]
    intro q hq
    rcases List.mem_append.mp hq with hq | hq
    · exact hkept (h.waiting_accepted q hq)
    · exact ⟨fd, pkg, by simp [List.mem_singleton.mp hq]⟩
  case waiting_nodup =>
    rw [hwaiting, List.map_append, List.nodup_append]
    refine ⟨h.waiting_nodup, List.nodup_singleton _, ?_⟩
    intro id hid' id' hr
    obtain ⟨q, hq, rfl⟩ := List.mem_map.mp hid'
    rw [List.mem_singleton.mp hr]
    exact (hold q (h.waiting_accepted q hq)).ne
  case waiting_new =>
    rw [hwaiting]
    intro q hq
    simp only [eventsOf_append_accepted]
    rcases List.mem_append.mp hq with hq | hq
    · exact h.waiting_new q hq
    · rw [List.mem_singleton.mp hq, hnew]
  case waiting_idle =>
    rw [hwaiting]
    intro q hq w j hj
    rcases List.mem_append.mp hq with hq | hq
    · exact h.waiting_idle q hq w j hj
    · rw [List.mem_singleton.mp hq]
      exact (hold j.request (h.working_accepted w j hj)).ne
  case working_accepted => exact fun w j hj => hkept (h.working_accepted w j hj)
  case working_unique => exact h.working_unique
  case working_history =>
    intro w j hj
    simpa using h.working_history w j hj
  case history =>
    intro id
    simpa using h.history id

/-- A package that is refused leaves the state alone, and any other starts a task. -/
theorem receive (h : s.Coherent) (hidle : s.pending = none) (fd : Int32) (pkg : List UInt8)
    (malloc : Option ℕ) (procTime : Timeval) (now : ℤ) :
    Coherent (s.afterLoop (procPkgCli s.store fd pkg malloc procTime now).store
      (.procPkgCli fd pkg malloc procTime now)) := by
  by_cases hrefused : 8192 < pkg.length ∨ s.store.pool.Exhausted malloc
  · obtain ⟨hstore, htask⟩ :=
      procPkgCli_refused fd procTime now hrefused
    rw [afterLoop, htask, hstore]
    exact h.quiet (le_refl _) (Or.inl rfl)
  · rw [not_or, not_lt] at hrefused
    obtain ⟨pool, words, ci, -, hproc⟩ :=
      procPkgCli_accepted fd procTime now hrefused.1 hrefused.2
    have htask : (procPkgCli s.store fd pkg malloc procTime now).task = some ci := by rw [hproc]
    have hcount := (procPkgCli_counters fd procTime now
      hrefused.1 hrefused.2).1
    rw [afterLoop, htask]
    refine h.accept hidle rfl hcount ⟨rfl, fun hheader => ?_⟩
    rw [← client_of_task htask]
    exact carries_of_task hheader htask

/-- Workers serve different requests when a worker gets one that no other worker has. -/
theorem unique_update (h : s.Coherent) {w : ℕ} {job : Job}
    (hnew : ∀ w' j, s.workers w' = some j → j.request.id = job.request.id → w' = w)
    {w₁ w₂ : ℕ} {j₁ j₂ : Job} (hj₁ : Function.update s.workers w (some job) w₁ = some j₁)
    (hj₂ : Function.update s.workers w (some job) w₂ = some j₂)
    (heq : j₁.request.id = j₂.request.id) : w₁ = w₂ := by
  rcases worker_of_update hj₁ with ⟨hw₁, rfl⟩ | ⟨-, hold₁⟩
  · rcases worker_of_update hj₂ with ⟨hw₂, -⟩ | ⟨-, hold₂⟩
    · exact hw₁.trans hw₂.symm
    · exact hw₁.trans (hnew w₂ j₂ hold₂ heq.symm).symm
  · rcases worker_of_update hj₂ with ⟨hw₂, rfl⟩ | ⟨-, hold₂⟩
    · exact (hnew w₁ j₁ hold₁ heq).trans hw₂.symm
    · exact h.working_unique w₁ w₂ j₁ j₂ hold₁ hold₂ heq

/-- Taking a task moves it from the queue to a worker. -/
theorem take (h : s.Coherent) (w : ℕ) {r : Request} {queue : List Request}
    (hfront : s.queue = r :: queue) :
    Coherent { s with
      queue := queue
      workers := Function.update s.workers w (some ⟨r, runClientInfo⟩) } := by
  have hwaiting : s.waiting = r :: (queue ++ s.pending.toList) := by
    rw [waiting, hfront, List.cons_append]
  have hr : r ∈ s.waiting := by simp [hwaiting]
  have hrest : ∀ q ∈ queue ++ s.pending.toList, q ∈ s.waiting := by
    intro q hq
    rw [hwaiting]
    exact List.mem_cons_of_mem r hq
  have hnodup := h.waiting_nodup
  rw [hwaiting, List.map_cons, List.nodup_cons] at hnodup
  exact
    { h with
      waiting_accepted := fun q hq => h.waiting_accepted q (hrest q hq)
      waiting_nodup := hnodup.2
      waiting_new := fun q hq => h.waiting_new q (hrest q hq)
      waiting_idle := by
        intro q hq w' j hj
        rcases worker_of_update hj with ⟨-, rfl⟩ | ⟨-, hj⟩
        · intro heq
          exact hnodup.1 (List.mem_map.mpr ⟨q, hq, heq.symm⟩)
        · exact h.waiting_idle q (hrest q hq) w' j hj
      working_accepted := by
        intro w' j hj
        rcases worker_of_update hj with ⟨-, rfl⟩ | ⟨-, hj⟩
        · exact h.waiting_accepted r hr
        · exact h.working_accepted w' j hj
      working_unique := by
        intro w₁ w₂ j₁ j₂ hj₁ hj₂ heq
        refine h.unique_update ?_ hj₁ hj₂ heq
        intro w' j hj hsame
        exact absurd hsame (h.waiting_idle r hr w' j hj)
      working_history := by
        intro w' j hj
        rcases worker_of_update hj with ⟨-, rfl⟩ | ⟨-, hj⟩
        · show Exec runClientInfo (eventsOf r.id s.log) runClientInfo
          rw [h.waiting_new r hr]
          exact Exec.refl _
        · exact h.working_history w' j hj }

/-- An operation is added to the history of its request. -/
theorem work (h : s.Coherent) {w : ℕ} {r : Request} {op : HandlerOp}
    {next : op.Answer → Program HandlerSig Unit} {answer : op.Answer} {owner : Option ℕ}
    (hbusy : s.workers w = some ⟨r, perform (S := HandlerSig) op next⟩) :
    Coherent { s with
      workers := Function.update s.workers w (some ⟨r, next answer⟩)
      log := s.log ++ [.performed r owner ⟨op, answer⟩] } := by
  have hrun := (h.working_history w _ hbusy).snoc answer
  have hr := h.working_accepted w _ hbusy
  have haccepted : ∀ {q fd pkg},
      Entry.accepted q fd pkg ∈ s.log ++ [.performed r owner ⟨op, answer⟩] ↔
        Entry.accepted q fd pkg ∈ s.log := by
    simp
  have hother : ∀ {id}, id ≠ r.id →
      eventsOf id (s.log ++ [.performed r owner ⟨op, answer⟩]) = eventsOf id s.log := by
    intro id hid
    rw [eventsOf_append_performed, if_neg hid.symm]
  exact
    { h with
      accepted_lt := fun q fd pkg hq => h.accepted_lt q fd pkg (haccepted.mp hq)
      accepted_unique := fun q fd pkg q' fd' pkg' hq hq' =>
        h.accepted_unique q fd pkg q' fd' pkg' (haccepted.mp hq) (haccepted.mp hq')
      accepted_client := fun q fd pkg hq => h.accepted_client q fd pkg (haccepted.mp hq)
      performed_accepted := by
        intro q owner' e hq
        simp only [haccepted]
        rcases List.mem_append.mp hq with hq | hq
        · exact h.performed_accepted q owner' e hq
        · obtain ⟨rfl, -, -⟩ : q = r ∧ _ := by simpa using hq
          exact hr
      waiting_accepted := by
        simp only [haccepted]
        exact h.waiting_accepted
      waiting_new := by
        intro q hq
        rw [hother (h.waiting_idle q hq w _ hbusy).symm]
        exact h.waiting_new q hq
      waiting_idle := by
        intro q hq w' j hj
        rcases worker_of_update hj with ⟨-, rfl⟩ | ⟨-, hj⟩
        · have hne := h.waiting_idle q hq w _ hbusy
          exact hne
        · exact h.waiting_idle q hq w' j hj
      working_accepted := by
        intro w' j hj
        simp only [haccepted]
        rcases worker_of_update hj with ⟨-, rfl⟩ | ⟨-, hj⟩
        · exact hr
        · exact h.working_accepted w' j hj
      working_unique := by
        intro w₁ w₂ j₁ j₂ hj₁ hj₂ heq
        refine h.unique_update ?_ hj₁ hj₂ heq
        intro w' j hj hsame
        exact h.working_unique w' w j _ hj hbusy hsame
      working_history := by
        intro w' j hj
        rcases worker_of_update hj with ⟨-, rfl⟩ | ⟨hw, hj⟩
        · show Exec runClientInfo (eventsOf r.id _) (next answer)
          rw [eventsOf_append_performed, if_pos rfl]
          exact hrun
        · rw [hother fun heq => hw (h.working_unique w' w j _ hj hbusy heq)]
          exact h.working_history w' j hj
      history := by
        intro id
        by_cases hid : id = r.id
        · rw [hid, eventsOf_append_performed, if_pos rfl]
          exact ⟨_, hrun⟩
        · rw [hother hid]
          exact h.history id }

/-- A worker that has returned has no task. -/
theorem finish (h : s.Coherent) (w : ℕ) :
    Coherent { s with workers := Function.update s.workers w none } := by
  exact
    { h with
      waiting_idle := fun r hr w' j hj => h.waiting_idle r hr w' j (worker_of_update_none hj)
      working_accepted := fun w' j hj => h.working_accepted w' j (worker_of_update_none hj)
      working_unique := fun w' w'' j j' hj hj' =>
        h.working_unique w' w'' j j' (worker_of_update_none hj) (worker_of_update_none hj')
      working_history := fun w' j hj => h.working_history w' j (worker_of_update_none hj) }

/-- Putting a task into the queue leaves it waiting. -/
theorem put (h : s.Coherent) {r : Request} (hpending : s.pending = some r) :
    Coherent { s with pending := none, queue := s.queue ++ [r] } := by
  have hwaiting : waiting { s with pending := none, queue := s.queue ++ [r] } = s.waiting := by
    simp [waiting, hpending]
  exact
    { h with
      waiting_accepted := by
        rw [hwaiting]
        exact h.waiting_accepted
      waiting_nodup := by
        rw [hwaiting]
        exact h.waiting_nodup
      waiting_new := by
        rw [hwaiting]
        exact h.waiting_new
      waiting_idle := by
        rw [hwaiting]
        exact h.waiting_idle }

/-- Every step keeps the tasks and the history in order. -/
theorem step (h : s.Coherent) {op : SystemOp} {s' : System} (hstep : SystemStep s op s') :
    s'.Coherent := by
  cases hstep with
  | @loop op st' idle fresh step =>
    cases op with
    | procPkgCli fd pkg malloc procTime now =>
      rw [step]
      exact h.receive idle fd pkg malloc procTime now
    | timeEvent now => exact h.quiet step.accepted_le (Or.inl rfl)
    | linkDownCli fd => exact h.quiet step.accepted_le (Or.inr ⟨fd, rfl⟩)
  | put pending room => exact h.put pending
  | take idle front => exact h.take _ front
  | work busy read => exact h.work busy
  | finish done => exact h.finish _

end Coherent

/-! ## A worker left alone -/

/-- What a run on a fixed `ClientInfo` answers is read from it. -/
theorem readFrom_answer (ci : ClientInfo) (behind : List UInt8) (o : Outcomes) (op : HandlerOp) :
    ReadFrom ci ⟨op, o.answer ci behind op⟩ := by
  cases op with
  | read f => exact ⟨behind, rfl⟩
  | _ => trivial

/-- A worker that no other thread disturbs runs its program to the end on the
`ClientInfo` in memory. -/
theorem run_work {P : System → SystemOp → Prop} (hP : ∀ s w e, P s (.work w e)) {s : System}
    {w : ℕ} {r : Request} {p : Program HandlerSig Unit} (behind : List UInt8) (o : Outcomes)
    (hbusy : s.workers w = some ⟨r, p⟩) :
    Run (Guarded P SystemStep) s
      ((p.trace (S := HandlerSig) (o.answer (s.store.client r.item) behind)).map (.work w))
      { s with
        workers := Function.update s.workers w (some ⟨r, ret ()⟩)
        log := s.log ++
          (p.trace (S := HandlerSig) (o.answer (s.store.client r.item) behind)).map
            (.performed r (s.store.owner r.item)) } := by
  induction p generalizing s with
  | ret result =>
    have hworkers : Function.update s.workers w (some ⟨r, ret ()⟩) = s.workers := by
      rw [Function.update_eq_self_iff, hbusy]
    simp only [trace_ret, List.map_nil, List.append_nil, hworkers]
    exact Run.nil s
  | perform op next ih =>
    have hstep := SystemStep.work hbusy (readFrom_answer (s.store.client r.item) behind o op)
    let first : Event HandlerSig := ⟨op, o.answer (s.store.client r.item) behind op⟩
    let s₁ : System := { s with
      workers := Function.update s.workers w (some ⟨r, next first.answer⟩)
      log := s.log ++ [.performed r (s.store.owner r.item) first] }
    have hbusy₁ : s₁.workers w = some ⟨r, next first.answer⟩ := Function.update_self _ _ _
    have hrest := ih first.answer hbusy₁
    have hworkers : Function.update s₁.workers w (some ⟨r, ret ()⟩) =
        Function.update s.workers w (some ⟨r, ret ()⟩) := Function.update_idem _ _ _
    rw [hworkers, List.append_assoc] at hrest
    exact Run.cons ⟨hP _ _ _, hstep⟩ hrest

end System

end ThriftProxy
