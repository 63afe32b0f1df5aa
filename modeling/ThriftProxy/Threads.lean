import ThriftProxy.Wakeups
import ThriftProxy.System

/-!
# The proxy at the level of its locks

The event loop and the workers meet in `ThreadPool`, whose `put` and `take` wait, are
notified and wake without notice. The whole proxy with these steps refines the proxy
whose queue changes in one step, so what is known of every run of the latter holds at
the level of mutexes and condition variables too.
-/

namespace ThriftProxy

open Machine Effect Program Transition Monitor

/-! ## What the threads are up to -/

section

variable {τ : Type}

/-- The task that a worker runs. -/
def workerTask : Worker τ → Option τ
  | .outside (.running t) => some t
  | _ => none

/-- The task that a producer is about to put. -/
def producerTask : Producer τ → Option τ
  | .inside t _ => some t
  | .outside _ => none

/-- A thread that moves on with the same task changes no task. -/
theorem map_set_of_eq {α β : Type} {f : α → β} {l : List α} {i : ℕ} {a b : α}
    (hi : l[i]? = some a) (hf : f b = f a) : (l.set i b).map f = l.map f := by
  obtain ⟨hlt, rfl⟩ := List.getElem?_eq_some_iff.mp hi
  rw [List.map_set, hf, ← List.getElem_map f (h := by simpa using hlt), List.set_getElem_self]

/-- A notification changes no task. -/
theorem map_notifyOne {α β γ : Type} {f : Thread α β → γ}
    (hf : ∀ b, f (.inside b (.woken true)) = f (.inside b .asleep))
    {threads threads' : List (Thread α β)} {choice : Option ℕ}
    (h : notifyOne threads choice = some threads') : threads'.map f = threads.map f := by
  obtain ⟨rfl, -⟩ | ⟨k, b, hk, rfl⟩ := notifyOne_cases h
  · rfl
  · exact map_set_of_eq hk (hf b)

/-- Notifying all changes no task. -/
theorem map_notifyAll {α β γ : Type} {f : Thread α β → γ}
    (hf : ∀ b, f (.inside b (.woken true)) = f (.inside b .asleep))
    (threads : List (Thread α β)) : (Monitor.notifyAll threads).map f = threads.map f := by
  rw [Monitor.notifyAll, List.map_map]
  refine List.map_congr_left fun t _ => ?_
  obtain ⟨heq, -⟩ | ⟨b, rfl, heq⟩ := notify_cases t
  · rw [Function.comp_apply, heq]
  · rw [Function.comp_apply, heq, hf]

end

/-! ## The system -/

/-- The proxy with its thread pool. -/
structure ThreadedSystem where
  /-- The store of the event loop, with the memory that all threads share. -/
  store : Store
  /-- `g_thread_pool`. The event loop is the only producer. -/
  pool : ThreadPool Request
  /-- What is left of `ClientInfo::run` for each worker that runs a task. -/
  rest : ℕ → Program HandlerSig Unit
  /-- The history. -/
  log : List Entry

/-- The steps of the event loop, of the locks and of the workers. -/
inductive ThreadedOp
  /-- A step of the event loop, up to the call of `put`. -/
  | loop (op : StoreOp)
  /-- A step inside `put`, `take`, `runInThread` or `stop`. -/
  | pool (op : PoolOp Request)
  /-- A worker performs an operation of its task. -/
  | work (w : ℕ) (e : Event HandlerSig)

namespace ThreadedSystem

/-- The proxy when `ThreadPool::start` has returned. -/
def start (st : Store) (threadNum : ℕ) : ThreadedSystem :=
  { store := st
    pool := { ThreadPool.new maxQueueSize 1 with
      isRunning := true, stage := .started
      workers := List.replicate threadNum (.outside .looping) }
    rest := fun _ => runClientInfo
    log := [] }

/-- What a step of the event loop leaves behind besides the store. -/
def afterLoop (s : ThreadedSystem) (st' : Store) : StoreOp → ThreadedSystem
  | .procPkgCli fd pkg malloc procTime now =>
    match (procPkgCli s.store fd pkg malloc procTime now).task with
    | none => { s with store := st' }
    | some item =>
      let r := s.store.newRequest item fd pkg procTime now
      { s with
        store := st'
        pool := { s.pool with producers := s.pool.producers.set 0 (.inside r .locking) }
        log := s.log ++ [.accepted r fd pkg] }
  | .timeEvent _ => { s with store := st' }
  | .linkDownCli fd => { s with store := st', log := s.log ++ [.linkDown fd] }

/-- A step inside the thread pool that is not a call of `start` or `put`. A worker
returns from its task when nothing is left of it. -/
def Allows (s : ThreadedSystem) : PoolOp Request → Prop
  | .start _ => False
  | .put _ _ => False
  | .worker w _ => ∀ r, s.pool.workers[w]? = some (.outside (.running r)) → s.rest w = ret ()
  | _ => True

/-- A worker that takes a task has all of `ClientInfo::run` before it. -/
def restAfter (s : ThreadedSystem) : PoolOp Request → ℕ → Program HandlerSig Unit
  | .worker w _ => Function.update s.rest w runClientInfo
  | _ => s.rest

end ThreadedSystem

/-- The step from one state to the next. -/
inductive ThreadedStep : ThreadedSystem → ThreadedOp → ThreadedSystem → Prop
  /-- The event loop is neither inside `put` nor in `Proxy::Uninit`. -/
  | loop {s : ThreadedSystem} {op : StoreOp} {st' : Store}
      (idle : s.pool.producers[0]? = some (.outside ())) (started : s.pool.stage = .started)
      (fresh : op.MallocFresh s.store) (step : StoreStep s.store op st') :
      ThreadedStep s (.loop op) (s.afterLoop st' op)
  /-- A step of the thread pool. -/
  | pool {s : ThreadedSystem} {op : PoolOp Request} {pool : ThreadPool Request}
      (allowed : s.Allows op) (step : ThreadPool.Step s.pool op pool) :
      ThreadedStep s (.pool op) { s with pool := pool, rest := s.restAfter op }
  /-- The next operation of a handler. -/
  | work {s : ThreadedSystem} {w : ℕ} {r : Request} {op : HandlerOp}
      {next : op.Answer → Program HandlerSig Unit} {answer : op.Answer}
      (busy : s.pool.workers[w]? = some (.outside (.running r)))
      (left : s.rest w = perform (S := HandlerSig) op next)
      (read : ReadFrom (s.store.client r.item) ⟨op, answer⟩) :
      ThreadedStep s (.work w ⟨op, answer⟩)
        { s with
          rest := Function.update s.rest w (next answer)
          log := s.log ++ [.performed r (s.store.owner r.item) ⟨op, answer⟩] }

/-! ## The coarse view -/

/-- What the workers are about, without the places of their locks. -/
def jobs (workers : List (Worker Request)) (rest : ℕ → Program HandlerSig Unit) (w : ℕ) :
    Option Job := ((workers.map workerTask)[w]?.join).map fun r => ⟨r, rest w⟩

section

variable {workers workers' : List (Worker Request)} {rest rest' : ℕ → Program HandlerSig Unit}
  {w : ℕ} {old : Worker Request}

/-- A worker at some place has the task of that place. -/
theorem jobs_eq (hw : workers[w]? = some old) :
    jobs workers rest w = (workerTask old).map fun r => ⟨r, rest w⟩ := by
  rw [jobs, List.getElem?_map, hw, Option.map_some, Option.join_some]

/-- The tasks decide. -/
theorem jobs_congr (h : workers'.map workerTask = workers.map workerTask) :
    jobs workers' rest = jobs workers rest := by
  funext k
  rw [jobs, h, jobs]

/-- One worker moves. -/
theorem jobs_set (hw : workers[w]? = some old) (new : Worker Request)
    (hrest : ∀ k, k ≠ w → rest' k = rest k) :
    jobs (workers.set w new) rest' =
      Function.update (jobs workers rest) w ((workerTask new).map fun r => ⟨r, rest' w⟩) := by
  funext k
  obtain ⟨hlt, -⟩ := List.getElem?_eq_some_iff.mp hw
  by_cases hk : k = w
  · subst hk
    rw [Function.update_self, jobs_eq (List.getElem?_set_self hlt)]
  · rw [Function.update_of_ne hk, jobs, jobs, List.map_set, List.getElem?_set_ne (Ne.symm hk),
      hrest k hk]

/-- A worker without a task moves to another place without one. -/
theorem jobs_set_idle (hw : workers[w]? = some old) (hold : workerTask old = none)
    {new : Worker Request} (hnew : workerTask new = none)
    (hrest : ∀ k, k ≠ w → rest' k = rest k) :
    jobs (workers.set w new) rest' = jobs workers rest := by
  have hnone : jobs workers rest w = none := by rw [jobs_eq hw, hold, Option.map_none]
  rw [jobs_set hw new hrest, hnew, Option.map_none, ← hnone, Function.update_eq_self]

end

namespace ThreadedSystem

variable {s s' : ThreadedSystem}

/-- The proxy without its locks. -/
def atomic (s : ThreadedSystem) : System where
  store := s.store
  pending := ((s.pool.producers.map producerTask)[0]?).join
  queue := s.pool.queue
  workers := jobs s.pool.workers s.rest
  log := s.log

/-- What holds of every state: the locks are in order, the limit is that of the
constructor, and nobody but the event loop puts tasks. -/
structure Proper (s : ThreadedSystem) : Prop where
  balanced : s.pool.Balanced
  limit : s.pool.maxQueueSize = maxQueueSize
  one_producer : s.pool.producers.length = 1

/-- The proxy starts so. -/
theorem proper_start (st : Store) (threadNum : ℕ) : (start st threadNum).Proper where
  balanced := (ThreadPool.balanced_new maxQueueSize 1).start threadNum
  limit := rfl
  one_producer := rfl

/-- The event loop and the workers start with nothing to do. -/
theorem atomic_start (st : Store) (threadNum : ℕ) :
    (start st threadNum).atomic = System.start st := by
  have hworkers : jobs (List.replicate threadNum (.outside .looping)) (fun _ => runClientInfo) =
      fun _ => none := by
    funext k
    rw [jobs, List.map_replicate, List.getElem?_replicate]
    split <;> rfl
  show System.mk _ _ _ _ _ = _
  rw [start, hworkers]
  rfl

/-- The only producer has the number 0. -/
theorem Proper.eq_zero (h : s.Proper) {j : ℕ} {p : Producer Request}
    (hj : s.pool.producers[j]? = some p) : j = 0 := by
  obtain ⟨hlt, -⟩ := List.getElem?_eq_some_iff.mp hj
  rw [h.one_producer] at hlt
  omega

/-- What is pending is with the producer. -/
theorem pending_atomic {p : Producer Request} (hp : s.pool.producers[0]? = some p) :
    s.atomic.pending = producerTask p := by
  show ((s.pool.producers.map producerTask)[0]?).join = _
  rw [List.getElem?_map, hp]
  rfl

/-- A step inside the thread pool keeps the locks in order. -/
theorem Proper.pool (h : s.Proper) {op : PoolOp Request} {pool : ThreadPool Request}
    (hstep : ThreadPool.Step s.pool op pool) (rest : ℕ → Program HandlerSig Unit)
    (store : Store) (log : List Entry) :
    Proper { store := store, pool := pool, rest := rest, log := log } where
  balanced := h.balanced.step hstep
  limit := (ThreadPool.maxQueueSize_of_step hstep).trans h.limit
  one_producer := by
    have hlength : pool.producers.length = s.pool.producers.length := by
      cases ThreadPool.move_of_step hstep with
      | pop i t queue wakes producers hi hqueue hnotify =>
        simpa using congrArg List.length (map_notifyOne (f := fun _ => ()) (fun _ => rfl) hnotify)
      | _ => simp
    exact hlength.trans h.one_producer

/-- A step of the event loop keeps the locks in order. -/
theorem Proper.loop (h : s.Proper) (hidle : s.pool.producers[0]? = some (.outside ()))
    (st' : Store) (op : StoreOp) : (s.afterLoop st' op).Proper := by
  cases op with
  | procPkgCli fd pkg malloc procTime now =>
    cases htask : (procPkgCli s.store fd pkg malloc procTime now).task with
    | none =>
      simp only [afterLoop, htask]
      exact ⟨h.balanced, h.limit, h.one_producer⟩
    | some item =>
      have hput : ∀ r : Request, ThreadPool.Step s.pool (.put 0 r)
          { s.pool with producers := s.pool.producers.set 0 (.inside r .locking) } := by
        intro r
        simp only [ThreadPool.Step, ThreadPool.step, hidle]
      simp only [afterLoop, htask]
      exact h.pool (hput _) _ _ _
  | timeEvent now => exact ⟨h.balanced, h.limit, h.one_producer⟩
  | linkDownCli fd => exact ⟨h.balanced, h.limit, h.one_producer⟩

/-- Every step keeps the locks in order. -/
theorem Proper.step (h : s.Proper) {op : ThreadedOp} (hstep : ThreadedStep s op s') :
    s'.Proper := by
  cases hstep with
  | loop idle started fresh step => exact h.loop idle _ _
  | pool allowed step => exact h.pool step _ _ _
  | work busy left read => exact ⟨h.balanced, h.limit, h.one_producer⟩

/-- The event loop does the same without the locks. -/
theorem atomic_afterLoop (h : s.Proper) (st' : Store) (op : StoreOp) :
    (s.afterLoop st' op).atomic = s.atomic.afterLoop st' op := by
  cases op with
  | procPkgCli fd pkg malloc procTime now =>
    have hsame : s.atomic.store = s.store := rfl
    cases htask : (procPkgCli s.store fd pkg malloc procTime now).task with
    | none =>
      simp only [afterLoop, System.afterLoop, hsame, htask]
      rfl
    | some item =>
      have hzero : 0 < s.pool.producers.length := by rw [h.one_producer]; exact Nat.one_pos
      have hpending : ∀ r : Request,
          (((s.pool.producers.set 0 (.inside r .locking)).map producerTask)[0]?).join = some r := by
        intro r
        rw [List.getElem?_map, List.getElem?_set_self hzero]
        rfl
      simp only [afterLoop, System.afterLoop, hsame, htask]
      simp only [atomic, hpending]
  | timeEvent now => rfl
  | linkDownCli fd => rfl

/-- The queue and the tasks of the threads decide what the locks hide. -/
theorem atomic_congr {pool : ThreadPool Request} {rest : ℕ → Program HandlerSig Unit}
    (hproducers : pool.producers.map producerTask = s.pool.producers.map producerTask)
    (hqueue : pool.queue = s.pool.queue) (hworkers : jobs pool.workers rest = s.atomic.workers) :
    atomic { s with pool := pool, rest := rest } = s.atomic := by
  show System.mk _ _ _ _ _ = _
  rw [hproducers, hqueue, hworkers]
  rfl

/-- A worker that goes on without a task. -/
theorem atomic_set_worker {w : ℕ} {old new : Worker Request} (hw : s.pool.workers[w]? = some old)
    (hold : workerTask old = none) (hnew : workerTask new = none)
    {rest : ℕ → Program HandlerSig Unit} (hrest : ∀ k, k ≠ w → rest k = s.rest k) :
    atomic { s with
      pool := { s.pool with workers := s.pool.workers.set w new }, rest := rest } = s.atomic :=
  atomic_congr rfl rfl (jobs_set_idle hw hold hnew hrest)

/-- A producer that goes on with its task. -/
theorem atomic_set_producer {j : ℕ} {old new : Producer Request}
    (hj : s.pool.producers[j]? = some old) (hnew : producerTask new = producerTask old) :
    atomic { s with
      pool := { s.pool with producers := s.pool.producers.set j new } } = s.atomic :=
  atomic_congr (map_set_of_eq hj hnew) rfl rfl

/-- What a step inside the thread pool is without the locks: `put` appends its task,
`take` gets one, a worker returns, or nothing happens. -/
theorem exists_coarse (h : s.Proper) {op : PoolOp Request} {pool : ThreadPool Request}
    (hallowed : s.Allows op) (hstep : ThreadPool.Step s.pool op pool) :
    atomic { s with pool := pool, rest := s.restAfter op } = s.atomic ∨
      ∃ coarse, (∀ op', coarse ≠ .loop op') ∧
        SystemStep s.atomic coarse (atomic { s with pool := pool, rest := s.restAfter op }) := by
  have hrest : ∀ w k, k ≠ w → Function.update s.rest w runClientInfo k = s.rest k :=
    fun w k hk => Function.update_of_ne hk _ _
  cases ThreadPool.move_of_step hstep with
  | start numThreads => exact absurd hallowed id
  | put j t hj => exact absurd hallowed id
  | produce j t e e' wakes hj hnext => exact .inl (atomic_set_producer hj rfl)
  | producerWakes j t hj => exact .inl (atomic_set_producer hj rfl)
  | enter w wakes hw hrunning => exact .inl (atomic_set_worker hw rfl rfl (hrest w))
  | leave w wakes hw hrunning => exact .inl (atomic_set_worker hw rfl rfl (hrest w))
  | work w e e' wakes hw hnext => exact .inl (atomic_set_worker hw rfl rfl (hrest w))
  | takeNone w wakes hw hqueue => exact .inl (atomic_set_worker hw rfl rfl (hrest w))
  | workerWakes w hw => exact .inl (atomic_set_worker hw rfl rfl fun _ _ => rfl)
  | clearRunning hstage => exact .inl rfl
  | joinAll hstage hdone => exact .inl rfl
  | notifyAll hstage =>
    exact .inl (atomic_congr rfl rfl (jobs_congr (map_notifyAll (fun _ => rfl) _)))
  | push j t wakes workers hj hnotify =>
    obtain rfl := h.eq_zero hj
    have hpending : s.atomic.pending = some t := pending_atomic hj
    have hready : 0 < s.pool.producers.countP Thread.isReady :=
      List.countP_pos_iff.mpr ⟨_, List.mem_of_getElem? hj, rfl⟩
    have hroom : s.atomic.queue.length ≠ maxQueueSize := by
      have hlt := h.balanced.room hready
      rw [h.limit] at hlt
      exact hlt.ne
    have hworkers : jobs workers s.rest = jobs s.pool.workers s.rest :=
      jobs_congr (map_notifyOne (fun _ => rfl) hnotify)
    have hnone : (((s.pool.producers.set 0 (.outside ())).map producerTask)[0]?).join = none := by
      rw [List.map_set]
      cases hmap : s.pool.producers.map producerTask <;> rfl
    refine .inr ⟨.put, nofun, ?_⟩
    have hstep := SystemStep.put hpending hroom
    convert hstep using 1
    show System.mk _ _ _ _ _ = _
    rw [hnone]
    exact congrArg (System.mk _ _ _ · _) hworkers
  | run w t wakes hw =>
    have hdone : s.atomic.workers w = some ⟨t, ret ()⟩ := by
      show jobs s.pool.workers s.rest w = _
      rw [jobs_eq hw, hallowed t hw]
      rfl
    refine .inr ⟨.finish w, nofun, ?_⟩
    convert SystemStep.finish hdone using 1
    exact congrArg (System.mk _ _ _ · _) (jobs_set hw (.outside .looping) (hrest w))
  | pop w t queue wakes producers hw hqueue hnotify =>
    have hidle : s.atomic.workers w = none := jobs_eq hw
    have hpending : producers.map producerTask = s.pool.producers.map producerTask :=
      map_notifyOne (fun _ => rfl) hnotify
    have hworkers := jobs_set hw (.outside (.running t)) (hrest w)
    rw [Function.update_self] at hworkers
    refine .inr ⟨.take w, nofun, ?_⟩
    convert SystemStep.take hidle hqueue using 1
    show System.mk _ _ _ _ _ = _
    rw [hpending]
    exact congrArg (System.mk _ _ _ · _) hworkers

end ThreadedSystem

/-- A condition on the steps of the event loop. -/
def ThreadedSystem.LoopMeets (P : System → SystemOp → Prop) (s : ThreadedSystem) :
    ThreadedOp → Prop
  | .loop op => P s.atomic (.loop op)
  | _ => True

/-- A step at the level of the locks is a step without them, or none. -/
theorem ThreadedStep.exists_coarse {P : System → SystemOp → Prop}
    (hP : ∀ s op, (∀ op', op ≠ .loop op') → P s op) {s s' : ThreadedSystem} {op : ThreadedOp}
    (h : s.Proper) (hop : s.LoopMeets P op) (hstep : ThreadedStep s op s') :
    ∃ coarse, Run (Guarded P SystemStep) s.atomic coarse s'.atomic := by
  cases hstep with
  | @loop op st' idle started fresh step =>
    have hpending : s.atomic.pending = none := ThreadedSystem.pending_atomic idle
    have hcoarse : SystemStep s.atomic (.loop op) (s.atomic.afterLoop st' op) :=
      .loop hpending fresh step
    rw [ThreadedSystem.atomic_afterLoop h]
    exact ⟨_, Run.cons ⟨hop, hcoarse⟩ (Run.nil _)⟩
  | pool allowed step =>
    obtain hsame | ⟨coarse, hcoarse, hstep⟩ := ThreadedSystem.exists_coarse h allowed step
    · exact ⟨[], by rw [hsame]; exact Run.nil _⟩
    · exact ⟨_, Run.cons ⟨hP _ _ hcoarse, hstep⟩ (Run.nil _)⟩
  | @work w r op next answer busy left read =>
    have hbusy : s.atomic.workers w = some ⟨r, perform (S := HandlerSig) op next⟩ := by
      show jobs s.pool.workers s.rest w = _
      rw [jobs_eq busy, left]
      rfl
    have hworkers : jobs s.pool.workers (Function.update s.rest w (next answer)) =
        Function.update s.atomic.workers w (some ⟨r, next answer⟩) := by
      have hkeep : ∀ k, k ≠ w → Function.update s.rest w (next answer) k = s.rest k :=
        fun k hk => Function.update_of_ne hk (next answer) s.rest
      have hset := jobs_set busy (.outside (.running r)) hkeep
      have hself : s.pool.workers.set w (.outside (.running r)) = s.pool.workers := by
        obtain ⟨hlt, hget⟩ := List.getElem?_eq_some_iff.mp busy
        rw [← hget, List.set_getElem_self]
      rw [Function.update_self, hself] at hset
      exact hset
    have hcoarse := SystemStep.work hbusy read
    rw [← hworkers] at hcoarse
    exact ⟨[.work w ⟨op, answer⟩], Run.cons ⟨hP _ _ nofun, hcoarse⟩ (Run.nil _)⟩

/-- **The locks keep the queue atomic.** In every interleaving of the event loop and the
workers at the level of the mutex and the condition variables of `ThreadPool`, with
wakeups that nobody asked for and with a shutdown at any time, the store, the queue, the
tasks of the workers and the history are those of a run in which `put` and `take` each
are one step, with the same conditions on the event loop. -/
theorem threads_refine_system {P : System → SystemOp → Prop}
    (hP : ∀ s op, (∀ op', op ≠ .loop op') → P s op) {st : Store} {threadNum : ℕ}
    {ops : List ThreadedOp} {s : ThreadedSystem}
    (hrun : Run (Guarded (ThreadedSystem.LoopMeets P) ThreadedStep) (.start st threadNum) ops s) :
    ∃ coarse, Run (Guarded P SystemStep) (System.start st) coarse s.atomic := by
  have hstart : (ThreadedSystem.start st threadNum).Proper ∧
      (ThreadedSystem.start st threadNum).atomic = System.start st :=
    ⟨ThreadedSystem.proper_start st threadNum, ThreadedSystem.atomic_start st threadNum⟩
  have hstep : ∀ s op s' t, s.Proper ∧ s.atomic = t →
      Guarded (ThreadedSystem.LoopMeets P) ThreadedStep s op s' →
      ∃ coarse t', Run (Guarded P SystemStep) t coarse t' ∧ s'.Proper ∧ s'.atomic = t' := by
    rintro s op s' _ ⟨hproper, rfl⟩ ⟨hop, hstep⟩
    obtain ⟨coarse, hcoarse⟩ := hstep.exists_coarse hP hproper hop
    exact ⟨coarse, _, hcoarse, hproper.step hstep, rfl⟩
  obtain ⟨coarse, t, hcoarse, -, rfl⟩ := hrun.simulate hstep hstart
  exact ⟨coarse, hcoarse⟩

/-- The first task gets from the event loop to a worker. -/
theorem threads_refine_system_first : ∃ ops s,
    Run (Guarded (ThreadedSystem.LoopMeets fun _ _ => True) ThreadedStep) (.start freshStore 1) ops
      s ∧ s.pool.workers.filterMap workerTask ≠ [] ∧
    ∃ coarse, Run (Guarded (fun _ _ => True) SystemStep) (System.start freshStore) coarse
      s.atomic := by
  have hrun : ∃ s, s.pool.workers.filterMap workerTask ≠ [] ∧
      Run (Guarded (ThreadedSystem.LoopMeets fun _ _ => True) ThreadedStep) (.start freshStore 1)
        ([.loop (.procPkgCli 7 emptyPackage none ⟨100, 0⟩ 100)] ++
          [.producer 0 none, .producer 0 none, .producer 0 none, .worker 0 none, .worker 0 none,
            .worker 0 none, .worker 0 none].map .pool) s := by
    refine ⟨_, ?_, Run.cons ⟨trivial, .loop rfl rfl (by simp [StoreOp.MallocFresh]) rfl⟩ <|
      Run.cons ⟨trivial, .pool trivial rfl⟩ <| Run.cons ⟨trivial, .pool trivial rfl⟩ <|
      Run.cons ⟨trivial, .pool trivial rfl⟩ <|
      Run.cons ⟨trivial, .pool (by intro r h; cases h) rfl⟩ <|
      Run.cons ⟨trivial, .pool (by intro r h; cases h) rfl⟩ <|
      Run.cons ⟨trivial, .pool (by intro r h; cases h) rfl⟩ <|
      Run.cons ⟨trivial, .pool (by intro r h; cases h) rfl⟩ <| Run.nil _⟩
    exact List.cons_ne_nil _ _
  obtain ⟨s, htask, hrun⟩ := hrun
  exact ⟨_, s, hrun, htask, threads_refine_system (fun _ _ _ => trivial) hrun⟩

end ThriftProxy
