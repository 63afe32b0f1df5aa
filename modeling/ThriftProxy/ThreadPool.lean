import ThriftProxy.Lib.Monitor
import ThriftProxy.Lib.Transition

/-!
# The thread pool

`thread_pool.h`: a bounded queue between producers that call `put` and workers
that run the tasks they `take`. The critical sections of both are split where
the source gives up control: at the evaluation of the wait condition, at the
entry into the wait, and at the rest of the section, which ends with a
notification. The flag `is_running_` is read and written without the mutex. A
task is a pointer other than NULL.
-/

namespace ThriftProxy

open Transition Monitor

/-- Where a worker is in `runInThread` when it is not in `take`. -/
inductive WorkerAt (τ : Type)
  /-- It evaluates the condition of the loop next. -/
  | looping
  /-- It runs a task. -/
  | running (t : τ)
  /-- It has left the loop. -/
  | done
  deriving DecidableEq

/-- A thread of `runInThread`. -/
abbrev Worker (τ : Type) := Thread (WorkerAt τ) Unit

/-- The worker has left the loop. -/
def isDone {τ : Type} : Worker τ → Bool
  | .outside .done => true
  | _ => false

/-- A thread that calls `put`, with the task while it is in the call. -/
abbrev Producer (τ : Type) := Thread Unit τ

/-- How far the owner of the pool has come. -/
inductive Stage
  /-- The pool has been constructed. -/
  | constructed
  /-- `start` has returned. -/
  | started
  /-- `stop` has cleared `is_running_`. -/
  | cleared
  /-- `stop` has notified all workers. -/
  | notified
  /-- `stop` has joined all workers and returned. -/
  | joined
  deriving DecidableEq

/-- `ThreadPool`. The mutex `mu_` is held by the thread inside its critical section. -/
structure ThreadPool (τ : Type) where
  /-- `max_queue_size_`. -/
  maxQueueSize : ℕ
  /-- `is_running_`. -/
  isRunning : Bool
  /-- `queue_`. -/
  queue : List τ
  /-- `thread_group_`; those in `take` sleep on `cond_get_`. -/
  workers : List (Worker τ)
  /-- The callers of `put`; those in the call sleep on `cond_put_`. -/
  producers : List (Producer τ)
  /-- How far the owner has come. -/
  stage : Stage
  /-- The tasks whose `put` has returned, in this order. -/
  accepted : List τ
  /-- The tasks that have been run, in this order. -/
  ran : List τ
  deriving DecidableEq

/-- A step of a thread, with the thread that `notify_one` wakes, if it wakes one. -/
inductive PoolOp (τ : Type)
  /-- `start(num_threads)`. -/
  | start (numThreads : ℕ)
  /-- A producer calls `put`. -/
  | put (j : ℕ) (t : τ)
  /-- A producer in `put` takes its next step. -/
  | producer (j : ℕ) (wakes : Option ℕ)
  /-- A producer wakes without having been notified. -/
  | producerWakes (j : ℕ)
  /-- A worker takes its next step. -/
  | worker (i : ℕ) (wakes : Option ℕ)
  /-- A worker wakes without having been notified. -/
  | workerWakes (i : ℕ)
  /-- The first statement of `stop`. -/
  | clearRunning
  /-- The second statement of `stop`. -/
  | notifyAll
  /-- The last statement of `stop` returns. -/
  | joinAll
  deriving DecidableEq

namespace ThreadPool

variable {τ : Type}

/-- The constructor and `setMaxQueueSize`, with the threads that will call `put`. -/
def new (maxQueueSize producers : ℕ) : ThreadPool τ :=
  { maxQueueSize := maxQueueSize, isRunning := false, queue := [], workers := [],
    producers := List.replicate producers (.outside ()), stage := .constructed, accepted := [],
    ran := [] }

/-- The number of threads that hold `mu_`. -/
def holders (s : ThreadPool τ) : ℕ := Monitor.holders s.workers + Monitor.holders s.producers

/-- Whether `mu_` is held. -/
def locked (s : ThreadPool τ) : Bool := decide (0 < s.holders)

/-- `isFull()`. -/
def isFull (s : ThreadPool τ) : Bool := s.queue.length == s.maxQueueSize

/-- `isEmpty()`. -/
def isEmpty (s : ThreadPool τ) : Bool := s.queue.isEmpty

/-- The rest of `take` behind its wait loop, and the test of its result. -/
def finishTake (s : ThreadPool τ) (i : ℕ) (wakes : Option ℕ) : Option (ThreadPool τ) :=
  match s.queue with
  | [] => some { s with workers := s.workers.set i (.outside .looping) }
  | t :: queue =>
    (notifyOne s.producers wakes).map fun producers =>
      { s with queue := queue, producers := producers,
               workers := s.workers.set i (.outside (.running t)) }

/-- The rest of `put` behind its wait loop. -/
def finishPut (s : ThreadPool τ) (j : ℕ) (t : τ) (wakes : Option ℕ) : Option (ThreadPool τ) :=
  (notifyOne s.workers wakes).map fun workers =>
    { s with queue := s.queue ++ [t], workers := workers,
             producers := s.producers.set j (.outside ()), accepted := s.accepted ++ [t] }

/-- The next step of a worker. -/
def stepWorker (s : ThreadPool τ) (i : ℕ) (wakes : Option ℕ) : Option (ThreadPool τ) :=
  match s.workers[i]? with
  | some (.outside .looping) =>
    let next : Worker τ := if s.isRunning then .inside () .locking else .outside .done
    some { s with workers := s.workers.set i next }
  | some (.outside (.running t)) =>
    some { s with workers := s.workers.set i (.outside .looping), ran := s.ran ++ [t] }
  | some (.outside .done) => none
  | some (.inside _ .ready) => s.finishTake i wakes
  | some (.inside _ e) =>
    (e.next s.locked (s.isEmpty && s.isRunning)).map fun e' =>
      { s with workers := s.workers.set i (.inside () e') }
  | none => none

/-- The next step of a producer in `put`. -/
def stepProducer (s : ThreadPool τ) (j : ℕ) (wakes : Option ℕ) : Option (ThreadPool τ) :=
  match s.producers[j]? with
  | some (.inside t .ready) => s.finishPut j t wakes
  | some (.inside t e) =>
    (e.next s.locked s.isFull).map fun e' =>
      { s with producers := s.producers.set j (.inside t e') }
  | some (.outside _) => none
  | none => none

/-- The pool after one step. -/
def step (s : ThreadPool τ) : PoolOp τ → Option (ThreadPool τ)
  | .start numThreads =>
    if s.stage = .constructed then
      some { s with isRunning := true, stage := .started,
                    workers := List.replicate numThreads (.outside .looping) }
    else none
  | .put j t =>
    match s.producers[j]? with
    | some (.outside _) => some { s with producers := s.producers.set j (.inside t .locking) }
    | _ => none
  | .producer j wakes => s.stepProducer j wakes
  | .producerWakes j =>
    match s.producers[j]? with
    | some (.inside t .asleep) =>
      some { s with producers := s.producers.set j (.inside t (.woken false)) }
    | _ => none
  | .worker i wakes => s.stepWorker i wakes
  | .workerWakes i =>
    match s.workers[i]? with
    | some (.inside _ .asleep) =>
      some { s with workers := s.workers.set i (.inside () (.woken false)) }
    | _ => none
  | .clearRunning =>
    if s.stage = .started then some { s with isRunning := false, stage := .cleared } else none
  | .notifyAll =>
    if s.stage = .cleared then
      some { s with workers := Monitor.notifyAll s.workers, stage := .notified }
    else none
  | .joinAll =>
    if s.stage = .notified ∧ s.workers.all isDone = true then
      some { s with stage := .joined }
    else none

/-- The transition relation of the pool and its threads. -/
def Step (s : ThreadPool τ) (op : PoolOp τ) (s' : ThreadPool τ) : Prop := s.step op = some s'

/-! ## What a step can do -/

/-- The steps, with their guards. -/
inductive Move (s : ThreadPool τ) : PoolOp τ → ThreadPool τ → Prop
  | start (numThreads : ℕ) : s.stage = .constructed →
      Move s (.start numThreads) { s with
        isRunning := true, stage := .started
        workers := List.replicate numThreads (.outside .looping) }
  | put (j : ℕ) (t : τ) : s.producers[j]? = some (.outside ()) →
      Move s (.put j t) { s with producers := s.producers.set j (.inside t .locking) }
  | produce (j : ℕ) (t : τ) (e e' : Monitor.Entry) (wakes : Option ℕ) :
      s.producers[j]? = some (.inside t e) → e.next s.locked s.isFull = some e' →
      Move s (.producer j wakes) { s with producers := s.producers.set j (.inside t e') }
  | push (j : ℕ) (t : τ) (wakes : Option ℕ) (workers : List (Worker τ)) :
      s.producers[j]? = some (.inside t .ready) → notifyOne s.workers wakes = some workers →
      Move s (.producer j wakes) { s with
        queue := s.queue ++ [t], workers := workers
        producers := s.producers.set j (.outside ()), accepted := s.accepted ++ [t] }
  | producerWakes (j : ℕ) (t : τ) : s.producers[j]? = some (.inside t .asleep) →
      Move s (.producerWakes j) { s with
        producers := s.producers.set j (.inside t (.woken false)) }
  | enter (i : ℕ) (wakes : Option ℕ) : s.workers[i]? = some (.outside .looping) →
      s.isRunning = true →
      Move s (.worker i wakes) { s with workers := s.workers.set i (.inside () .locking) }
  | leave (i : ℕ) (wakes : Option ℕ) : s.workers[i]? = some (.outside .looping) →
      s.isRunning = false →
      Move s (.worker i wakes) { s with workers := s.workers.set i (.outside .done) }
  | run (i : ℕ) (t : τ) (wakes : Option ℕ) : s.workers[i]? = some (.outside (.running t)) →
      Move s (.worker i wakes) { s with
        workers := s.workers.set i (.outside .looping), ran := s.ran ++ [t] }
  | work (i : ℕ) (e e' : Monitor.Entry) (wakes : Option ℕ) : s.workers[i]? = some (.inside () e) →
      e.next s.locked (s.isEmpty && s.isRunning) = some e' →
      Move s (.worker i wakes) { s with workers := s.workers.set i (.inside () e') }
  | takeNone (i : ℕ) (wakes : Option ℕ) : s.workers[i]? = some (.inside () .ready) →
      s.queue = [] →
      Move s (.worker i wakes) { s with workers := s.workers.set i (.outside .looping) }
  | pop (i : ℕ) (t : τ) (queue : List τ) (wakes : Option ℕ) (producers : List (Producer τ)) :
      s.workers[i]? = some (.inside () .ready) → s.queue = t :: queue →
      notifyOne s.producers wakes = some producers →
      Move s (.worker i wakes) { s with
        queue := queue, producers := producers
        workers := s.workers.set i (.outside (.running t)) }
  | workerWakes (i : ℕ) : s.workers[i]? = some (.inside () .asleep) →
      Move s (.workerWakes i) { s with workers := s.workers.set i (.inside () (.woken false)) }
  | clearRunning : s.stage = .started →
      Move s .clearRunning { s with isRunning := false, stage := .cleared }
  | notifyAll : s.stage = .cleared →
      Move s .notifyAll { s with
        workers := Monitor.notifyAll s.workers, stage := .notified }
  | joinAll : s.stage = .notified → s.workers.all isDone = true →
      Move s .joinAll { s with stage := .joined }

/-- A step of a worker is one of the moves. -/
theorem move_of_stepWorker {s s' : ThreadPool τ} {i : ℕ} {wakes : Option ℕ}
    (h : s.stepWorker i wakes = some s') : s.Move (.worker i wakes) s' := by
  unfold stepWorker at h
  split at h
  · rename_i hi
    cases hrunning : s.isRunning with
    | true =>
      rw [hrunning] at h
      obtain rfl := Option.some.inj h
      simpa [hrunning] using Move.enter i wakes hi hrunning
    | false =>
      rw [hrunning] at h
      obtain rfl := Option.some.inj h
      simpa [hrunning] using Move.leave i wakes hi hrunning
  · rename_i t hi
    obtain rfl := Option.some.inj h
    exact Move.run i t wakes hi
  · cases h
  · rename_i hi
    unfold finishTake at h
    split at h
    · rename_i hqueue
      obtain rfl := Option.some.inj h
      exact Move.takeNone i wakes hi hqueue
    · rename_i t queue hqueue
      obtain ⟨producers, hnotify, rfl⟩ := Option.map_eq_some_iff.mp h
      exact Move.pop i t queue wakes producers hi hqueue hnotify
  · rename_i e _ hi
    obtain ⟨e', hnext, rfl⟩ := Option.map_eq_some_iff.mp h
    exact Move.work i e e' wakes hi hnext
  · cases h

/-- A step of a producer is one of the moves. -/
theorem move_of_stepProducer {s s' : ThreadPool τ} {j : ℕ} {wakes : Option ℕ}
    (h : s.stepProducer j wakes = some s') : s.Move (.producer j wakes) s' := by
  unfold stepProducer at h
  split at h
  · rename_i t hj
    obtain ⟨workers, hnotify, rfl⟩ := Option.map_eq_some_iff.mp h
    exact Move.push j t wakes workers hj hnotify
  · rename_i t e _ hj
    obtain ⟨e', hnext, rfl⟩ := Option.map_eq_some_iff.mp h
    exact Move.produce j t e e' wakes hj hnext
  · cases h
  · cases h

/-- Every step is one of the moves. -/
theorem move_of_step {s s' : ThreadPool τ} {op : PoolOp τ} (h : Step s op s') : s.Move op s' := by
  unfold Step at h
  cases op with
  | start numThreads =>
    simp only [step] at h
    split at h
    · obtain rfl := Option.some.inj h
      exact Move.start numThreads ‹_›
    · cases h
  | put j t =>
    simp only [step] at h
    split at h
    · obtain rfl := Option.some.inj h
      exact Move.put j t ‹_›
    · cases h
  | producer j wakes => exact move_of_stepProducer h
  | producerWakes j =>
    simp only [step] at h
    split at h
    · obtain rfl := Option.some.inj h
      exact Move.producerWakes j _ ‹_›
    · cases h
  | worker i wakes => exact move_of_stepWorker h
  | workerWakes i =>
    simp only [step] at h
    split at h
    · obtain rfl := Option.some.inj h
      exact Move.workerWakes i ‹_›
    · cases h
  | clearRunning =>
    simp only [step] at h
    split at h
    · obtain rfl := Option.some.inj h
      exact Move.clearRunning ‹_›
    · cases h
  | notifyAll =>
    simp only [step] at h
    split at h
    · obtain rfl := Option.some.inj h
      exact Move.notifyAll ‹_›
    · cases h
  | joinAll =>
    simp only [step] at h
    split at h
    · rename_i hjoin
      obtain rfl := Option.some.inj h
      exact Move.joinAll hjoin.1 hjoin.2
    · cases h

end ThreadPool

end ThriftProxy
