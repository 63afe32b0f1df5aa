import ThriftProxy.Wakeups

/-!
# Changing the limit of the queue

`setMaxQueueSize` may be called at any time and takes no lock, and `isFull`
compares the length of the queue with the limit for equality. A limit below the
length is never met again by tasks being added: the queue then grows without bound.
-/

namespace ThriftProxy

open Transition Monitor Thread

/-- A pool whose limit is changed, with the largest limit set so far. -/
structure LimitedPool (τ : Type) where
  /-- The pool. -/
  pool : ThreadPool τ
  /-- The largest limit so far. -/
  largest : ℕ
  deriving DecidableEq

/-- A step of a thread of the pool, or a call of `setMaxQueueSize`. -/
inductive LimitOp (τ : Type)
  /-- A step of the pool and its threads. -/
  | pool (op : PoolOp τ)
  /-- `setMaxQueueSize(max_size)`. -/
  | setMaxQueueSize (maxSize : ℕ)
  deriving DecidableEq

namespace LimitedPool

variable {τ : Type}

/-- The constructor, with the threads that will call `put`. -/
def new (producers : ℕ) : LimitedPool τ := { pool := .new 20 producers, largest := 20 }

/-- The pool after one step. A limit is positive. -/
def step (s : LimitedPool τ) : LimitOp τ → Option (LimitedPool τ)
  | .pool op => (s.pool.step op).map fun pool => { s with pool := pool }
  | .setMaxQueueSize maxSize =>
    if 1 ≤ maxSize then
      some { pool := { s.pool with maxQueueSize := maxSize }, largest := max s.largest maxSize }
    else none

/-- The transition relation of the pool, its threads and the callers of `setMaxQueueSize`. -/
def Step (s : LimitedPool τ) (op : LimitOp τ) (s' : LimitedPool τ) : Prop := s.step op = some s'

/-- The queue is not longer than the largest limit so far. -/
def Bounded (s : LimitedPool τ) : Prop := s.pool.queue.length ≤ s.largest

/-- A producer that adds its task does so below the limit. -/
def AddsBelow (s : LimitedPool τ) : LimitOp τ → Prop
  | .pool (.producer j _) =>
    ∀ t, s.pool.producers[j]? = some (.inside t .ready) →
      s.pool.queue.length < s.pool.maxQueueSize
  | _ => True

/-- In every state the queue is bounded, and every task is added below the limit. -/
def QueueBounded (producers : ℕ) (ops : List (LimitOp τ)) : Prop :=
  Throughout Step Bounded (new producers) ops ∧ Along Step AddsBelow (new producers) ops

/-- The queue holds no more tasks than the limit when `isFull` is evaluated, and the
limit is not lowered to what the queue holds between that and the end of `put`. -/
def LimitRespected (s : LimitedPool τ) : LimitOp τ → Prop
  | .pool (.producer j _) =>
    ∀ t, s.pool.producers[j]? = some (.inside t .testing) →
      s.pool.queue.length ≤ s.pool.maxQueueSize
  | .pool _ => True
  | .setMaxQueueSize maxSize =>
    0 < s.pool.producers.countP isReady → s.pool.queue.length < maxSize

/-- A pool whose producers respect the limit. -/
structure Within (s : LimitedPool τ) : Prop where
  /-- The mutex excludes. -/
  exclusive : s.pool.holders ≤ 1
  /-- The limit is one of those set. -/
  limit_le : s.pool.maxQueueSize ≤ s.largest
  /-- The queue is bounded. -/
  length_le : s.Bounded
  /-- A producer that has found the queue not full has room. -/
  room : 0 < s.pool.producers.countP isReady → s.pool.queue.length < s.pool.maxQueueSize

/-- A pool without tasks is bounded. -/
theorem within_new (producers : ℕ) : (new producers : LimitedPool τ).Within := by
  have hbalanced : (ThreadPool.new 20 producers : ThreadPool τ).Balanced :=
    ThreadPool.balanced_new 20 producers
  exact ⟨hbalanced.exclusive, le_rfl, Nat.zero_le _, hbalanced.room⟩

namespace Within

variable {s : LimitedPool τ}

/-- A step that touches neither the queue nor a producer that is about to add to it. -/
theorem congr {pool : ThreadPool τ} (h : s.Within) (hexcl : pool.holders ≤ 1)
    (hlimit : pool.maxQueueSize = s.pool.maxQueueSize) (hqueue : pool.queue = s.pool.queue)
    (hready : pool.producers.countP isReady ≤ s.pool.producers.countP isReady) :
    Within { s with pool := pool } where
  exclusive := hexcl
  limit_le := hlimit.trans_le h.limit_le
  length_le := by
    have hlength := h.length_le
    simp only [Bounded, hqueue] at hlength ⊢
    exact hlength
  room hpos := by
    simp only [hlimit, hqueue]
    exact h.room (hpos.trans_le hready)

/-- A producer moves on in the wait loop. -/
theorem produce (h : s.Within) {j : ℕ} {t : τ} {e e' : Monitor.Entry} {wakes : Option ℕ}
    (hj : s.pool.producers[j]? = some (.inside t e))
    (hnext : e.next s.pool.locked s.pool.isFull = some e')
    (hlimit : s.LimitRespected (.pool (.producer j wakes))) :
    Within { s with pool := { s.pool with producers := s.pool.producers.set j (.inside t e') } } where
  exclusive := (ThreadPool.Move.produce j t e e' wakes hj hnext).exclusive h.exclusive
  limit_le := h.limit_le
  length_le := h.length_le
  room hpos := by
    have hroom : (Thread.inside t e' : Producer τ).isReady = false →
        s.pool.queue.length < s.pool.maxQueueSize := by
      intro hnot
      have hless := countP_set_le hj fun hready => absurd (hnot.symm.trans hready) nofun
      exact h.room (hpos.trans_le hless)
    obtain ⟨-, rfl, rfl⟩ | ⟨-, ⟨_, rfl⟩, rfl⟩ | ⟨-, rfl, rfl⟩ | ⟨hfull, rfl, rfl⟩ | ⟨rfl, rfl⟩ :=
      Monitor.Entry.next_cases hnext
    · exact hroom rfl
    · exact hroom rfl
    · exact hroom rfl
    · -- the queue is neither over the limit nor at it
      have hle := hlimit t hj
      simp only [ThreadPool.isFull, beq_eq_false_iff_ne] at hfull
      simp only
      omega
    · exact hroom rfl

/-- A producer that has found room adds its task. -/
theorem push (h : s.Within) {j : ℕ} {t : τ} {wakes : Option ℕ} {workers : List (Worker τ)}
    (hj : s.pool.producers[j]? = some (.inside t .ready))
    (hnotify : notifyOne s.pool.workers wakes = some workers) :
    Within { s with pool := { s.pool with
      queue := s.pool.queue ++ [t], workers := workers
      producers := s.pool.producers.set j (.outside ())
      accepted := s.pool.accepted ++ [t] } } := by
  have hroom := h.room (List.countP_pos_iff.mpr ⟨_, List.mem_of_getElem? hj, rfl⟩)
  have hlimit := h.limit_le
  have hnone : (s.pool.producers.set j (.outside ())).countP isReady = 0 := by
    have hexcl := h.exclusive
    have hset := countP_set_add (p := holds) (b := .outside ()) hj
    have hready := ThreadPool.countP_isReady_le (s.pool.producers.set j (.outside ()))
    simp only [ThreadPool.holders, Monitor.holders, holds, Bool.toNat_true,
      Bool.toNat_false] at hexcl hset hready
    omega
  refine ⟨(ThreadPool.Move.push j t wakes workers hj hnotify).exclusive h.exclusive, hlimit, ?_, ?_⟩
  · simp only [Bounded, List.length_append, List.length_singleton]
    omega
  · intro hpos
    simp only [hnone] at hpos
    omega

/-- A worker takes a task from the queue. -/
theorem pop (h : s.Within) {i : ℕ} {t : τ} {queue : List τ} {wakes : Option ℕ}
    {producers : List (Producer τ)} (hi : s.pool.workers[i]? = some (.inside () .ready))
    (hqueue : s.pool.queue = t :: queue)
    (hnotify : notifyOne s.pool.producers wakes = some producers) :
    Within { s with pool := { s.pool with
      queue := queue, producers := producers
      workers := s.pool.workers.set i (.outside (.running t)) } } := by
  have hlength := h.length_le
  rw [Bounded, hqueue, List.length_cons] at hlength
  refine ⟨(ThreadPool.Move.pop i t queue wakes producers hi hqueue hnotify).exclusive h.exclusive,
    h.limit_le, ?_, ?_⟩
  · simp only [Bounded]
    omega
  · intro hpos
    -- the worker holds the mutex, so no producer is about to add
    have hexcl := h.exclusive
    have hholds : 0 < s.pool.workers.countP holds :=
      List.countP_pos_iff.mpr ⟨_, List.mem_of_getElem? hi, rfl⟩
    have hready := countP_notifyOne (p := isReady) (fun _ => rfl) hnotify
    have hle := ThreadPool.countP_isReady_le s.pool.producers
    simp only [ThreadPool.holders, Monitor.holders] at hexcl hholds hready hle hpos
    omega

/-- A step of the pool that respects the limit. -/
theorem pool {op : PoolOp τ} {pool : ThreadPool τ} (h : s.Within)
    (hlimit : s.LimitRespected (.pool op)) (hstep : ThreadPool.Step s.pool op pool) :
    Within { s with pool := pool } := by
  have hmove := ThreadPool.move_of_step hstep
  have hexcl := hmove.exclusive h.exclusive
  cases hmove with
  | start numThreads _ => exact h.congr hexcl rfl rfl le_rfl
  | put j t hj => exact h.congr hexcl rfl rfl (countP_set_le hj nofun)
  | produce j t e e' wakes hj hnext => exact h.produce hj hnext hlimit
  | push j t wakes workers hj hnotify => exact h.push hj hnotify
  | producerWakes j t hj => exact h.congr hexcl rfl rfl (countP_set_le hj nofun)
  | enter i _ _ _ => exact h.congr hexcl rfl rfl le_rfl
  | leave i _ _ _ => exact h.congr hexcl rfl rfl le_rfl
  | run i t _ _ => exact h.congr hexcl rfl rfl le_rfl
  | work i e e' _ _ _ => exact h.congr hexcl rfl rfl le_rfl
  | takeNone i _ _ _ => exact h.congr hexcl rfl rfl le_rfl
  | pop i t queue wakes producers hi hqueue hnotify => exact h.pop hi hqueue hnotify
  | workerWakes i _ => exact h.congr hexcl rfl rfl le_rfl
  | clearRunning _ => exact h.congr hexcl rfl rfl le_rfl
  | notifyAll _ => exact h.congr hexcl rfl rfl le_rfl
  | joinAll _ _ => exact h.congr hexcl rfl rfl le_rfl

/-- Every step that respects the limit keeps the pool within it. -/
theorem step {op : LimitOp τ} {s' : LimitedPool τ} (h : s.Within) (hlimit : s.LimitRespected op)
    (hstep : Step s op s') : s'.Within := by
  cases op with
  | pool op =>
    obtain ⟨pool, hpool, rfl⟩ := Option.map_eq_some_iff.mp hstep
    exact h.pool hlimit hpool
  | setMaxQueueSize maxSize =>
    obtain ⟨-, hset⟩ := Option.ite_none_right_eq_some.mp hstep
    obtain rfl := Option.some.inj hset
    have hlength := h.length_le
    refine ⟨h.exclusive, le_max_right _ _, ?_, hlimit⟩
    simp only [Bounded] at hlength ⊢
    omega

/-- A producer adds its task below the limit. -/
theorem addsBelow (h : s.Within) (op : LimitOp τ) : s.AddsBelow op := by
  cases op with
  | setMaxQueueSize maxSize => trivial
  | pool op =>
    cases op with
    | producer j wakes =>
      intro t hj
      exact h.room (List.countP_pos_iff.mpr ⟨_, List.mem_of_getElem? hj, rfl⟩)
    | _ => trivial

end Within

/-! ## What goes wrong otherwise -/

section

variable {s s' : LimitedPool τ}

/-- A producer that is about to add its task can do so at once. -/
theorem exists_push {j : ℕ} {t : τ} (hj : s.pool.producers[j]? = some (.inside t .ready)) :
    ∃ wakes s', Step s (.pool (.producer j wakes)) s' := by
  obtain ⟨wakes, workers, hnotify⟩ := exists_notifyOne s.pool.workers
  have hpush : (s.pool.step (.producer j wakes)).isSome := by
    simp [ThreadPool.step, ThreadPool.stepProducer, hj, ThreadPool.finishPut, hnotify]
  obtain ⟨pool, hpool⟩ := Option.isSome_iff_exists.mp hpush
  exact ⟨wakes, { s with pool := pool }, by simp [Step, step, hpool]⟩

/-- Behind a step that does not respect the limit there is a producer about to add its
task to a queue that holds as many tasks as the limit allows. -/
theorem exists_ready_of_not_respected {op : LimitOp τ} (hop : ¬ s.LimitRespected op)
    (hstep : Step s op s') :
    ∃ (j : ℕ) (t : τ), s'.pool.producers[j]? = some (.inside t .ready) ∧
      s'.pool.maxQueueSize ≤ s'.pool.queue.length := by
  cases op with
  | setMaxQueueSize maxSize =>
    obtain ⟨-, hset⟩ := Option.ite_none_right_eq_some.mp hstep
    obtain rfl := Option.some.inj hset
    simp only [LimitRespected, Classical.not_imp, not_lt] at hop
    obtain ⟨p, hp, hready⟩ := List.countP_pos_iff.mp hop.1
    obtain ⟨t, rfl⟩ := eq_of_isReady hready
    obtain ⟨j, hj⟩ := List.mem_iff_getElem?.mp hp
    exact ⟨j, t, hj, hop.2⟩
  | pool op =>
    cases op with
    | producer j wakes =>
      simp only [LimitRespected, not_forall, not_le] at hop
      obtain ⟨t, hj, hover⟩ := hop
      -- the lengths differ, so `isFull` says that there is room
      have hfull : s.pool.isFull = false := by
        simp only [ThreadPool.isFull, beq_eq_false_iff_ne]
        omega
      have hlt : j < s.pool.producers.length := (List.getElem?_eq_some_iff.mp hj).1
      simp only [Step, step, ThreadPool.step, ThreadPool.stepProducer, hj, Monitor.Entry.next,
        hfull, Bool.false_eq_true, if_false, Option.map_some, Option.some.injEq] at hstep
      subst hstep
      exact ⟨j, t, by simp [hlt], by simpa using hover.le⟩
    | _ => exact absurd trivial hop

end

/-! ## Runs -/

section

variable {producers : ℕ} {ops : List (LimitOp τ)}

/-- Runs that respect the limit stay within it. -/
theorem within_throughout (hlimit : Along Step LimitRespected (new producers) ops) :
    Throughout Step Within (new producers) ops :=
  throughout_of_preserved (fun _ _ _ h hop hstep => h.step hop hstep) (within_new producers) hlimit

/-- Runs that respect the limit are bounded. -/
theorem queueBounded_of_along (hlimit : Along Step LimitRespected (new producers) ops) :
    QueueBounded producers ops := by
  have hwithin := within_throughout hlimit
  refine ⟨hwithin.imp fun _ h => h.length_le, ?_⟩
  intro pre op s s' hpre hrun _
  exact (hwithin pre s ((List.prefix_append pre [op]).trans hpre) hrun).addsBelow op

/-- A call of `setMaxQueueSize` does not lower the limit. -/
def Raises (s : LimitedPool τ) : LimitOp τ → Prop
  | .pool _ => True
  | .setMaxQueueSize maxSize => s.pool.maxQueueSize ≤ maxSize

/-- At the largest limit so far, a step that does not lower it respects it. -/
theorem Within.limitRespected {s : LimitedPool τ} (h : s.Within)
    (hlargest : s.pool.maxQueueSize = s.largest) {op : LimitOp τ} (hop : s.Raises op) :
    s.LimitRespected op := by
  cases op with
  | setMaxQueueSize maxSize => exact fun hready => (h.room hready).trans_le hop
  | pool op =>
    cases op with
    | producer j wakes => exact fun _ _ => hlargest ▸ h.length_le
    | _ => trivial

/-- A limit that is never lowered is respected. -/
theorem limitRespected_of_raises (hraises : Along Step Raises (new producers) ops) :
    Along Step LimitRespected (new producers) ops := by
  have hlargest : Throughout Step (fun s => s.Within ∧ s.pool.maxQueueSize = s.largest)
      (new producers) ops := by
    refine throughout_of_preserved ?_ ⟨within_new producers, rfl⟩ hraises
    rintro s op s' ⟨hwithin, hlargest⟩ hop hstep
    refine ⟨hwithin.step (hwithin.limitRespected hlargest hop) hstep, ?_⟩
    cases op with
    | pool op =>
      obtain ⟨pool, hpool, rfl⟩ := Option.map_eq_some_iff.mp hstep
      exact (ThreadPool.maxQueueSize_of_step hpool).trans hlargest
    | setMaxQueueSize maxSize =>
      obtain ⟨-, hset⟩ := Option.ite_none_right_eq_some.mp hstep
      obtain rfl := Option.some.inj hset
      exact (max_eq_right (hlargest ▸ hop)).symm
  intro pre op s s' hpre hrun hstep
  obtain ⟨hwithin, hmax⟩ := hlargest pre s ((List.prefix_append pre [op]).trans hpre) hrun
  exact hwithin.limitRespected hmax (hraises pre op s s' hpre hrun hstep)

end

end LimitedPool

open LimitedPool

/-- **Bounded task queue.** In every run of producers, workers and calls of
`setMaxQueueSize` whose steps respect the limit, the queue is never longer than the
largest limit so far and every task is added below the limit. A run with a step that
does not can be cut off behind it and followed by a task added to a full queue. -/
theorem limitRespected_bounds_queue {τ : Type} (producers : ℕ) (ops : List (LimitOp τ)) :
    (Along Step LimitRespected (new producers) ops → QueueBounded producers ops) ∧
    (¬ Along Step LimitRespected (new producers) ops →
      ∃ pre j wakes, pre <+: ops ∧
        ¬ QueueBounded producers (pre ++ [.pool (.producer j wakes)])) := by
  refine ⟨queueBounded_of_along, ?_⟩
  intro hnot
  unfold Along at hnot
  push Not at hnot
  obtain ⟨pre, op, s, s', hpre, hrun, hstep, hop⟩ := hnot
  obtain ⟨j, t, hj, hfull⟩ := exists_ready_of_not_respected hop hstep
  obtain ⟨wakes, s'', hpush⟩ := exists_push hj
  refine ⟨pre ++ [op], j, wakes, hpre, ?_⟩
  rintro ⟨-, hadds⟩
  have hroom := hadds (pre ++ [op]) _ s' s'' List.prefix_rfl (hrun.snoc hstep) hpush t hj
  omega

/-- A producer puts a task into the queue while no worker sleeps. -/
def putOnce : List (LimitOp ℕ) :=
  [.pool (.put 0 7), .pool (.producer 0 none), .pool (.producer 0 none), .pool (.producer 0 none)]

/-- Two tasks are added, the limit is set to one, and some more tasks are added. -/
def growingOps (more : ℕ) : List (LimitOp ℕ) :=
  putOnce ++ putOnce ++ [.setMaxQueueSize 1] ++ (List.replicate more putOnce).flatten

/-- A pool without workers with some tasks in its queue. -/
def grownPool (length : ℕ) : LimitedPool ℕ where
  pool :=
    { maxQueueSize := 1, isRunning := false, queue := List.replicate length 7, workers := []
      producers := [.outside ()], stage := .constructed, accepted := List.replicate length 7
      ran := [] }
  largest := 20

/-- A queue over its limit takes another task. -/
theorem grownPool_putOnce {length : ℕ} (h : 2 ≤ length) :
    Run Step (grownPool length) putOnce (grownPool (length + 1)) := by
  have hfull : ¬ length = 1 := by omega
  refine run_iff_foldlM.mpr ?_
  simp [putOnce, step, ThreadPool.step, ThreadPool.stepProducer, ThreadPool.finishPut, grownPool,
    Monitor.Entry.next, ThreadPool.locked, ThreadPool.holders, Monitor.holders, holds,
    ThreadPool.isFull, hfull, notifyOne, List.replicate_succ']

/-- The queue grows as long as tasks are added. -/
theorem run_growingOps (more : ℕ) : Run Step (new 1) (growingOps more) (grownPool (more + 2)) := by
  have hstart : Run Step (new 1) (putOnce ++ putOnce ++ [.setMaxQueueSize 1]) (grownPool 2) :=
    run_iff_foldlM.mpr (by decide)
  refine hstart.append ?_
  induction more with
  | zero => exact Run.nil _
  | succ more ih =>
    rw [List.replicate_succ', List.flatten_append, List.flatten_singleton]
    exact ih.append (grownPool_putOnce (by omega))

/-- With nineteen tasks added behind the change of the limit, the queue holds
twenty-one, more than the largest limit of twenty. -/
theorem queue_over_every_limit :
    Run Step (new 1) (growingOps 19) (grownPool 21) ∧ ¬ QueueBounded 1 (growingOps 19) := by
  refine ⟨run_growingOps 19, ?_⟩
  rintro ⟨hbounded, -⟩
  have hlength := hbounded _ _ List.prefix_rfl (run_growingOps 19)
  simp [Bounded, grownPool] at hlength

end ThriftProxy
