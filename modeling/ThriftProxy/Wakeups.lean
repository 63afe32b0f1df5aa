import ThriftProxy.ThreadPool

/-!
# No lost wakeup

`put` and `take` notify one thread on the other side's condition variable. The
counting invariant `Balanced` holds of both sides at once: no task lies in the
queue, and no slot is free, for which no thread is on its way while another
sleeps. Late arrivals and spurious wakeups do not break it.
-/

namespace ThriftProxy

open Transition Monitor Thread

namespace ThreadPool

variable {τ : Type}

/-- Both sides of the queue are served. -/
structure Balanced (s : ThreadPool τ) : Prop where
  /-- The mutex excludes. -/
  exclusive : s.holders ≤ 1
  /-- The queue is bounded. -/
  capacity : s.queue.length ≤ s.maxQueueSize
  /-- A producer that has found the queue not full has room. -/
  room : 0 < s.producers.countP isReady → s.queue.length < s.maxQueueSize
  /-- The workers wait for tasks. -/
  workers : Served s.workers s.queue.length
  /-- The producers wait for free slots. -/
  producers : Served s.producers (s.maxQueueSize - s.queue.length)

/-- A thread that is about to sleep holds the mutex. -/
theorem countP_isBlocked_le {α β : Type} (threads : List (Thread α β)) :
    threads.countP isBlocked ≤ Monitor.holders threads := by
  apply List.countP_mono_left
  intro t _ ht
  match t with
  | .inside _ .blocked => rfl

/-- A thread that has found the wait condition false holds the mutex. -/
theorem countP_isReady_le {α β : Type} (threads : List (Thread α β)) :
    threads.countP isReady ≤ Monitor.holders threads := by
  apply List.countP_mono_left
  intro t _ ht
  match t with
  | .inside _ .ready => rfl

/-- The mutex is taken only when it is free. -/
theorem exclusive_of_le {s : ThreadPool τ} (h : s.holders ≤ 1) {n : ℕ}
    (hn : n ≤ s.holders + (!s.locked).toNat) : n ≤ 1 := by
  unfold locked at hn
  by_cases hpos : 0 < s.holders
  · simp only [hpos, decide_true, Bool.not_true, Bool.toNat_false] at hn
    omega
  · simp only [hpos, decide_false, Bool.not_false, Bool.toNat_true] at hn
    omega

/-- Threads outside the critical section are counted at no place of it. -/
theorem countP_replicate_outside {α β : Type} {p : Thread α β → Bool} {a : α}
    (hp : p (.outside a) = false) (n : ℕ) :
    (List.replicate n (.outside a : Thread α β)).countP p = 0 := by
  simp [List.countP_replicate, hp]

/-- Threads outside the critical section are served, however few units there are. -/
theorem served_replicate_outside {α β : Type} (a : α) (n units : ℕ) :
    Served (List.replicate n (.outside a : Thread α β)) units where
  enough hpos := by
    rw [countP_replicate_outside rfl] at hpos
    omega
  blocked hpos := by
    rw [countP_replicate_outside rfl] at hpos
    omega

/-- A change of one producer that does not take the mutex. -/
theorem exclusive_set_producer {s : ThreadPool τ} (h : s.holders ≤ 1) {j : ℕ} {p p' : Producer τ}
    (hj : s.producers[j]? = some p) (hholds : p'.holds = true → p.holds = true) :
    Monitor.holders s.workers + Monitor.holders (s.producers.set j p') ≤ 1 := by
  have hle := countP_set_le hj hholds
  simp only [holders, Monitor.holders] at h hle ⊢
  omega

/-- A change of one worker that does not take the mutex. -/
theorem exclusive_set_worker {s : ThreadPool τ} (h : s.holders ≤ 1) {i : ℕ} {w w' : Worker τ}
    (hi : s.workers[i]? = some w) (hholds : w'.holds = true → w.holds = true) :
    Monitor.holders (s.workers.set i w') + Monitor.holders s.producers ≤ 1 := by
  have hle := countP_set_le hi hholds
  simp only [holders, Monitor.holders] at h hle ⊢
  omega

/-- A notification takes no mutex. -/
theorem holders_notifyOne {α β : Type} {threads threads' : List (Thread α β)} {wakes : Option ℕ}
    (h : notifyOne threads wakes = some threads') :
    Monitor.holders threads' = Monitor.holders threads :=
  countP_notifyOne (fun _ => rfl) h

/-- No step lets a second thread hold the mutex. -/
theorem Move.exclusive {s s' : ThreadPool τ} {op : PoolOp τ} (hmove : s.Move op s')
    (h : s.holders ≤ 1) : s'.holders ≤ 1 := by
  cases hmove with
  | start numThreads _ =>
    simp only [holders, Monitor.holders] at h ⊢
    rw [countP_replicate_outside rfl]
    omega
  | put j t hj => exact exclusive_set_producer h hj nofun
  | produce j t e e' _ hj hnext =>
    have hle := holders_set_next hj hnext
    apply exclusive_of_le h
    simp only [holders] at hle ⊢
    omega
  | push j t _ workers hj hnotify =>
    have hset : Monitor.holders s.workers +
        Monitor.holders (s.producers.set j (.outside ())) ≤ 1 :=
      exclusive_set_producer h hj nofun
    simp only [holders, holders_notifyOne hnotify]
    exact hset
  | producerWakes j t hj => exact exclusive_set_producer h hj nofun
  | enter i _ hi _ => exact exclusive_set_worker h hi nofun
  | leave i _ hi _ => exact exclusive_set_worker h hi nofun
  | run i t _ hi => exact exclusive_set_worker h hi nofun
  | work i e e' _ hi hnext =>
    have hle := holders_set_next hi hnext
    apply exclusive_of_le h
    simp only [holders] at hle ⊢
    omega
  | takeNone i _ hi _ => exact exclusive_set_worker h hi nofun
  | pop i t queue _ producers hi _ hnotify =>
    have hset : Monitor.holders (s.workers.set i (.outside (.running t))) +
        Monitor.holders s.producers ≤ 1 :=
      exclusive_set_worker h hi nofun
    simp only [holders, holders_notifyOne hnotify]
    exact hset
  | workerWakes i hi => exact exclusive_set_worker h hi nofun
  | clearRunning _ => exact h
  | notifyAll _ =>
    simp only [holders, Monitor.holders] at h ⊢
    rwa [countP_notifyAll (fun _ => rfl)]
  | joinAll _ _ => exact h

/-- A pool without workers and tasks is balanced. -/
theorem balanced_new (maxQueueSize producers : ℕ) :
    (new maxQueueSize producers : ThreadPool τ).Balanced where
  exclusive := by
    simp only [holders, Monitor.holders, new, List.countP_nil]
    rw [countP_replicate_outside rfl]
    omega
  capacity := Nat.zero_le _
  room hpos := by
    simp only [new] at hpos
    rw [countP_replicate_outside rfl] at hpos
    omega
  workers := ⟨by simp [new], by simp [new]⟩
  producers := served_replicate_outside _ _ _

namespace Balanced

/-- A change of one producer that leaves the counted places alone. -/
theorem set_producer {s : ThreadPool τ} (h : s.Balanced) {j : ℕ} {p p' : Producer τ}
    (hj : s.producers[j]? = some p) (hholds : p'.holds = true → p.holds = true)
    (hready : p'.isReady = true → p.isReady = true)
    (hasleep : p'.isAsleep = true → p.isAsleep = true)
    (hserving : p.isServing = true → p'.isServing = true)
    (hblocked : p'.isBlocked = true → p.isBlocked = true) :
    Balanced { s with producers := s.producers.set j p' } where
  exclusive := exclusive_set_producer h.exclusive hj hholds
  capacity := h.capacity
  room hpos := h.room (Nat.lt_of_lt_of_le hpos (countP_set_le hj hready))
  workers := h.workers
  producers := h.producers.set hj hasleep hserving hblocked

/-- A change of one worker that leaves the counted places alone. -/
theorem set_worker {s : ThreadPool τ} (h : s.Balanced) {i : ℕ} {w w' : Worker τ}
    (hi : s.workers[i]? = some w) (hholds : w'.holds = true → w.holds = true)
    (hasleep : w'.isAsleep = true → w.isAsleep = true)
    (hserving : w.isServing = true → w'.isServing = true)
    (hblocked : w'.isBlocked = true → w.isBlocked = true) :
    Balanced { s with workers := s.workers.set i w' } where
  exclusive := exclusive_set_worker h.exclusive hi hholds
  capacity := h.capacity
  room := h.room
  workers := h.workers.set hi hasleep hserving hblocked
  producers := h.producers

/-- A producer moves on in the wait loop. -/
theorem produce {s : ThreadPool τ} (h : s.Balanced) {j : ℕ} {t : τ} {e e' : Monitor.Entry}
    (hj : s.producers[j]? = some (.inside t e)) (hnext : e.next s.locked s.isFull = some e') :
    Balanced { s with producers := s.producers.set j (.inside t e') } where
  exclusive := (Move.produce j t e e' none hj hnext).exclusive h.exclusive
  capacity := h.capacity
  room hpos := by
    have hcapacity := h.capacity
    have hroom : (Thread.inside t e' : Producer τ).isReady = false →
        s.queue.length < s.maxQueueSize := by
      intro hnot
      have hless := countP_set_le hj fun hready => absurd (hnot.symm.trans hready) nofun
      exact h.room (Nat.lt_of_lt_of_le hpos hless)
    obtain ⟨-, rfl, rfl⟩ | ⟨-, ⟨_, rfl⟩, rfl⟩ | ⟨-, rfl, rfl⟩ | ⟨hfull, rfl, rfl⟩ | ⟨rfl, rfl⟩ :=
      Monitor.Entry.next_cases hnext
    · exact hroom rfl
    · exact hroom rfl
    · exact hroom rfl
    · simp only [isFull, beq_eq_false_iff_ne] at hfull
      simp only
      omega
    · exact hroom rfl
  workers := h.workers
  producers := by
    apply h.producers.set_next hj hnext
    intro hfull
    simp only [isFull, beq_iff_eq] at hfull
    omega

/-- A worker moves on in the wait loop. -/
theorem work {s : ThreadPool τ} (h : s.Balanced) {i : ℕ} {e e' : Monitor.Entry}
    (hi : s.workers[i]? = some (.inside () e))
    (hnext : e.next s.locked (s.isEmpty && s.isRunning) = some e') :
    Balanced { s with workers := s.workers.set i (.inside () e') } where
  exclusive := (Move.work i e e' none hi hnext).exclusive h.exclusive
  capacity := h.capacity
  room := h.room
  workers := by
    apply h.workers.set_next hi hnext
    intro hempty
    simp only [isEmpty, Bool.and_eq_true, List.isEmpty_iff] at hempty
    simp [hempty.1]
  producers := h.producers

/-- A producer puts its task into the queue and notifies a worker. -/
theorem push {s : ThreadPool τ} (h : s.Balanced) {j : ℕ} {t : τ} {wakes : Option ℕ}
    {workers : List (Worker τ)} (hj : s.producers[j]? = some (.inside t .ready))
    (hnotify : notifyOne s.workers wakes = some workers) :
    Balanced { s with
      queue := s.queue ++ [t], workers := workers
      producers := s.producers.set j (.outside ()), accepted := s.accepted ++ [t] } := by
  have hexcl := h.exclusive
  have hcount := countP_set_add (p := holds) (b := .outside ()) hj
  have hready := countP_isReady_le (s.producers.set j (.outside ()))
  have hblocked := countP_isBlocked_le s.workers
  have hworkers := countP_notifyOne (p := holds) (fun _ => rfl) hnotify
  simp only [holders, Monitor.holders, holds, Bool.toNat_true, Bool.toNat_false] at *
  have hroom := h.room (List.countP_pos_iff.mpr ⟨_, List.mem_of_getElem? hj, rfl⟩)
  constructor
  · simp only [holders, Monitor.holders]
    omega
  · simp only [List.length_append, List.length_singleton]
    omega
  · intro hpos
    simp only at hpos
    omega
  · have hsupply := h.workers.supply (by omega) hnotify
    simpa using hsupply
  · have hfetch := h.producers.fetch (a := ()) hj
    simpa [Nat.sub_sub] using hfetch

/-- A worker takes the first task of the queue and notifies a producer. -/
theorem pop {s : ThreadPool τ} (h : s.Balanced) {i : ℕ} {t : τ} {queue : List τ}
    {wakes : Option ℕ} {producers : List (Producer τ)}
    (hi : s.workers[i]? = some (.inside () .ready)) (hqueue : s.queue = t :: queue)
    (hnotify : notifyOne s.producers wakes = some producers) :
    Balanced { s with
      queue := queue, producers := producers
      workers := s.workers.set i (.outside (.running t)) } := by
  have hexcl := h.exclusive
  have hcapacity := h.capacity
  have hcount := countP_set_add (p := holds) (b := .outside (.running t)) hi
  have hready := countP_notifyOne (p := isReady) (fun _ => rfl) hnotify
  have hblocked := countP_isBlocked_le s.producers
  have hproducers := countP_notifyOne (p := holds) (fun _ => rfl) hnotify
  simp only [hqueue, List.length_cons] at hcapacity
  simp only [holders, Monitor.holders, holds, Bool.toNat_true, Bool.toNat_false] at *
  constructor
  · simp only [holders, Monitor.holders]
    omega
  · simp only
    omega
  · intro _
    simp only
    omega
  · have hfetch := h.workers.fetch (a := .running t) hi
    simpa [hqueue] using hfetch
  · have hsupply := h.producers.supply (by omega) hnotify
    rw [hqueue, List.length_cons] at hsupply
    rwa [show s.maxQueueSize - (queue.length + 1) + 1 = s.maxQueueSize - queue.length by omega]
      at hsupply

/-- The threads that `start` creates are outside their critical section. -/
theorem start {s : ThreadPool τ} (h : s.Balanced) (numThreads : ℕ) :
    Balanced { s with
      isRunning := true, stage := .started
      workers := List.replicate numThreads (.outside .looping) } where
  exclusive := by
    have hexcl := h.exclusive
    simp only [holders, Monitor.holders] at hexcl ⊢
    rw [countP_replicate_outside rfl]
    omega
  capacity := h.capacity
  room := h.room
  workers := served_replicate_outside _ _ _
  producers := h.producers

/-- The notification of `stop` leaves no worker asleep. -/
theorem notifyAll {s : ThreadPool τ} (h : s.Balanced) :
    Balanced { s with workers := Monitor.notifyAll s.workers, stage := .notified } where
  exclusive := by
    have hexcl := h.exclusive
    simp only [holders, Monitor.holders] at hexcl ⊢
    rwa [countP_notifyAll (fun _ => rfl)]
  capacity := h.capacity
  room := h.room
  workers := h.workers.notifyAll
  producers := h.producers

/-- A worker that finds the queue empty leaves with nothing. -/
theorem takeNone {s : ThreadPool τ} (h : s.Balanced) {i : ℕ}
    (hi : s.workers[i]? = some (.inside () .ready)) (hqueue : s.queue = []) :
    Balanced { s with workers := s.workers.set i (.outside .looping) } where
  exclusive := (Move.takeNone i none hi hqueue).exclusive h.exclusive
  capacity := h.capacity
  room := h.room
  workers := by
    have hfetch := h.workers.fetch (a := WorkerAt.looping) hi
    simpa [hqueue] using hfetch
  producers := h.producers

/-- Every step keeps both sides of the queue served. -/
theorem step {s s' : ThreadPool τ} {op : PoolOp τ} (h : s.Balanced) (hstep : Step s op s') :
    s'.Balanced := by
  cases move_of_step hstep with
  | start numThreads hstage => exact h.start numThreads
  | put j t hj => exact h.set_producer hj nofun nofun nofun nofun nofun
  | produce j t e e' wakes hj hnext => exact h.produce hj hnext
  | push j t wakes workers hj hnotify => exact h.push hj hnotify
  | producerWakes j t hj => exact h.set_producer hj nofun nofun nofun nofun nofun
  | enter i wakes hi hrunning => exact h.set_worker hi nofun nofun nofun nofun
  | leave i wakes hi hrunning => exact h.set_worker hi nofun nofun nofun nofun
  | run i t wakes hi =>
    have hset : Balanced { s with workers := s.workers.set i (.outside .looping) } :=
      h.set_worker hi nofun nofun nofun nofun
    exact ⟨hset.exclusive, hset.capacity, hset.room, hset.workers, hset.producers⟩
  | work i e e' wakes hi hnext => exact h.work hi hnext
  | takeNone i wakes hi hqueue => exact h.takeNone hi hqueue
  | pop i t queue wakes producers hi hqueue hnotify => exact h.pop hi hqueue hnotify
  | workerWakes i hi => exact h.set_worker hi nofun nofun nofun nofun
  | clearRunning hstage => exact ⟨h.exclusive, h.capacity, h.room, h.workers, h.producers⟩
  | notifyAll hstage => exact h.notifyAll
  | joinAll hstage hdone => exact ⟨h.exclusive, h.capacity, h.room, h.workers, h.producers⟩

end Balanced

/-- Every reachable state is balanced. -/
theorem balanced_of_run {maxQueueSize producers : ℕ} {ops : List (PoolOp τ)} {s : ThreadPool τ}
    (hrun : Run Step (new maxQueueSize producers) ops s) : s.Balanced :=
  hrun.invariant (fun _ _ _ h hstep => h.step hstep) (balanced_new maxQueueSize producers)

/-- No step changes the queue limit. -/
theorem maxQueueSize_of_step {s s' : ThreadPool τ} {op : PoolOp τ} (hstep : Step s op s') :
    s'.maxQueueSize = s.maxQueueSize := by
  cases move_of_step hstep <;> rfl

/-- The queue limit is fixed. -/
theorem maxQueueSize_of_run {maxQueueSize producers : ℕ} {ops : List (PoolOp τ)} {s : ThreadPool τ}
    (hrun : Run Step (new maxQueueSize producers) ops s) : s.maxQueueSize = maxQueueSize := by
  refine hrun.invariant (I := fun s => s.maxQueueSize = maxQueueSize) ?_ rfl
  intro s op s' h hstep
  exact (maxQueueSize_of_step hstep).trans h

end ThreadPool

/-- **No lost wakeup.** In every reachable state between critical sections, if a
worker sleeps un-notified, the queue holds no more tasks than there are workers
notified and not yet resumed; the same holds of the producers and the free
slots; and no task is queued while a worker sleeps and no wakeup is pending. -/
theorem no_lost_wakeup {τ : Type} {maxQueueSize producers : ℕ} {ops : List (PoolOp τ)}
    {s : ThreadPool τ} (hrun : Run ThreadPool.Step (.new maxQueueSize producers) ops s)
    (hfree : s.holders = 0) :
    (0 < s.workers.countP isAsleep → s.queue.length ≤ s.workers.countP isNotified) ∧
    (0 < s.producers.countP isAsleep →
      maxQueueSize - s.queue.length ≤ s.producers.countP isNotified) ∧
    (s.queue ≠ [] → s.workers.countP isNotified = 0 → s.workers.countP isAsleep = 0) := by
  have hbalanced := ThreadPool.balanced_of_run hrun
  have hworkers : Monitor.holders s.workers = 0 := by
    simp only [ThreadPool.holders] at hfree
    omega
  have hproducers : Monitor.holders s.producers = 0 := by
    simp only [ThreadPool.holders] at hfree
    omega
  have htasks := hbalanced.workers.enough
  have hslots := hbalanced.producers.enough
  rw [countP_isServing_of_free hworkers] at htasks
  rw [countP_isServing_of_free hproducers, ThreadPool.maxQueueSize_of_run hrun] at hslots
  refine ⟨htasks, hslots, ?_⟩
  intro hqueue hnone
  by_contra hasleep
  have hlength := List.length_pos_of_ne_nil hqueue
  have := htasks (by omega)
  omega

/-- A pool whose only worker sleeps while a producer calls `put`. -/
def sleepingPool : ThreadPool ℕ :=
  { maxQueueSize := 1, isRunning := true, queue := [], workers := [.inside () .asleep],
    producers := [.inside 7 .locking], stage := .started, accepted := [], ran := [] }

/-- The invariant where the only worker sleeps on an empty queue. -/
theorem no_lost_wakeup_sleepingPool :
    sleepingPool.workers.countP isAsleep = 1 ∧
      sleepingPool.queue.length ≤ sleepingPool.workers.countP isNotified := by
  have hrun : Run ThreadPool.Step (.new 1 1) [.start 1, .worker 0 none, .worker 0 none,
      .worker 0 none, .worker 0 none, .put 0 7] sleepingPool := run_iff_foldlM.mpr (by decide)
  exact ⟨by decide, (no_lost_wakeup hrun (by decide)).1 (by decide)⟩

end ThriftProxy
