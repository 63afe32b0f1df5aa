import ThriftProxy.Wakeups

/-!
# Stopping the thread pool

`stop` clears `is_running_` and notifies the workers without the mutex that
protects the wait condition. A worker that has evaluated the condition before
and enters the wait after is never woken by it. And since the loop of
`runInThread` ends with the flag, a worker takes at most one more task, so what
is left of the queue depends on how many workers are in `take` at that moment.
-/

namespace ThriftProxy

open Transition Monitor Thread

namespace ThreadPool

variable {τ : Type}

/-! ## Workers that sleep for good -/

/-- `stop` has notified the workers, and one of them sleeps un-notified. -/
def Stranded (s : ThreadPool τ) : Prop :=
  (s.stage = .notified ∨ s.stage = .joined) ∧ 0 < s.workers.countP isAsleep

/-- No worker stands between the evaluation of the wait condition and the entry
into the wait when `stop` notifies the workers. -/
def NoneBetween (s : ThreadPool τ) (op : PoolOp τ) : Prop :=
  op = .notifyAll → s.workers.countP isBlocked = 0

/-- The flag follows the stage, and behind the notification of `stop` no worker
sleeps or is about to. -/
structure Awake (s : ThreadPool τ) : Prop where
  /-- The flag is set between `start` and `stop`. -/
  flag : s.isRunning = true → s.stage = .started
  /-- Nobody sleeps behind the notification. -/
  awake : s.stage = .notified ∨ s.stage = .joined →
    s.workers.countP isAsleep = 0 ∧ s.workers.countP isBlocked = 0

/-- A new pool has no workers. -/
theorem awake_new (maxQueueSize producers : ℕ) :
    (new maxQueueSize producers : ThreadPool τ).Awake :=
  ⟨nofun, nofun⟩

namespace Awake

/-- Workers fewer of which sleep or are about to. -/
theorem mono {s s' : ThreadPool τ} (h : s.Awake) (hflag : s'.isRunning = s.isRunning)
    (hstage : s'.stage = s.stage)
    (hasleep : s'.workers.countP isAsleep ≤ s.workers.countP isAsleep)
    (hblocked : s'.workers.countP isBlocked ≤ s.workers.countP isBlocked) : s'.Awake where
  flag hrunning := by
    rw [hstage]
    exact h.flag (hflag ▸ hrunning)
  awake hpast := by
    rw [hstage] at hpast
    have := h.awake hpast
    omega

/-- A change of one worker that neither sleeps nor is about to. -/
theorem set {s : ThreadPool τ} (h : s.Awake) {i : ℕ} {w w' : Worker τ} (ran queue : List τ)
    (producers : List (Producer τ)) (hi : s.workers[i]? = some w)
    (hasleep : w'.isAsleep = false) (hblocked : w'.isBlocked = false) :
    Awake { s with workers := s.workers.set i w', ran := ran, queue := queue,
                   producers := producers } :=
  h.mono rfl rfl (countP_set_le hi (by simp [hasleep])) (countP_set_le hi (by simp [hblocked]))

/-- Once the flag is cleared, no worker finds the wait condition true. -/
theorem work {s : ThreadPool τ} (h : s.Awake) {i : ℕ} {e e' : Monitor.Entry}
    (hi : s.workers[i]? = some (.inside () e))
    (hnext : e.next s.locked (s.isEmpty && s.isRunning) = some e') :
    Awake { s with workers := s.workers.set i (.inside () e') } := by
  obtain ⟨-, rfl, rfl⟩ | ⟨-, ⟨_, rfl⟩, rfl⟩ | ⟨hcondition, rfl, rfl⟩ | ⟨-, rfl, rfl⟩ |
    ⟨rfl, rfl⟩ := Monitor.Entry.next_cases hnext
  · exact h.set _ _ _ hi rfl rfl
  · exact h.set _ _ _ hi rfl rfl
  · -- The flag is still set, so `stop` has not begun.
    rw [Bool.and_eq_true] at hcondition
    have hstage := h.flag hcondition.2
    refine ⟨h.flag, ?_⟩
    intro hpast
    simp only [hstage] at hpast
    rcases hpast with hpast | hpast <;> cases hpast
  · exact h.set _ _ _ hi rfl rfl
  · -- Behind the notification nobody is about to sleep.
    refine ⟨h.flag, ?_⟩
    intro hpast
    have hblocked := (h.awake hpast).2
    have hpos : 0 < s.workers.countP isBlocked :=
      List.countP_pos_iff.mpr ⟨_, List.mem_of_getElem? hi, rfl⟩
    omega

/-- Every step that meets the condition keeps the workers awake. -/
theorem step {s s' : ThreadPool τ} {op : PoolOp τ} (h : s.Awake) (hop : s.NoneBetween op)
    (hstep : Step s op s') : s'.Awake := by
  cases move_of_step hstep with
  | start numThreads hstage => exact ⟨fun _ => rfl, by simp⟩
  | put j t hj => exact h.mono rfl rfl le_rfl le_rfl
  | produce j t e e' wakes hj hnext => exact h.mono rfl rfl le_rfl le_rfl
  | push j t wakes workers hj hnotify =>
    refine h.mono rfl rfl ?_ (countP_notifyOne (fun _ => rfl) hnotify).le
    obtain ⟨rfl, -⟩ | ⟨k, b, hk, rfl⟩ := notifyOne_cases hnotify
    · exact le_rfl
    · exact countP_set_le hk nofun
  | producerWakes j t hj => exact h.mono rfl rfl le_rfl le_rfl
  | enter i wakes hi hrunning => exact h.set _ _ _ hi rfl rfl
  | leave i wakes hi hrunning => exact h.set _ _ _ hi rfl rfl
  | run i t wakes hi => exact h.set _ _ _ hi rfl rfl
  | work i e e' wakes hi hnext => exact h.work hi hnext
  | takeNone i wakes hi hqueue => exact h.set _ _ _ hi rfl rfl
  | pop i t queue wakes producers hi hqueue hnotify => exact h.set _ _ _ hi rfl rfl
  | workerWakes i hi => exact h.set _ _ _ hi rfl rfl
  | clearRunning hstage => exact ⟨nofun, by simp⟩
  | notifyAll hstage =>
    refine ⟨?_, fun _ => ⟨countP_isAsleep_notifyAll _, ?_⟩⟩
    · intro hrunning
      rw [h.flag hrunning] at hstage
      cases hstage
    · rw [countP_notifyAll (fun _ => rfl)]
      exact hop rfl
  | joinAll hstage hdone =>
    refine ⟨?_, fun _ => h.awake (Or.inl hstage)⟩
    intro hrunning
    rw [h.flag hrunning] at hstage
    cases hstage

end Awake

/-- A worker that has found the wait condition true goes to sleep next. -/
theorem step_of_blocked {s : ThreadPool τ} {i : ℕ} (wakes : Option ℕ)
    (hi : s.workers[i]? = some (.inside () .blocked)) :
    Step s (.worker i wakes) { s with workers := s.workers.set i (.inside () .asleep) } := by
  simp only [Step, step, stepWorker, hi, Monitor.Entry.next, Option.map_some]

/-- A worker that stands between its check and its wait when `stop` notifies the
workers goes to sleep after it. -/
theorem stranded_of_between {s s' : ThreadPool τ} (hstep : Step s .notifyAll s')
    (hbetween : ¬ s.NoneBetween .notifyAll) :
    ∃ op s'', Step s' op s'' ∧ s''.Stranded := by
  have hpos : 0 < s.workers.countP isBlocked := by
    by_contra hzero
    exact hbetween fun _ => by omega
  obtain ⟨w, hmem, hblocked⟩ := List.countP_pos_iff.mp hpos
  obtain ⟨i, hi⟩ := List.mem_iff_getElem?.mp hmem
  cases move_of_step hstep with
  | notifyAll hstage =>
    match w with
    | .inside () .blocked =>
      have hi' : (Monitor.notifyAll s.workers)[i]? = some (.inside () .blocked) := by
        rw [Monitor.notifyAll, List.getElem?_map, hi]
        rfl
      refine ⟨_, _, step_of_blocked none hi', Or.inl rfl, ?_⟩
      refine List.countP_pos_iff.mpr ⟨.inside () .asleep, ?_, rfl⟩
      exact List.mem_set (List.getElem?_eq_some_iff.mp hi').1 _

end ThreadPool

/-- **Stopping strands no worker**, in every run in which no worker stands
between its check of the wait condition and its wait when `stop` notifies the
workers; and wherever one does, its next step strands it. -/
theorem never_stranded_of_noneBetween {τ : Type} (maxQueueSize producers : ℕ)
    (ops : List (PoolOp τ)) :
    (Along ThreadPool.Step ThreadPool.NoneBetween (.new maxQueueSize producers) ops →
      Throughout ThreadPool.Step (fun s => ¬ s.Stranded) (.new maxQueueSize producers) ops) ∧
    (∀ s s' : ThreadPool τ, Run ThreadPool.Step (.new maxQueueSize producers) ops s →
      ThreadPool.Step s .notifyAll s' → ¬ s.NoneBetween .notifyAll →
      ∃ op s'', ThreadPool.Step s' op s'' ∧ s''.Stranded) := by
  constructor
  · intro halong
    have hawake := throughout_of_preserved (I := ThreadPool.Awake)
      (fun _ _ _ h hop hstep => h.step hop hstep)
      (ThreadPool.awake_new maxQueueSize producers) halong
    refine Throughout.imp hawake ?_
    rintro s h ⟨hpast, hasleep⟩
    have := (h.awake hpast).1
    omega
  · intro s s' _ hstep hbetween
    exact ThreadPool.stranded_of_between hstep hbetween

/-- A worker about to wait on the empty queue when `stop` clears the flag. -/
def strandingOps : List (PoolOp ℕ) :=
  [.start 1, .worker 0 none, .worker 0 none, .worker 0 none, .clearRunning, .notifyAll,
    .worker 0 none]

/-- The pool whose only worker sleeps for good. -/
def strandedPool : ThreadPool ℕ :=
  { maxQueueSize := 20, isRunning := false, queue := [], workers := [.inside () .asleep],
    producers := [], stage := .notified, accepted := [], ran := [] }

/-- One worker, no task: the notification of `stop` comes between the worker's
check and its wait. -/
theorem strandedPool_reached :
    Run ThreadPool.Step (.new 20 0) strandingOps strandedPool ∧ strandedPool.Stranded :=
  ⟨run_iff_foldlM.mpr (by decide), Or.inl rfl, by decide⟩

/-- The condition and its consequence on a run whose worker waits on the empty queue when
`stop` is called. -/
theorem never_stranded_of_noneBetween_waiting :
    Throughout ThreadPool.Step (fun s => ¬ s.Stranded) (.new 20 0 : ThreadPool ℕ)
      [.start 1, .worker 0 none, .worker 0 none, .worker 0 none, .worker 0 none, .clearRunning,
        .notifyAll] := by
  refine (never_stranded_of_noneBetween 20 0 _).1 ?_
  refine along_cons.mpr ?_
  rintro _ ⟨⟩
  refine ⟨nofun, along_cons.mpr ?_⟩
  rintro _ ⟨⟩
  refine ⟨nofun, along_cons.mpr ?_⟩
  rintro _ ⟨⟩
  refine ⟨nofun, along_cons.mpr ?_⟩
  rintro _ ⟨⟩
  refine ⟨nofun, along_cons.mpr ?_⟩
  rintro _ ⟨⟩
  refine ⟨nofun, along_cons.mpr ?_⟩
  rintro _ ⟨⟩
  refine ⟨nofun, along_cons.mpr ?_⟩
  rintro _ ⟨⟩
  exact ⟨fun _ => by decide, along_nil⟩

/-! ## Tasks left behind -/

namespace ThreadPool

variable {τ : Type}

section

variable [DecidableEq τ]

/-- The worker runs a task. -/
def runs (t : τ) : Worker τ → Bool
  | .outside (.running u) => u == t
  | _ => false

/-- An account of the workers and of the tasks. -/
structure Accounted (s : ThreadPool τ) : Prop where
  /-- There are no workers before `start`. -/
  fresh : s.stage = .constructed → s.workers = []
  /-- All workers have left the loop when `stop` returns. -/
  joined : s.stage = .joined → s.workers.all isDone = true
  /-- Every accepted task has been run, is being run or is queued. -/
  tasks : ∀ t, s.accepted.count t =
    s.ran.count t + s.workers.countP (runs t) + s.queue.count t

/-- A new pool has no tasks. -/
theorem accounted_new (maxQueueSize producers : ℕ) :
    (new maxQueueSize producers : ThreadPool τ).Accounted :=
  ⟨fun _ => rfl, nofun, fun _ => rfl⟩

namespace Accounted

/-- The count of a task in a list that another task has been added to. -/
theorem count_concat (l : List τ) (t u : τ) :
    (l ++ [t]).count u = l.count u + (t == u).toNat := by
  rw [List.count_append, List.count_singleton]
  cases t == u <;> rfl

/-- A worker that has not left the loop takes a step that keeps account of the tasks. -/
theorem set {s : ThreadPool τ} (h : s.Accounted) {i : ℕ} {w w' : Worker τ}
    {ran queue : List τ} {producers : List (Producer τ)} (hi : s.workers[i]? = some w)
    (hw : isDone w = false)
    (htasks : ∀ t, ran.count t + (runs t w').toNat + queue.count t =
      s.ran.count t + (runs t w).toNat + s.queue.count t) :
    Accounted { s with workers := s.workers.set i w', ran := ran, queue := queue,
                       producers := producers } where
  fresh hstage := by
    rw [h.fresh hstage] at hi
    cases hi
  joined hstage := by
    have hdone := List.all_eq_true.mp (h.joined hstage) w (List.mem_of_getElem? hi)
    rw [hw] at hdone
    cases hdone
  tasks t := by
    have hset := countP_set_add (p := runs t) (b := w') hi
    have ht := h.tasks t
    have hstep := htasks t
    simp only
    omega

/-- A worker moves on in `take`. -/
theorem set_inside {s : ThreadPool τ} (h : s.Accounted) {i : ℕ} {w w' : Worker τ}
    (hi : s.workers[i]? = some w) (hw : isDone w = false) (hruns : ∀ t, runs t w = false)
    (hruns' : ∀ t, runs t w' = false) :
    Accounted { s with workers := s.workers.set i w' } :=
  h.set hi hw fun t => by rw [hruns, hruns']

/-- A producer puts its task into the queue. -/
theorem push {s : ThreadPool τ} (h : s.Accounted) {t : τ} {wakes : Option ℕ}
    {workers : List (Worker τ)} (producers : List (Producer τ))
    (hnotify : notifyOne s.workers wakes = some workers) :
    Accounted { s with queue := s.queue ++ [t], workers := workers, producers := producers,
                       accepted := s.accepted ++ [t] } where
  fresh hstage := by
    have hnone := h.fresh hstage
    obtain ⟨rfl, -⟩ | ⟨k, b, hk, rfl⟩ := notifyOne_cases hnotify
    · exact hnone
    · rw [hnone] at hk
      cases hk
  joined hstage := by
    have hdone := h.joined hstage
    obtain ⟨rfl, -⟩ | ⟨k, b, hk, rfl⟩ := notifyOne_cases hnotify
    · exact hdone
    · have hasleep := List.all_eq_true.mp hdone _ (List.mem_of_getElem? hk)
      cases hasleep
  tasks u := by
    have hruns := countP_notifyOne (p := runs u) (fun _ => rfl) hnotify
    have hu := h.tasks u
    simp only [count_concat, hruns]
    omega

/-- Every step keeps account of the workers and the tasks. -/
theorem step {s s' : ThreadPool τ} {op : PoolOp τ} (h : s.Accounted) (hstep : Step s op s') :
    s'.Accounted := by
  cases move_of_step hstep with
  | start numThreads hstage =>
    refine ⟨nofun, nofun, ?_⟩
    intro t
    have ht := h.tasks t
    rw [h.fresh hstage] at ht
    simp only
    rw [countP_replicate_outside rfl]
    exact ht
  | put j t hj => exact ⟨h.fresh, h.joined, h.tasks⟩
  | produce j t e e' wakes hj hnext => exact ⟨h.fresh, h.joined, h.tasks⟩
  | push j t wakes workers hj hnotify => exact h.push _ hnotify
  | producerWakes j t hj => exact ⟨h.fresh, h.joined, h.tasks⟩
  | enter i wakes hi hrunning => exact h.set_inside hi rfl (fun _ => rfl) fun _ => rfl
  | leave i wakes hi hrunning => exact h.set_inside hi rfl (fun _ => rfl) fun _ => rfl
  | run i t wakes hi =>
    refine h.set hi rfl fun u => ?_
    rw [count_concat]
    simp only [runs, Bool.toNat_false]
    omega
  | work i e e' wakes hi hnext => exact h.set_inside hi rfl (fun _ => rfl) fun _ => rfl
  | takeNone i wakes hi hqueue => exact h.set_inside hi rfl (fun _ => rfl) fun _ => rfl
  | pop i t queue wakes producers hi hqueue hnotify =>
    refine h.set hi rfl fun u => ?_
    rw [hqueue, List.count_cons]
    simp only [runs, Bool.toNat_false]
    cases t == u with
    | false => simp
    | true =>
      simp only [Bool.toNat_true, if_true]
      omega
  | workerWakes i hi => exact h.set_inside hi rfl (fun _ => rfl) fun _ => rfl
  | clearRunning hstage => exact ⟨nofun, nofun, h.tasks⟩
  | notifyAll hstage =>
    refine ⟨nofun, nofun, ?_⟩
    intro t
    simp only
    rw [countP_notifyAll (fun _ => rfl)]
    exact h.tasks t
  | joinAll hstage hdone => exact ⟨nofun, fun _ => hdone, h.tasks⟩

end Accounted

end

/-- `stop` has cleared the flag, no call of `put` is in progress, and as many
tasks as given exceed the workers that are still in `take`. -/
structure Closing (left : ℕ) (s : ThreadPool τ) : Prop where
  /-- The flag is cleared. -/
  flag : s.isRunning = false
  /-- `stop` has begun. -/
  stage : s.stage ≠ .constructed ∧ s.stage ≠ .started
  /-- No call of `put` is in progress. -/
  quiet : s.producers.countP isInside = 0
  /-- The tasks that no worker will take. -/
  left_eq : s.queue.length - s.workers.countP isInside = left

namespace Closing

variable {left : ℕ}

/-- No producer is in `put`. -/
theorem not_inside {s : ThreadPool τ} (h : s.Closing left) {j : ℕ} {t : τ} {e : Monitor.Entry} :
    s.producers[j]? ≠ some (.inside t e) := by
  intro hj
  have hout := List.countP_eq_zero.mp h.quiet _ (List.mem_of_getElem? hj)
  exact hout rfl

/-- A worker takes a step on which it stays in `take` or stays out of it. -/
theorem set {s : ThreadPool τ} (h : s.Closing left) {i : ℕ} {w w' : Worker τ} (ran : List τ)
    (hi : s.workers[i]? = some w) (hinside : w'.isInside = w.isInside) :
    Closing left { s with workers := s.workers.set i w', ran := ran } where
  flag := h.flag
  stage := h.stage
  quiet := h.quiet
  left_eq := by
    have hset := countP_set_add (p := isInside) (b := w') hi
    rw [hinside] at hset
    have hleft := h.left_eq
    simp only
    omega

/-- Every step other than a call of `put` leaves as many tasks behind. -/
theorem step {s s' : ThreadPool τ} {op : PoolOp τ} (h : s.Closing left)
    (hput : ∀ j t, op ≠ .put j t) (hstep : Step s op s') : s'.Closing left := by
  cases move_of_step hstep with
  | start numThreads hstage => exact absurd hstage h.stage.1
  | put j t hj => exact absurd rfl (hput j t)
  | produce j t e e' wakes hj hnext => exact absurd hj h.not_inside
  | push j t wakes workers hj hnotify => exact absurd hj h.not_inside
  | producerWakes j t hj => exact absurd hj h.not_inside
  | enter i wakes hi hrunning =>
    rw [h.flag] at hrunning
    cases hrunning
  | leave i wakes hi hrunning => exact h.set _ hi rfl
  | run i t wakes hi => exact h.set _ hi rfl
  | work i e e' wakes hi hnext => exact h.set _ hi rfl
  | takeNone i wakes hi hqueue =>
    have hset := countP_set_add (p := isInside) (b := .outside .looping) hi
    have hleft := h.left_eq
    rw [hqueue] at hleft
    simp only [isInside, Bool.toNat_true, Bool.toNat_false, List.length_nil] at hset hleft
    refine ⟨h.flag, h.stage, h.quiet, ?_⟩
    simp only [hqueue, List.length_nil]
    omega
  | pop i t queue wakes producers hi hqueue hnotify =>
    have hset := countP_set_add (p := isInside) (b := .outside (.running t)) hi
    have hleft := h.left_eq
    rw [hqueue] at hleft
    simp only [isInside, Bool.toNat_true, Bool.toNat_false, List.length_cons] at hset hleft
    refine ⟨h.flag, h.stage, ?_, ?_⟩
    · simp only
      rw [countP_notifyOne (fun _ => rfl) hnotify]
      exact h.quiet
    · simp only
      omega
  | workerWakes i hi => exact h.set _ hi rfl
  | clearRunning hstage => exact absurd hstage h.stage.2
  | notifyAll hstage =>
    refine ⟨h.flag, ⟨nofun, nofun⟩, h.quiet, ?_⟩
    simp only
    rw [countP_notifyAll (fun _ => rfl)]
    exact h.left_eq
  | joinAll hstage hdone => exact ⟨h.flag, ⟨nofun, nofun⟩, h.quiet, h.left_eq⟩

/-- A run without calls of `put` leaves as many tasks behind. -/
theorem run {s last : ThreadPool τ} {ops : List (PoolOp τ)} (h : s.Closing left)
    (hputs : ∀ j t, PoolOp.put j t ∉ ops) (hrun : Run Step s ops last) : last.Closing left := by
  induction hrun with
  | nil => exact h
  | cons hstep _ ih =>
    refine ih (h.step ?_ hstep) fun j t hmem => hputs j t (List.mem_cons_of_mem _ hmem)
    rintro j t rfl
    exact hputs j t List.mem_cons_self

end Closing

end ThreadPool

/-- **Shutdown and the accepted tasks.** When `stop`, called after the last `put`
has returned, returns, every accepted task has been run as often as it was put if
and only if, when `stop` began, the queue held no more tasks than there were
workers in `take` that had not yet popped. -/
theorem shutdown_runs_all_iff {τ : Type} [DecidableEq τ] {maxQueueSize producers : ℕ}
    {pre post : List (PoolOp τ)} {s s' last : ThreadPool τ}
    (hrun : Run ThreadPool.Step (.new maxQueueSize producers) pre s)
    (hstop : ThreadPool.Step s .clearRunning s') (hquiet : s.producers.countP isInside = 0)
    (hpost : Run ThreadPool.Step s' post last) (hputs : ∀ j t, PoolOp.put j t ∉ post)
    (hjoined : last.stage = .joined) :
    (∀ t, last.ran.count t = last.accepted.count t) ↔
      s.queue.length ≤ s.workers.countP isInside := by
  have haccounted : last.Accounted :=
    ((hrun.snoc hstop).append hpost).invariant (fun _ _ _ h hstep => h.step hstep)
      (ThreadPool.accounted_new maxQueueSize producers)
  have hclosing : s'.Closing (s.queue.length - s.workers.countP isInside) := by
    cases ThreadPool.move_of_step hstop with
    | clearRunning hstage => exact ⟨rfl, ⟨nofun, nofun⟩, hquiet, rfl⟩
  have hdone := List.all_eq_true.mp (haccounted.joined hjoined)
  have hcount : ∀ p : Worker τ → Bool, p (.outside .done) = false → last.workers.countP p = 0 := by
    intro p hp
    rw [List.countP_eq_zero]
    intro w hw
    have hwdone := hdone w hw
    match w with
    | .outside .done => simp [hp]
  have hleft := (hclosing.run hputs hpost).left_eq
  rw [hcount isInside rfl] at hleft
  have hempty : (∀ t, last.ran.count t = last.accepted.count t) ↔ last.queue = [] := by
    constructor
    · intro hall
      rw [List.eq_nil_iff_forall_not_mem]
      intro t hmem
      have hpos := List.count_pos_iff.mpr hmem
      have ht := haccounted.tasks t
      rw [hcount (ThreadPool.runs t) rfl, ← hall t] at ht
      omega
    · intro hqueue t
      have ht := haccounted.tasks t
      rw [hcount (ThreadPool.runs t) rfl, hqueue, List.count_nil] at ht
      omega
  rw [hempty, ← List.length_eq_zero_iff]
  omega

/-- Two tasks, one worker: `stop` is called while the worker runs the first. -/
def stoppingOps : List (PoolOp ℕ) :=
  [.put 0 7, .producer 0 none, .producer 0 none, .producer 0 none,
    .put 0 8, .producer 0 none, .producer 0 none, .producer 0 none,
    .start 1, .worker 0 none, .worker 0 none, .worker 0 none, .worker 0 none]

/-- The rest of `stop`, and the worker's way out of its loop. -/
def joiningOps : List (PoolOp ℕ) := [.notifyAll, .worker 0 none, .worker 0 none, .joinAll]

/-- The pool when `stop` has returned. -/
def joinedPool : ThreadPool ℕ :=
  { maxQueueSize := 20, isRunning := false, queue := [8], workers := [.outside .done],
    producers := [.outside ()], stage := .joined, accepted := [7, 8], ran := [7] }

/-- The second task has been accepted and is never run. -/
theorem joinedPool_reached :
    Run ThreadPool.Step (.new 20 1) (stoppingOps ++ .clearRunning :: joiningOps) joinedPool ∧
      joinedPool.accepted.count 8 = 1 ∧ joinedPool.ran.count 8 = 0 :=
  ⟨run_iff_foldlM.mpr (by decide), by decide, by decide⟩

/-- The pool of one task, when its only worker runs the task. -/
def busyPool (isRunning : Bool) (stage : Stage) : ThreadPool ℕ :=
  { maxQueueSize := 20, isRunning := isRunning, queue := [],
    workers := [.outside (.running 7)], producers := [.outside ()], stage := stage,
    accepted := [7], ran := [] }

/-- With one task and one worker, the task is run. -/
theorem shutdown_runs_all_iff_busyPool :
    ∃ last : ThreadPool ℕ, Run ThreadPool.Step (busyPool false .cleared) joiningOps last ∧
      ∀ t, last.ran.count t = last.accepted.count t := by
  have hrun : Run ThreadPool.Step (.new 20 1) [.put 0 7, .producer 0 none, .producer 0 none,
      .producer 0 none, .start 1, .worker 0 none, .worker 0 none, .worker 0 none, .worker 0 none]
      (busyPool true .started) := run_iff_foldlM.mpr (by decide)
  have hpost : Run ThreadPool.Step (busyPool false .cleared) joiningOps
      { maxQueueSize := 20, isRunning := false, queue := [], workers := [.outside .done],
        producers := [.outside ()], stage := .joined, accepted := [7], ran := [7] } :=
    run_iff_foldlM.mpr (by decide)
  have hstop : ThreadPool.Step (busyPool true .started) .clearRunning (busyPool false .cleared) :=
    rfl
  exact ⟨_, hpost, (shutdown_runs_all_iff hrun hstop (by decide) hpost (by simp [joiningOps])
    rfl).mpr (by decide)⟩

end ThriftProxy
