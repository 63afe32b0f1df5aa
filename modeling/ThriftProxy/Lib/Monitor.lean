import Mathlib.Data.List.Basic

/-!
# Threads of a monitor

A mutex, a condition variable and the threads that enter a critical section
which waits while a condition holds. Waiting releases the mutex, `notifyOne`
wakes one of the threads asleep, and a thread may wake without being notified.
The invariant `Served` counts: as long as some thread sleeps un-notified, no
more units of what the threads wait for are at hand than there are threads
about to fetch one.
-/

namespace Monitor

/-- Where a thread is in the critical section. -/
inductive Entry
  /-- It waits for the mutex. -/
  | locking
  /-- It holds the mutex and evaluates the wait condition next. -/
  | testing
  /-- It holds the mutex, has found the condition true and waits next. -/
  | blocked
  /-- It holds the mutex and has found the condition false. -/
  | ready
  /-- It sleeps on the condition variable, without the mutex. -/
  | asleep
  /-- It has woken, notified or not, and waits for the mutex. -/
  | woken (notified : Bool)
  deriving DecidableEq

/-- The next place, given whether the mutex is held and the wait condition
holds. A sleeping thread does not move by itself, and a `ready` one is about to
run the rest of its critical section. -/
def Entry.next (locked condition : Bool) : Entry → Option Entry
  | .locking => if locked then none else some .testing
  | .woken _ => if locked then none else some .testing
  | .testing => some (if condition then .blocked else .ready)
  | .blocked => some .asleep
  | .ready => none
  | .asleep => none

/-- How a thread moves on. -/
theorem Entry.next_cases {locked condition : Bool} {e e' : Entry}
    (h : e.next locked condition = some e') :
    (locked = false ∧ e = .locking ∧ e' = .testing) ∨
    (locked = false ∧ (∃ notified, e = .woken notified) ∧ e' = .testing) ∨
    (condition = true ∧ e = .testing ∧ e' = .blocked) ∨
    (condition = false ∧ e = .testing ∧ e' = .ready) ∨
    (e = .blocked ∧ e' = .asleep) := by
  cases e with
  | locking => cases locked <;> simp_all [Entry.next]
  | testing => cases condition <;> simp_all [Entry.next]
  | blocked => simp_all [Entry.next]
  | ready => cases h
  | asleep => cases h
  | woken notified => cases locked <;> simp_all [Entry.next]

/-- A thread outside the critical section, or inside it with its argument. -/
inductive Thread (α β : Type)
  | outside (a : α)
  | inside (b : β) (e : Entry)
  deriving DecidableEq

section

variable {α β : Type}

namespace Thread

/-- The thread is in the critical section or waits in it. -/
def isInside : Thread α β → Bool
  | inside _ _ => true
  | outside _ => false

/-- The thread holds the mutex. -/
def holds : Thread α β → Bool
  | inside _ .testing => true
  | inside _ .blocked => true
  | inside _ .ready => true
  | _ => false

/-- The thread has found the wait condition true and has not gone to sleep. -/
def isBlocked : Thread α β → Bool
  | inside _ .blocked => true
  | _ => false

/-- The thread has found the wait condition false. -/
def isReady : Thread α β → Bool
  | inside _ .ready => true
  | _ => false

/-- The thread sleeps un-notified. -/
def isAsleep : Thread α β → Bool
  | inside _ .asleep => true
  | _ => false

/-- The thread has been notified and not yet got the mutex back. -/
def isNotified : Thread α β → Bool
  | inside _ (.woken true) => true
  | _ => false

/-- The thread is about to fetch a unit: it has been notified, or it holds the
mutex and does not wait. -/
def isServing : Thread α β → Bool
  | inside _ (.woken true) => true
  | inside _ .testing => true
  | inside _ .ready => true
  | _ => false

/-- Wake the thread, if it sleeps. -/
def notify : Thread α β → Thread α β
  | inside b .asleep => inside b (.woken true)
  | t => t

end Thread

open Thread

/-- Where a thread is that has found the wait condition false. -/
theorem eq_of_isReady {t : Thread α β} (h : t.isReady = true) : ∃ b, t = inside b .ready := by
  match t with
  | inside b .ready => exact ⟨b, rfl⟩

/-- `notify_one`: one of the threads asleep is woken, if there is one. Which one
is supplied by the environment. -/
def notifyOne (threads : List (Thread α β)) : Option ℕ → Option (List (Thread α β))
  | none => if threads.any isAsleep then none else some threads
  | some k =>
    match threads[k]? with
    | some t => if t.isAsleep then some (threads.set k t.notify) else none
    | none => none

/-- `notify_all`. -/
def notifyAll (threads : List (Thread α β)) : List (Thread α β) := threads.map notify

/-- The number of threads that hold the mutex. -/
def holders (threads : List (Thread α β)) : ℕ := threads.countP holds

/-! ## Counting threads -/

/-- The count after one thread has changed. -/
theorem countP_set_add {γ : Type} {p : γ → Bool} {l : List γ} {i : ℕ} {a b : γ}
    (h : l[i]? = some a) :
    (l.set i b).countP p + (p a).toNat = l.countP p + (p b).toNat := by
  obtain ⟨hi, rfl⟩ := List.getElem?_eq_some_iff.mp h
  rw [List.countP_set hi]
  cases hp : p l[i] with
  | false => cases p b <;> simp
  | true =>
    have hpos : 0 < l.countP p := List.countP_pos_iff.mpr ⟨_, List.getElem_mem hi, hp⟩
    cases p b <;> simp <;> omega

/-- A change of one thread that adds nothing to a count. -/
theorem countP_set_le {γ : Type} {p : γ → Bool} {l : List γ} {i : ℕ} {a b : γ}
    (h : l[i]? = some a) (hp : p b = true → p a = true) : (l.set i b).countP p ≤ l.countP p := by
  have hset := countP_set_add (p := p) (b := b) h
  cases hb : p b with
  | false =>
    rw [hb, Bool.toNat_false] at hset
    omega
  | true =>
    rw [hb, hp hb] at hset
    omega

/-- A change of one thread that takes nothing from a count. -/
theorem le_countP_set {γ : Type} {p : γ → Bool} {l : List γ} {i : ℕ} {a b : γ}
    (h : l[i]? = some a) (hp : p a = true → p b = true) : l.countP p ≤ (l.set i b).countP p := by
  have hset := countP_set_add (p := p) (b := b) h
  cases ha : p a with
  | false =>
    rw [ha, Bool.toNat_false] at hset
    omega
  | true =>
    rw [ha, hp ha] at hset
    omega

/-- What `notify_one` has done: nothing if no thread slept, and otherwise woken one. -/
theorem notifyOne_cases {threads threads' : List (Thread α β)} {choice : Option ℕ}
    (h : notifyOne threads choice = some threads') :
    (threads' = threads ∧ threads.countP isAsleep = 0) ∨
    (∃ k b, threads[k]? = some (inside b .asleep) ∧
      threads' = threads.set k (inside b (.woken true))) := by
  cases choice with
  | none =>
    simp only [notifyOne] at h
    split at h
    · cases h
    · rename_i hnone
      left
      refine ⟨(Option.some.inj h).symm, ?_⟩
      simpa [List.countP_eq_zero] using hnone
  | some k =>
    simp only [notifyOne] at h
    split at h
    · rename_i t hk
      split at h
      · rename_i hasleep
        right
        match t with
        | inside b .asleep => exact ⟨k, b, hk, (Option.some.inj h).symm⟩
      · cases h
    · cases h

/-- There is always a thread for `notify_one` to wake, or none that sleeps. -/
theorem exists_notifyOne (threads : List (Thread α β)) :
    ∃ choice threads', notifyOne threads choice = some threads' := by
  by_cases hany : threads.any isAsleep
  · obtain ⟨t, ht, hasleep⟩ := List.any_eq_true.mp hany
    obtain ⟨k, hk, rfl⟩ := List.getElem_of_mem ht
    exact ⟨some k, threads.set k threads[k].notify, by simp [notifyOne, hk, hasleep]⟩
  · exact ⟨none, threads, by simp [notifyOne, hany]⟩

/-- A count that does not see whether a sleeping thread is woken is not changed
by `notify_one`. -/
theorem countP_notifyOne {p : Thread α β → Bool}
    (hp : ∀ b, p (inside b .asleep) = p (inside b (.woken true)))
    {threads threads' : List (Thread α β)} {choice : Option ℕ}
    (h : notifyOne threads choice = some threads') : threads'.countP p = threads.countP p := by
  obtain ⟨rfl, -⟩ | ⟨k, b, hk, rfl⟩ := notifyOne_cases h
  · rfl
  · have hset := countP_set_add (p := p) (b := inside b (.woken true)) hk
    rw [hp] at hset
    omega

/-- A thread is left alone by `notify_all`, unless it sleeps. -/
theorem notify_cases (t : Thread α β) :
    (t.notify = t ∧ t.isAsleep = false) ∨
      ∃ b, t = inside b .asleep ∧ t.notify = inside b (.woken true) := by
  cases t with
  | outside a => exact Or.inl ⟨rfl, rfl⟩
  | inside b e =>
    cases e with
    | asleep => exact Or.inr ⟨b, rfl, rfl⟩
    | _ => exact Or.inl ⟨rfl, rfl⟩

/-- A count that does not see whether a sleeping thread is woken is not changed
by `notify_all`. -/
theorem countP_notifyAll {p : Thread α β → Bool}
    (hp : ∀ b, p (inside b .asleep) = p (inside b (.woken true)))
    (threads : List (Thread α β)) : (notifyAll threads).countP p = threads.countP p := by
  rw [notifyAll, List.countP_map]
  apply List.countP_congr
  intro t _
  obtain ⟨hsame, -⟩ | ⟨b, rfl, hwoken⟩ := notify_cases t
  · rw [Function.comp, hsame]
  · rw [Function.comp, hwoken, hp]

/-- After `notify_all` no thread sleeps. -/
theorem countP_isAsleep_notifyAll (threads : List (Thread α β)) :
    (notifyAll threads).countP isAsleep = 0 := by
  rw [List.countP_eq_zero]
  intro t ht
  obtain ⟨t', -, rfl⟩ := List.mem_map.mp ht
  obtain ⟨hsame, hawake⟩ | ⟨b, -, hwoken⟩ := notify_cases t'
  · rw [hsame, hawake]
    exact Bool.false_ne_true
  · rw [hwoken]
    exact Bool.false_ne_true

/-- With the mutex free, the threads about to fetch a unit are the notified ones. -/
theorem countP_isServing_of_free {threads : List (Thread α β)} (h : holders threads = 0) :
    threads.countP isServing = threads.countP isNotified := by
  apply List.countP_congr
  intro t ht
  have hfree := List.countP_eq_zero.mp h t ht
  match t with
  | outside _ => rfl
  | inside _ .locking => rfl
  | inside _ .testing => simp [holds] at hfree
  | inside _ .blocked => rfl
  | inside _ .ready => simp [holds] at hfree
  | inside _ .asleep => rfl
  | inside _ (.woken true) => rfl
  | inside _ (.woken false) => rfl

/-- Moving on inside the critical section takes the mutex only if it is free. -/
theorem holders_set_next {threads : List (Thread α β)} {i : ℕ} {b : β} {e e' : Entry}
    {locked condition : Bool} (hi : threads[i]? = some (inside b e))
    (hnext : e.next locked condition = some e') :
    holders (threads.set i (inside b e')) ≤ holders threads + (!locked).toNat := by
  have hset := countP_set_add (p := holds) (b := inside b e') hi
  unfold holders
  obtain ⟨rfl, rfl, rfl⟩ | ⟨rfl, ⟨notified, rfl⟩, rfl⟩ | ⟨-, rfl, rfl⟩ | ⟨-, rfl, rfl⟩ |
    ⟨rfl, rfl⟩ := Entry.next_cases hnext
  · simp only [holds, Bool.toNat_true, Bool.toNat_false, Bool.not_false] at hset ⊢
    omega
  · simp only [holds, Bool.toNat_true, Bool.toNat_false, Bool.not_false] at hset ⊢
    omega
  · simp only [holds, Bool.toNat_true] at hset
    omega
  · simp only [holds, Bool.toNat_true] at hset
    omega
  · simp only [holds, Bool.toNat_true, Bool.toNat_false] at hset
    omega

/-! ## Units and sleepers -/

/-- Threads that wait for units, of which some are at hand. -/
structure Served (threads : List (Thread α β)) (units : ℕ) : Prop where
  /-- While a thread sleeps, every unit at hand has a thread about to fetch it. -/
  enough : 0 < threads.countP isAsleep → units ≤ threads.countP isServing
  /-- A thread goes to sleep only when no unit is at hand. -/
  blocked : 0 < threads.countP isBlocked → units = 0

namespace Served

variable {threads threads' : List (Thread α β)} {units i : ℕ}

/-- Fewer sleepers and more threads about to fetch a unit are served all the more. -/
theorem mono (h : Served threads units)
    (hasleep : threads'.countP isAsleep ≤ threads.countP isAsleep)
    (hserving : threads.countP isServing ≤ threads'.countP isServing)
    (hblocked : threads'.countP isBlocked ≤ threads.countP isBlocked) :
    Served threads' units where
  enough hpos := Nat.le_trans (h.enough (by omega)) hserving
  blocked hpos := h.blocked (by omega)

/-- A change of one thread that neither puts it to sleep nor takes it off a fetch. -/
theorem set (h : Served threads units) {t t' : Thread α β} (hi : threads[i]? = some t)
    (hasleep : t'.isAsleep = true → t.isAsleep = true)
    (hserving : t.isServing = true → t'.isServing = true)
    (hblocked : t'.isBlocked = true → t.isBlocked = true) :
    Served (threads.set i t') units := by
  exact h.mono (countP_set_le hi hasleep) (le_countP_set hi hserving) (countP_set_le hi hblocked)

/-- A thread that waits only when no unit is at hand moves on. -/
theorem set_next (h : Served threads units) {b : β} {e e' : Entry} {locked condition : Bool}
    (hi : threads[i]? = some (inside b e)) (hnext : e.next locked condition = some e')
    (hcondition : condition = true → units = 0) :
    Served (threads.set i (inside b e')) units := by
  obtain ⟨-, rfl, rfl⟩ | ⟨-, ⟨notified, rfl⟩, rfl⟩ | ⟨rfl, rfl, rfl⟩ | ⟨-, rfl, rfl⟩ |
    ⟨rfl, rfl⟩ := Entry.next_cases hnext
  · exact h.set hi id (fun _ => rfl) id
  · exact h.set hi id (fun _ => rfl) id
  · have hzero := hcondition rfl
    exact ⟨fun _ => by omega, fun _ => hzero⟩
  · exact h.set hi id id id
  · have hblocked : 0 < threads.countP isBlocked :=
      List.countP_pos_iff.mpr ⟨_, List.mem_of_getElem? hi, rfl⟩
    have hzero := h.blocked hblocked
    exact ⟨fun _ => by omega, fun _ => hzero⟩

/-- A thread fetches a unit, if one is at hand, and leaves. -/
theorem fetch (h : Served threads units) {a : α} {b : β}
    (hi : threads[i]? = some (inside b .ready)) :
    Served (threads.set i (outside a)) (units - 1) := by
  have hasleep := countP_set_add (p := isAsleep) (b := outside a) hi
  have hserving := countP_set_add (p := isServing) (b := outside a) hi
  have hblocked := countP_set_add (p := isBlocked) (b := outside a) hi
  simp only [isAsleep, isServing, isBlocked, Bool.toNat_true, Bool.toNat_false] at *
  constructor
  · intro hpos
    have := h.enough (by omega)
    omega
  · intro hpos
    have := h.blocked (by omega)
    omega

/-- A new unit is announced with `notify_one` while no thread is about to sleep. -/
theorem supply (h : Served threads units) (hblocked : threads.countP isBlocked = 0)
    {choice : Option ℕ} (hnotify : notifyOne threads choice = some threads') :
    Served threads' (units + 1) := by
  obtain ⟨rfl, hnone⟩ | ⟨k, b, hk, rfl⟩ := notifyOne_cases hnotify
  · exact ⟨fun hpos => by omega, fun hpos => by omega⟩
  · have hasleep' := countP_set_add (p := isAsleep) (b := inside b (.woken true)) hk
    have hserving := countP_set_add (p := isServing) (b := inside b (.woken true)) hk
    have hblocked' := countP_set_add (p := isBlocked) (b := inside b (.woken true)) hk
    simp only [isAsleep, isServing, isBlocked, Bool.toNat_true, Bool.toNat_false] at *
    constructor
    · intro hpos
      have := h.enough (by omega)
      omega
    · intro hpos
      omega

/-- Nobody is left asleep by `notify_all`. -/
theorem notifyAll (h : Served threads units) : Served (notifyAll threads) units where
  enough hpos := by
    rw [countP_isAsleep_notifyAll] at hpos
    omega
  blocked hpos := by
    rw [countP_notifyAll (fun _ => rfl)] at hpos
    exact h.blocked hpos

end Served

end

end Monitor
