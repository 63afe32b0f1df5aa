import ThriftProxy.Lib.Ring
import Mathlib.Data.Int.Notation

/-!
# Lists and timers

The circular lists of `list.h` and the timer of `timer.cpp`, whose pending events
are the members of such a list. A scan of the timer calls back into code that
may change anything, so it runs over any state that has the timer in it. Scans
follow links that the callbacks may change, so they take a bound on their
rounds and give no result when it is exceeded.
-/

namespace ThriftProxy

open Intrusive

/-! ## Lists -/

section

variable {ν : Type} [DecidableEq ν]

/-- `INIT_LIST_HEAD`. -/
def initListHead (l : Links ν) (ptr : ν) : Links ν := l.isolate ptr

/-- `list_add_tail`. -/
def listAddTail (l : Links ν) (new head : ν) : Links ν := l.insertBetween new (l.prev head) head

/-- `list_del_init`. -/
def listDelInit (l : Links ν) (entry : ν) : Links ν :=
  initListHead (l.join (l.prev entry) (l.next entry)) entry

/-- Deleting a node takes it out of its ring. -/
theorem listDelInit_eq (l : Links ν) (entry : ν) : listDelInit l entry = l.unlink entry := rfl

end

/-! ## Timer events -/

/-- `timer_event_t` apart from its list node. Pointers are numbers, 0 being NULL,
and callbacks are taken from a type of names. -/
structure TimerEvent (κ : Type) where
  /-- `expire_time`. -/
  expireTime : ℤ
  /-- `func`. -/
  func : Option κ
  /-- `owner`. -/
  owner : ℕ
  /-- `arg`. -/
  arg : ℕ
  deriving DecidableEq

/-- A timer: the links of its nodes and the event that each node is part of. -/
structure Timer (ν κ : Type) where
  /-- The `timer_node` members and the list head. -/
  links : Links ν
  /-- The other members of the events. -/
  event : ν → TimerEvent κ

section

variable {ν κ : Type} [DecidableEq ν]

/-- `timer_init`. -/
def timerInit (t : Timer ν κ) (timer : ν) : Timer ν κ :=
  { t with links := initListHead t.links timer }

/-- The members of an event after `event_init` and `timer_del_event`. -/
def TimerEvent.cleared : TimerEvent κ := { expireTime := 0, func := none, owner := 0, arg := 0 }

/-- `event_init`. -/
def eventInit (t : Timer ν κ) (event : ν) : Timer ν κ :=
  { links := initListHead t.links event, event := Function.update t.event event .cleared }

/-- `timer_add_event`. -/
def timerAddEvent (t : Timer ν κ) (timer event : ν) (expireTime : ℤ) (func : Option κ)
    (owner arg : ℕ) : Timer ν κ :=
  { links := listAddTail t.links event timer
    event := Function.update t.event event
      { expireTime := expireTime, func := func, owner := owner, arg := arg } }

/-- `timer_del_event`. -/
def timerDelEvent (t : Timer ν κ) (event : ν) : Timer ν κ :=
  { links := listDelInit t.links event, event := Function.update t.event event .cleared }

end

/-! ## The timer scan -/

/-- A state that has a timer in it, and what its callbacks do. -/
structure TimerHost (σ ν κ : Type) where
  /-- The timer in a state. -/
  timer : σ → Timer ν κ
  /-- The state with another timer in it. -/
  withTimer : σ → Timer ν κ → σ
  /-- A call `func(owner, arg)`. -/
  call : κ → ℕ → ℕ → σ → Option σ

section

variable {σ ν κ : Type} [DecidableEq ν]

/-- `list_del_init(pos)` in a state that has a timer in it. -/
def TimerHost.unlink (host : TimerHost σ ν κ) (pos : ν) (s : σ) : σ :=
  host.withTimer s { host.timer s with links := listDelInit (host.timer s).links pos }

variable (host : TimerHost σ ν κ) (timer : ν) (now : ℤ)

/-- The loop of `timer_check_event` from `pos` and `next` on, for a bounded number of rounds. -/
def timerCheckLoop : ℕ → ν → ν → σ → Option σ
  | 0, _, _, _ => none
  | rounds + 1, pos, next, s =>
    if pos = timer then some s
    else
      let event := (host.timer s).event pos
      if now ≤ event.expireTime then some s
      else
        let s := host.unlink pos s
        let called := match event.func with
          | some func => host.call func event.owner event.arg s
          | none => some s
        called.bind fun s => timerCheckLoop rounds next ((host.timer s).links.next next) s

/-- `timer_check_event` at the clock reading `now`. -/
def timerCheckEvent (rounds : ℕ) (s : σ) : Option σ :=
  let pos := (host.timer s).links.next timer
  timerCheckLoop host timer now rounds pos ((host.timer s).links.next pos) s

variable {host timer now} {rounds : ℕ} {pos next : ν} {s s' : σ} {event : TimerEvent κ}

/-- The scan ends when it has come round to the head. -/
theorem timerCheckLoop_head : timerCheckLoop host timer now (rounds + 1) timer next s = some s := by
  rw [timerCheckLoop, if_pos rfl]

/-- The scan ends at the first event that has not expired. -/
theorem timerCheckLoop_pending (hpos : pos ≠ timer) (hevent : (host.timer s).event pos = event)
    (hpending : now ≤ event.expireTime) :
    timerCheckLoop host timer now (rounds + 1) pos next s = some s := by
  rw [timerCheckLoop, if_neg hpos, hevent]
  exact if_pos hpending

/-- An expired event is unlinked and its callback called before the scan goes on. -/
theorem timerCheckLoop_expired (hpos : pos ≠ timer) (hevent : (host.timer s).event pos = event)
    (hexpired : event.expireTime < now) {func : κ} (hfunc : event.func = some func)
    (hcall : host.call func event.owner event.arg (host.unlink pos s) = some s') :
    timerCheckLoop host timer now (rounds + 1) pos next s =
      timerCheckLoop host timer now rounds next ((host.timer s').links.next next) s' := by
  rw [timerCheckLoop, if_neg hpos, hevent]
  simp only [hfunc, hcall, Option.bind_some]
  exact if_neg (by omega)

/-- A scan that ends within a number of rounds ends the same way within more. -/
theorem timerCheckLoop_mono {more : ℕ} (hle : rounds ≤ more)
    (h : timerCheckLoop host timer now rounds pos next s = some s') :
    timerCheckLoop host timer now more pos next s = some s' := by
  induction rounds generalizing more pos next s with
  | zero => simp [timerCheckLoop] at h
  | succ rounds ih =>
    obtain ⟨more, rfl⟩ : ∃ k, more = k + 1 := ⟨more - 1, by omega⟩
    rw [timerCheckLoop] at h ⊢
    split
    · rwa [if_pos ‹_›] at h
    · rw [if_neg ‹_›] at h
      simp only at h ⊢
      split
      · rwa [if_pos ‹_›] at h
      · rw [if_neg ‹_›] at h
        obtain ⟨s₁, hcalled, hloop⟩ := Option.bind_eq_some_iff.mp h
        rw [Option.bind_eq_some_iff]
        exact ⟨s₁, hcalled, ih (by omega) hloop⟩

/-- What unlinking an event and calling back preserves is preserved by a scan. -/
theorem timerCheckLoop_preserves {P : σ → Prop} (hunlink : ∀ pos s, P s → P (host.unlink pos s))
    (hcall : ∀ func owner arg s s', P s → host.call func owner arg s = some s' → P s')
    (hs : P s) (h : timerCheckLoop host timer now rounds pos next s = some s') : P s' := by
  induction rounds generalizing pos next s with
  | zero => simp [timerCheckLoop] at h
  | succ rounds ih =>
    rw [timerCheckLoop] at h
    split at h
    · rwa [← Option.some.inj h]
    · simp only at h
      split at h
      · rwa [← Option.some.inj h]
      · obtain ⟨s₁, hcalled, hloop⟩ := Option.bind_eq_some_iff.mp h
        refine ih ?_ hloop
        cases hfunc : ((host.timer s).event pos).func with
        | none =>
          rw [hfunc] at hcalled
          rw [← Option.some.inj hcalled]
          exact hunlink pos s hs
        | some func =>
          rw [hfunc] at hcalled
          exact hcall func _ _ _ s₁ (hunlink pos s hs) hcalled

end

end ThriftProxy
