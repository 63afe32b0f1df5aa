import ThriftProxy.Timer
import ThriftProxy.Lib.Transition

/-!
# Which events a check of the timer fires

A check goes through the pending events in the order in which they were added
and stops at the first one that has not expired. Callbacks may change their own
event and put it back into the timer. The check fires exactly the expired events
when none of them stands behind one that has not expired and no event that was
put back is reached once more.
-/

namespace ThriftProxy

open Intrusive Transition

variable {ν κ : Type} [DecidableEq ν]

/-! ## Callbacks that touch only their own event -/

/-- What a callback does with its event, which is in no list while it runs. -/
inductive Reaction (κ : Type)
  /-- The event is left as it is. -/
  | leave
  /-- `timer_del_event`. -/
  | delete
  /-- `timer_add_event`. -/
  | add (expireTime : ℤ) (func : Option κ) (owner arg : ℕ)

/-- The timer after a callback's reaction. -/
def Reaction.apply (timer event : ν) (t : Timer ν κ) : Reaction κ → Timer ν κ
  | .leave => t
  | .delete => timerDelEvent t event
  | .add expireTime func owner arg => timerAddEvent t timer event expireTime func owner arg

/-- Whether a callback puts its event back into the timer. -/
def Reaction.adds : Reaction κ → Bool
  | .add _ _ _ _ => true
  | _ => false

/-- A timer during a check, with the events whose callbacks have been called. -/
structure CheckState (ν κ : Type) where
  /-- The timer. -/
  timer : Timer ν κ
  /-- The events fired so far, in order. -/
  fired : List ν

section

variable (own : κ → ℕ → ℕ → ν) (timer : ν) (react : ν → Reaction κ)

/-- A check whose callbacks know their own event by their arguments. -/
def checkHost : TimerHost (CheckState ν κ) ν κ where
  timer s := s.timer
  withTimer s t := { s with timer := t }
  call func owner arg s :=
    let event := own func owner arg
    some { timer := (react event).apply timer event s.timer, fired := s.fired ++ [event] }

/-- The arguments with which an event was added lead its callback back to it. -/
def OwnEvent (t : Timer ν κ) (event : ν) : Prop :=
  ∀ func, (t.event event).func = some func →
    own func (t.event event).owner (t.event event).arg = event

/-- An event is unlinked and its callback called. -/
def fire (s : CheckState ν κ) (event : ν) : CheckState ν κ :=
  let t := { s.timer with links := listDelInit s.timer.links event }
  match (s.timer.event event).func with
  | none => { s with timer := t }
  | some _ => { timer := (react event).apply timer event t, fired := s.fired ++ [event] }

/-- The events that a fired event leaves behind in the list. -/
def putBack (t : Timer ν κ) (event : ν) : Bool :=
  (t.event event).func.isSome && (react event).adds

end

variable {own : κ → ℕ → ℕ → ν} {timer : ν} {react : ν → Reaction κ} {now : ℤ}
  {s s' : CheckState ν κ} {event : ν} {rest : List ν}

/-- Firing an event changes no other event. -/
theorem fire_event_of_ne {x : ν} (hx : x ≠ event) :
    (fire timer react s event).timer.event x = s.timer.event x := by
  unfold fire
  cases (s.timer.event event).func with
  | none => rfl
  | some func =>
    cases hreact : react event with
    | leave => simp only [Reaction.apply]
    | delete => simp [Reaction.apply, timerDelEvent, Function.update_of_ne hx]
    | add expireTime func' owner arg =>
      simp [Reaction.apply, timerAddEvent, Function.update_of_ne hx]

/-- An event is logged when it has a callback. -/
theorem fire_fired :
    (fire timer react s event).fired =
      s.fired ++ [event].filter fun e => (s.timer.event e).func.isSome := by
  unfold fire
  cases hfunc : (s.timer.event event).func <;> simp [hfunc]

/-- Firing the first event of the list takes it out, and puts it back at the end
when its callback adds it. -/
theorem fire_isRing (h : IsRing s.timer.links timer (event :: rest)) :
    IsRing (fire timer react s event).timer.links timer
      (rest ++ [event].filter (putBack react s.timer)) := by
  have hring : IsRing s.timer.links timer ([] ++ event :: rest) := h
  have hout : IsRing (listDelInit s.timer.links event) timer rest := hring.unlink
  have hiso : Isolated (s.timer.links.unlink event) event := isolated_unlink _ _
  have hnew : event ∉ timer :: rest := by
    have hnodup := h.nodup
    simp only [List.nodup_cons, List.mem_cons, not_or] at hnodup ⊢
    exact ⟨Ne.symm hnodup.1.1, hnodup.2.1⟩
  unfold fire
  cases hfunc : (s.timer.event event).func with
  | none => simpa [putBack, hfunc] using hout
  | some func =>
    cases hreact : react event with
    | leave => simpa [Reaction.apply, putBack, hfunc, hreact, Reaction.adds] using hout
    | delete =>
      simpa [Reaction.apply, putBack, hfunc, hreact, Reaction.adds, timerDelEvent, listDelInit_eq,
        unlink_of_isolated hiso] using hout
    | add expireTime func' owner arg =>
      have hadded := hout.insertBetween hnew
      simpa [Reaction.apply, putBack, hfunc, hreact, Reaction.adds, timerAddEvent,
        listAddTail] using hadded

/-- An event after it has been fired. -/
def afterFire (react : ν → Reaction κ) (t : Timer ν κ) (event : ν) : TimerEvent κ :=
  match (t.event event).func with
  | none => t.event event
  | some _ =>
    match react event with
    | .leave => t.event event
    | .delete => .cleared
    | .add expireTime func owner arg =>
      { expireTime := expireTime, func := func, owner := owner, arg := arg }

/-- What firing an event makes of it. -/
theorem fire_event_self :
    (fire timer react s event).timer.event event = afterFire react s.timer event := by
  unfold fire afterFire
  cases (s.timer.event event).func with
  | none => rfl
  | some func =>
    cases hreact : react event with
    | leave => simp only [Reaction.apply]
    | delete => simp [Reaction.apply, timerDelEvent]
    | add expireTime func' owner arg => simp [Reaction.apply, timerAddEvent]

/-! ## Events fired one after the other -/

/-- Some events are fired in order. -/
def fireAll (timer : ν) (react : ν → Reaction κ) (events : List ν) (s : CheckState ν κ) :
    CheckState ν κ :=
  events.foldl (fire timer react) s

/-- The other events stay as they are. -/
theorem fireAll_event_of_notMem {events : List ν} {x : ν} (hx : x ∉ events) :
    (fireAll timer react events s).timer.event x = s.timer.event x := by
  induction events generalizing s with
  | nil => rfl
  | cons e events ih =>
    simp only [List.mem_cons, not_or] at hx
    exact (ih hx.2).trans (fire_event_of_ne hx.1)

/-- Each event is changed when its turn comes. -/
theorem fireAll_event_of_mem {events : List ν} (hnodup : events.Nodup) {x : ν} (hx : x ∈ events) :
    (fireAll timer react events s).timer.event x = afterFire react s.timer x := by
  induction events generalizing s with
  | nil => cases hx
  | cons e events ih =>
    obtain ⟨he, hnodup⟩ := List.nodup_cons.mp hnodup
    obtain rfl | hmem := List.mem_cons.mp hx
    · exact (fireAll_event_of_notMem he).trans fire_event_self
    · have hne : x ≠ e := fun heq => he (heq ▸ hmem)
      rw [fireAll, List.foldl_cons]
      refine (ih hnodup hmem).trans ?_
      simp only [afterFire, fire_event_of_ne hne]

/-- The events with callbacks are logged in order. -/
theorem fireAll_fired {events : List ν} (hnodup : events.Nodup) :
    (fireAll timer react events s).fired =
      s.fired ++ events.filter fun e => (s.timer.event e).func.isSome := by
  induction events generalizing s with
  | nil => simp [fireAll]
  | cons e events ih =>
    obtain ⟨he, hnodup⟩ := List.nodup_cons.mp hnodup
    have hsame : (events.filter fun x => ((fire timer react s e).timer.event x).func.isSome) =
        events.filter fun x => (s.timer.event x).func.isSome := by
      apply List.filter_congr
      intro x hx
      have hne : x ≠ e := fun heq => he (heq ▸ hx)
      rw [fire_event_of_ne hne]
    rw [fireAll, List.foldl_cons]
    refine (ih hnodup).trans ?_
    rw [hsame, fire_fired, List.append_assoc, ← List.filter_append]
    rfl

/-- The events that are put back do not depend on events fired before them. -/
theorem filter_putBack_fire {events : List ν} (he : event ∉ events) :
    events.filter (putBack react (fire timer react s event).timer) =
      events.filter (putBack react s.timer) := by
  apply List.filter_congr
  intro x hx
  have hne : x ≠ event := fun heq => he (heq ▸ hx)
  rw [putBack, fire_event_of_ne hne, putBack]

/-- The events fired are taken out of the list, and those put back stand at its end. -/
theorem fireAll_isRing {pre : List ν} (h : IsRing s.timer.links timer (pre ++ rest)) :
    IsRing (fireAll timer react pre s).timer.links timer
      (rest ++ pre.filter (putBack react s.timer)) := by
  induction pre generalizing s rest with
  | nil => simpa [fireAll] using h
  | cons e pre ih =>
    have he : e ∉ pre := by
      have hnodup := (List.nodup_cons.mp h.nodup).2
      exact fun hmem => (List.nodup_cons.mp hnodup).1 (List.mem_append_left _ hmem)
    rw [List.cons_append] at h
    have hfired : IsRing (fire timer react s e).timer.links timer _ := fire_isRing h
    rw [List.append_assoc] at hfired
    have hring := ih hfired
    rw [filter_putBack_fire he, List.append_assoc, ← List.filter_append] at hring
    exact hring

/-! ## The scan -/

section

variable {rounds : ℕ} {next : ν}

/-- A round of the scan fires an expired event and goes on with the next one. -/
theorem timerCheckLoop_fire (hpos : event ≠ timer)
    (hexpired : (s.timer.event event).expireTime < now) (hown : OwnEvent own s.timer event) :
    timerCheckLoop (checkHost own timer react) timer now (rounds + 1) event next s =
      timerCheckLoop (checkHost own timer react) timer now rounds next
        ((fire timer react s event).timer.links.next next) (fire timer react s event) := by
  have hlate : ¬ now ≤ (s.timer.event event).expireTime := by omega
  rw [timerCheckLoop, if_neg hpos]
  change (if now ≤ (s.timer.event event).expireTime then some s else _) = _
  rw [if_neg hlate]
  cases hfunc : (s.timer.event event).func with
  | none =>
    simp only [checkHost, TimerHost.unlink, hfunc, Option.bind_some, fire]
  | some func =>
    simp only [checkHost, TimerHost.unlink, hfunc, Option.bind_some, fire, hown func hfunc]

/-- A scan of an empty list ends at once. -/
theorem timerCheckEvent_nil (h : IsRing s.timer.links timer []) :
    timerCheckEvent (checkHost own timer react) timer now (rounds + 1) s = some s := by
  have hfirst : s.timer.links.next timer = timer := h.next_head
  rw [timerCheckEvent]
  change timerCheckLoop _ timer now _ (s.timer.links.next timer) _ s = _
  rw [hfirst]
  exact timerCheckLoop_head

/-- A scan of a list whose first event has not expired ends at once. -/
theorem timerCheckEvent_pending (h : IsRing s.timer.links timer (event :: rest))
    (hpending : now ≤ (s.timer.event event).expireTime) :
    timerCheckEvent (checkHost own timer react) timer now (rounds + 1) s = some s := by
  have hfirst : s.timer.links.next timer = event := h.next_head
  rw [timerCheckEvent]
  change timerCheckLoop _ timer now _ (s.timer.links.next timer) _ s = _
  rw [hfirst]
  exact timerCheckLoop_pending (h.ne_head List.mem_cons_self) rfl hpending

/-- A scan has come round to the head after the last event of the list, although
the event may have been put back. -/
theorem timerCheckEvent_last (h : IsRing s.timer.links timer [event])
    (hexpired : (s.timer.event event).expireTime < now) (hown : OwnEvent own s.timer event) :
    timerCheckEvent (checkHost own timer react) timer now (rounds + 1) s =
      timerCheckLoop (checkHost own timer react) timer now rounds timer
        ((fire timer react s event).timer.links.next timer) (fire timer react s event) := by
  have hfirst : s.timer.links.next timer = event := h.next_head
  have hsecond : s.timer.links.next event = timer := h.next_first
  rw [timerCheckEvent]
  change timerCheckLoop _ timer now _ (s.timer.links.next timer)
    (s.timer.links.next (s.timer.links.next timer)) s = _
  rw [hfirst, hsecond, timerCheckLoop_fire (h.ne_head List.mem_cons_self) hexpired hown]

/-- A scan goes on after an expired event as a scan of the list without it. -/
theorem timerCheckEvent_fire {second : ν} (h : IsRing s.timer.links timer (event :: second :: rest))
    (hexpired : (s.timer.event event).expireTime < now) (hown : OwnEvent own s.timer event) :
    timerCheckEvent (checkHost own timer react) timer now (rounds + 1) s =
      timerCheckEvent (checkHost own timer react) timer now rounds
        (fire timer react s event) := by
  have hfirst : s.timer.links.next timer = event := h.next_head
  have hsecond : s.timer.links.next event = second := h.next_first
  have hafter : (fire timer react s event).timer.links.next timer = second :=
    (fire_isRing h).next_head
  rw [timerCheckEvent, timerCheckEvent]
  change timerCheckLoop _ timer now _ (s.timer.links.next timer)
    (s.timer.links.next (s.timer.links.next timer)) s =
    timerCheckLoop _ timer now _ ((fire timer react s event).timer.links.next timer)
      ((fire timer react s event).timer.links.next
        ((fire timer react s event).timer.links.next timer)) (fire timer react s event)
  rw [hfirst, hsecond, hafter]
  exact timerCheckLoop_fire (h.ne_head List.mem_cons_self) hexpired hown

/-- A scan that ends has fired an expired first event, and has gone on unless
there was no other one. -/
theorem timerCheckEvent_expired (h : IsRing s.timer.links timer (event :: rest))
    (hexpired : (s.timer.event event).expireTime < now) (hown : OwnEvent own s.timer event)
    (hscan : timerCheckEvent (checkHost own timer react) timer now rounds s = some s') :
    s' = fire timer react s event ∨ ∃ fewer < rounds,
      timerCheckEvent (checkHost own timer react) timer now fewer (fire timer react s event) =
        some s' := by
  cases rounds with
  | zero => simp [timerCheckEvent, timerCheckLoop] at hscan
  | succ rounds =>
    cases rest with
    | nil =>
      rw [timerCheckEvent_last h hexpired hown] at hscan
      cases rounds with
      | zero => simp [timerCheckLoop] at hscan
      | succ rounds =>
        rw [timerCheckLoop_head, Option.some.injEq] at hscan
        exact .inl hscan.symm
    | cons second rest =>
      rw [timerCheckEvent_fire h hexpired hown] at hscan
      exact .inr ⟨rounds, by omega, hscan⟩

/-- Scans that end have the same result. -/
theorem timerCheckEvent_unique {rounds' : ℕ} {s'' : CheckState ν κ}
    (h : timerCheckEvent (checkHost own timer react) timer now rounds s = some s')
    (h' : timerCheckEvent (checkHost own timer react) timer now rounds' s = some s'') :
    s' = s'' := by
  have hmore := timerCheckLoop_mono (Nat.le_add_right rounds rounds') h
  rw [timerCheckLoop_mono (Nat.le_add_left rounds' rounds) h', Option.some.injEq] at hmore
  exact hmore.symm

/-- Expired events at the front of the list are fired in order before the scan
comes to the event behind them. -/
theorem timerCheckEvent_fireAll {pre : List ν}
    (h : IsRing s.timer.links timer (pre ++ event :: rest))
    (hexpired : ∀ e ∈ pre, (s.timer.event e).expireTime < now)
    (hown : ∀ e ∈ pre, OwnEvent own s.timer e) :
    timerCheckEvent (checkHost own timer react) timer now (rounds + pre.length) s =
      timerCheckEvent (checkHost own timer react) timer now rounds
        (fireAll timer react pre s) := by
  induction pre generalizing s rest with
  | nil => rfl
  | cons e pre ih =>
    have he : e ∉ pre := by
      have hnodup := (List.nodup_cons.mp h.nodup).2
      exact fun hmem => (List.nodup_cons.mp hnodup).1 (List.mem_append_left _ hmem)
    have hsame : ∀ x ∈ pre, (fire timer react s e).timer.event x = s.timer.event x := by
      intro x hx
      have hne : x ≠ e := fun heq => he (heq ▸ hx)
      exact fire_event_of_ne hne
    have hstep : timerCheckEvent (checkHost own timer react) timer now
        (rounds + pre.length + 1) s = timerCheckEvent (checkHost own timer react) timer now
        (rounds + pre.length) (fire timer react s e) := by
      obtain ⟨second, tail, htail⟩ : ∃ second tail, pre ++ event :: rest = second :: tail :=
        List.exists_cons_of_ne_nil (by simp)
      rw [List.cons_append, htail] at h
      exact timerCheckEvent_fire h (hexpired e List.mem_cons_self) (hown e List.mem_cons_self)
    rw [List.cons_append] at h
    have hfired : IsRing (fire timer react s e).timer.links timer _ := fire_isRing h
    rw [List.append_assoc, List.cons_append] at hfired
    rw [List.length_cons, ← Nat.add_assoc, hstep]
    refine ih hfired ?_ ?_
    · intro x hx
      rw [hsame x hx]
      exact hexpired x (List.mem_cons_of_mem _ hx)
    · intro x hx func hfunc
      rw [hsame x hx] at hfunc ⊢
      exact hown x (List.mem_cons_of_mem _ hx) func hfunc

end

/-! ## Timers in use -/

/-- The pending events of a timer. All other events are in no list. -/
structure Scheduled (own : κ → ℕ → ℕ → ν) (timer : ν) (t : Timer ν κ) (members : List ν) :
    Prop where
  /-- The list of pending events. -/
  ring : IsRing t.links timer members
  /-- The other events are linked to themselves. -/
  isolated : ∀ n, n ∉ timer :: members → Isolated t.links n
  /-- The callbacks of pending events know their event. -/
  own : ∀ e ∈ members, OwnEvent own t e

/-- The callbacks put events back with arguments that lead back to them. -/
def OwnReactions (own : κ → ℕ → ℕ → ν) (react : ν → Reaction κ) : Prop :=
  ∀ e expireTime func owner arg, react e = .add expireTime (some func) owner arg →
    own func owner arg = e

/-- Adding an event that is not pending. -/
theorem Scheduled.add {t : Timer ν κ} {members : List ν} (h : Scheduled own timer t members)
    (hevent : event ∉ timer :: members) (expireTime : ℤ) {func : Option κ} {owner arg : ℕ}
    (hown : ∀ f, func = some f → own f owner arg = event) :
    Scheduled own timer (timerAddEvent t timer event expireTime func owner arg)
      (members ++ [event]) := by
  refine ⟨h.ring.insertBetween hevent, ?_, ?_⟩
  · intro n hn
    simp only [List.mem_cons, List.mem_append, List.not_mem_nil, or_false, not_or] at hn
    refine (h.isolated n ?_).insertBetween h.ring ?_ hn.2.2
    · simpa using ⟨hn.1, hn.2.1⟩
    · simpa using ⟨hn.1, hn.2.1⟩
  · intro e he f hf
    by_cases heq : e = event
    · subst heq
      simp only [timerAddEvent, Function.update_self] at hf ⊢
      exact hown f hf
    · simp only [timerAddEvent, Function.update_of_ne heq] at hf ⊢
      refine h.own e ?_ f hf
      simpa [heq] using he

/-- Taking a pending event out of the list. -/
theorem Scheduled.unlink {t : Timer ν κ} {members : List ν} (h : Scheduled own timer t members)
    (hevent : event ∈ members) :
    Scheduled own timer { t with links := listDelInit t.links event }
      (members.filter (· ≠ event)) := by
  refine ⟨h.ring.unlink_filter hevent, ?_, ?_⟩
  · intro n hn
    by_cases heq : n = event
    · subst heq
      exact isolated_unlink _ _
    · have hout : n ∉ timer :: members := by
        simpa [heq] using hn
      exact (h.isolated n hout).unlink h.ring hevent hout
  · intro e he
    exact h.own e (List.mem_filter.mp he).1

/-- Clearing an event that is in no list. -/
theorem Scheduled.clear {t : Timer ν κ} {members : List ν} (h : Scheduled own timer t members)
    (hevent : event ∉ timer :: members) :
    Scheduled own timer (timerDelEvent t event) members := by
  have hlinks : (timerDelEvent t event).links = t.links := by
    rw [timerDelEvent, listDelInit_eq, unlink_of_isolated (h.isolated event hevent)]
  refine ⟨hlinks ▸ h.ring, fun n hn => hlinks ▸ h.isolated n hn, ?_⟩
  intro e he f hf
  have hne : e ≠ event := fun heq => hevent (heq ▸ List.mem_cons_of_mem _ he)
  simp only [timerDelEvent, Function.update_of_ne hne] at hf ⊢
  exact h.own e he f hf

/-- Deleting an event is the same before and after it has been unlinked. -/
theorem timerDelEvent_unlinked (t : Timer ν κ) (event : ν) :
    timerDelEvent { t with links := listDelInit t.links event } event = timerDelEvent t event := by
  simp only [timerDelEvent, listDelInit_eq, unlink_of_isolated (isolated_unlink _ _)]

/-- Deleting a pending event. -/
theorem Scheduled.delete {t : Timer ν κ} {members : List ν} (h : Scheduled own timer t members)
    (hevent : event ∈ members) :
    Scheduled own timer (timerDelEvent t event) (members.filter (· ≠ event)) := by
  rw [← timerDelEvent_unlinked]
  refine (h.unlink hevent).clear ?_
  have hne := h.ring.ne_head hevent
  simp [hne]

/-- Firing the first pending event. -/
theorem Scheduled.fire (h : Scheduled own timer s.timer (event :: rest))
    (hreact : OwnReactions own react) :
    Scheduled own timer (fire timer react s event).timer
      (rest ++ [event].filter (putBack react s.timer)) := by
  have hnodup := h.ring.nodup
  simp only [List.nodup_cons, List.mem_cons, not_or] at hnodup
  obtain ⟨⟨hhead, -⟩, hevent, -⟩ := hnodup
  have hrest : (event :: rest).filter (· ≠ event) = rest := by
    rw [List.filter_cons_of_neg (by simp), List.filter_eq_self]
    intro x hx
    have hne : x ≠ event := fun heq => hevent (heq ▸ hx)
    simpa using hne
  have hout := h.unlink List.mem_cons_self
  rw [hrest] at hout
  have hnew : event ∉ timer :: rest := by
    simp [Ne.symm hhead, hevent]
  unfold ThriftProxy.fire
  cases hfunc : (s.timer.event event).func with
  | none => simpa [putBack, hfunc] using hout
  | some func =>
    cases hkind : react event with
    | leave => simpa [putBack, hfunc, hkind, Reaction.adds, Reaction.apply] using hout
    | delete =>
      simpa [putBack, hfunc, hkind, Reaction.adds, Reaction.apply] using hout.clear hnew
    | add expireTime func' owner arg =>
      have hown : ∀ f, func' = some f → own f owner arg = event := by
        rintro f rfl
        exact hreact event expireTime f owner arg hkind
      have hadded := hout.add hnew expireTime hown
      simpa [putBack, hfunc, hkind, Reaction.adds, Reaction.apply] using hadded

/-- Whenever a scan ends, the pending events were pending before, and the events
fired before have stayed in the log. -/
theorem Scheduled.timerCheckEvent {members : List ν} (h : Scheduled own timer s.timer members)
    (hreact : OwnReactions own react) {rounds : ℕ}
    (hscan : timerCheckEvent (checkHost own timer react) timer now rounds s = some s') :
    ∃ members', Scheduled own timer s'.timer members' ∧ members' ⊆ members ∧
      s.fired <+: s'.fired := by
  induction rounds using Nat.strong_induction_on generalizing s members with
  | _ rounds ih =>
    obtain _ | rounds := rounds
    · simp [ThriftProxy.timerCheckEvent, timerCheckLoop] at hscan
    obtain _ | ⟨event, rest⟩ := members
    · rw [timerCheckEvent_nil h.ring, Option.some.injEq] at hscan
      subst hscan
      exact ⟨[], h, List.Subset.refl _, List.prefix_rfl⟩
    by_cases hpending : now ≤ (s.timer.event event).expireTime
    · rw [timerCheckEvent_pending h.ring hpending, Option.some.injEq] at hscan
      subst hscan
      exact ⟨_, h, List.Subset.refl _, List.prefix_rfl⟩
    have hexpired : (s.timer.event event).expireTime < now := by omega
    have hsubset : rest ++ [event].filter (putBack react s.timer) ⊆ event :: rest := by
      intro x hx
      obtain hx | hx := List.mem_append.mp hx
      · exact List.mem_cons_of_mem _ hx
      · exact List.mem_cons.mpr (.inl (List.mem_singleton.mp (List.mem_filter.mp hx).1))
    have hlog : s.fired <+: (ThriftProxy.fire timer react s event).fired := by
      rw [fire_fired]
      exact List.prefix_append _ _
    obtain rfl | ⟨fewer, hfewer, hmore⟩ :=
      timerCheckEvent_expired h.ring hexpired (h.own event List.mem_cons_self) hscan
    · exact ⟨_, h.fire hreact, hsubset, hlog⟩
    · obtain ⟨members', hsched, hmem, hprefix⟩ := ih fewer hfewer (h.fire hreact) hmore
      exact ⟨members', hsched, List.Subset.trans hmem hsubset, hlog.trans hprefix⟩

/-- Whenever a scan ends that has fired an expired first event, the event is
pending only if its callback has put it back. -/
theorem Scheduled.timerCheckEvent_expired (h : Scheduled own timer s.timer (event :: rest))
    (hreact : OwnReactions own react) (hexpired : (s.timer.event event).expireTime < now)
    {rounds : ℕ}
    (hscan : ThriftProxy.timerCheckEvent (checkHost own timer react) timer now rounds s =
      some s') :
    ∃ members', Scheduled own timer s'.timer members' ∧
      members' ⊆ rest ++ [event].filter (putBack react s.timer) ∧
      (ThriftProxy.fire timer react s event).fired <+: s'.fired := by
  obtain rfl | ⟨fewer, -, hmore⟩ :=
    ThriftProxy.timerCheckEvent_expired h.ring hexpired (h.own event List.mem_cons_self) hscan
  · exact ⟨_, h.fire hreact, List.Subset.refl _, List.prefix_rfl⟩
  · exact (h.fire hreact).timerCheckEvent hreact hmore

/-- Firing events at the front of the list. -/
theorem Scheduled.fireAll {pre : List ν} (h : Scheduled own timer s.timer (pre ++ rest))
    (hreact : OwnReactions own react) :
    Scheduled own timer (fireAll timer react pre s).timer
      (rest ++ pre.filter (putBack react s.timer)) := by
  induction pre generalizing s rest with
  | nil => simpa [ThriftProxy.fireAll] using h
  | cons e pre ih =>
    have he : e ∉ pre := by
      have hnodup := (List.nodup_cons.mp h.ring.nodup).2
      exact fun hmem => (List.nodup_cons.mp hnodup).1 (List.mem_append_left _ hmem)
    rw [List.cons_append] at h
    have hfired := h.fire hreact
    rw [List.append_assoc] at hfired
    have hsched := ih hfired
    rw [filter_putBack_fire he, List.append_assoc, ← List.filter_append] at hsched
    exact hsched

/-! ## Checks that fire exactly the expired events -/

/-- A check has fired exactly the expired events, each once, and has taken exactly
these out of the list, into which some have been put back by their callbacks. -/
structure FiredExactly (react : ν → Reaction κ) (timer : ν) (now : ℤ) (t : Timer ν κ)
    (members : List ν) (s : CheckState ν κ) : Prop where
  /-- The callbacks called. -/
  fired : s.fired.Perm (members.filter fun e =>
    decide ((t.event e).expireTime < now) && (t.event e).func.isSome)
  /-- The list that the check leaves. -/
  ring : ∃ members', IsRing s.timer.links timer members' ∧ members'.Perm
    (members.filter fun e => !decide ((t.event e).expireTime < now) || putBack react t e)
  /-- The other events are as before. -/
  kept : ∀ e ∈ members, now ≤ (t.event e).expireTime → s.timer.event e = t.event e

section

variable {t : Timer ν κ} {members pre post : List ν}

/-- Firing the events at the front is exact when these are the expired ones. -/
theorem firedExactly_fireAll (react : ν → Reaction κ)
    (h : Scheduled own timer t (pre ++ post))
    (hpre : ∀ e ∈ pre, (t.event e).expireTime < now)
    (hpost : ∀ e ∈ post, now ≤ (t.event e).expireTime) :
    FiredExactly react timer now t (pre ++ post) (fireAll timer react pre ⟨t, []⟩) := by
  have hnodup := (List.nodup_cons.mp h.ring.nodup).2
  have hring : IsRing (fireAll timer react pre ⟨t, []⟩).timer.links timer _ :=
    fireAll_isRing (s := ⟨t, []⟩) h.ring
  refine ⟨?_, ⟨_, hring, ?_⟩, ?_⟩
  · have hnone : post.filter (fun e =>
        decide ((t.event e).expireTime < now) && (t.event e).func.isSome) = [] := by
      rw [List.filter_eq_nil_iff]
      intro e he
      have := hpost e he
      simp [show ¬ (t.event e).expireTime < now by omega]
    have hall : pre.filter (fun e =>
        decide ((t.event e).expireTime < now) && (t.event e).func.isSome) =
        pre.filter fun e => (t.event e).func.isSome := by
      apply List.filter_congr
      intro e he
      simp [hpre e he]
    rw [fireAll_fired (List.nodup_append.mp hnodup).1, List.filter_append, hnone, hall,
      List.nil_append, List.append_nil]
  · have hall : post.filter (fun e =>
        !decide ((t.event e).expireTime < now) || putBack react t e) = post := by
      rw [List.filter_eq_self]
      intro e he
      have := hpost e he
      simp [show ¬ (t.event e).expireTime < now by omega]
    have hback : pre.filter (fun e =>
        !decide ((t.event e).expireTime < now) || putBack react t e) =
        pre.filter (putBack react t) := by
      apply List.filter_congr
      intro e he
      simp [hpre e he]
    rw [List.filter_append, hall, hback]
    exact List.perm_append_comm
  · intro e he hpending
    refine fireAll_event_of_notMem fun hmem => ?_
    have := hpre e hmem
    omega

/-- A scan that has stopped at an event was exact if no expired event stands behind it. -/
theorem FiredExactly.pending_behind (h : Scheduled own timer t (pre ++ event :: rest))
    (hexact : FiredExactly react timer now t (pre ++ event :: rest)
      (fireAll timer react pre ⟨t, []⟩)) {e : ν} (he : e ∈ rest) :
    now ≤ (t.event e).expireTime := by
  by_contra hexpired
  have hexpired : (t.event e).expireTime < now := by omega
  have hnodup := (List.nodup_cons.mp h.ring.nodup).2
  have hmem : e ∈ pre ++ event :: rest :=
    List.mem_append_right _ (List.mem_cons_of_mem _ he)
  have hpre : e ∉ pre := fun hin =>
    (List.nodup_append.mp hnodup).2.2 e hin e (List.mem_cons_of_mem _ he) rfl
  cases hfunc : (t.event e).func with
  | some func =>
    have hfired : e ∈ (fireAll timer react pre ⟨t, []⟩).fired := by
      rw [hexact.fired.mem_iff, List.mem_filter]
      simp [hmem, hexpired, hfunc]
    rw [fireAll_fired (List.nodup_append.mp hnodup).1, List.nil_append] at hfired
    exact hpre (List.mem_filter.mp hfired).1
  | none =>
    obtain ⟨members', hring, hperm⟩ := hexact.ring
    have hleft : IsRing (fireAll timer react pre ⟨t, []⟩).timer.links timer _ :=
      fireAll_isRing (s := ⟨t, []⟩) h.ring
    have hstill : e ∈ members' := by
      rw [hring.unique hleft]
      exact List.mem_append_left _ (List.mem_cons_of_mem _ he)
    rw [hperm.mem_iff, List.mem_filter] at hstill
    simp [hexpired, putBack, hfunc] at hstill

/-- No expired event stands behind one that has not expired. When all have expired,
the first event put back before the last one is fired has not expired again. -/
def InOrder (react : ν → Reaction κ) (now : ℤ) (t : Timer ν κ) (members : List ν) : Prop :=
  members.Pairwise (fun a b => now ≤ (t.event a).expireTime → now ≤ (t.event b).expireTime) ∧
  ((∀ e ∈ members, (t.event e).expireTime < now) →
    ∀ e ∈ (members.dropLast.filter (putBack react t)).head?,
      now ≤ (afterFire react t e).expireTime)

/-- A scan that comes to an event that has not expired. -/
theorem scan_of_pending (react : ν → Reaction κ)
    (h : Scheduled own timer t (pre ++ event :: rest))
    (hpre : ∀ e ∈ pre, (t.event e).expireTime < now)
    (hpending : now ≤ (t.event event).expireTime) :
    timerCheckEvent (checkHost own timer react) timer now (1 + pre.length) ⟨t, []⟩ =
      some (fireAll timer react pre ⟨t, []⟩) := by
  have hring : IsRing (fireAll timer react pre ⟨t, []⟩).timer.links timer
      (event :: (rest ++ pre.filter (putBack react t))) :=
    fireAll_isRing (s := ⟨t, []⟩) h.ring
  have hout : event ∉ pre := fun hmem => by
    have := hpre event hmem
    omega
  rw [timerCheckEvent_fireAll h.ring hpre fun e he => h.own e (List.mem_append_left _ he)]
  refine timerCheckEvent_pending hring ?_
  rwa [fireAll_event_of_notMem hout]

/-- The scan of a list in which some event has not expired is exact if and only
if no expired event stands behind it. -/
theorem exact_of_pending_iff (h : Scheduled own timer t (pre ++ event :: rest))
    (hpre : ∀ e ∈ pre, (t.event e).expireTime < now)
    (hpending : now ≤ (t.event event).expireTime) :
    (∃ rounds s, timerCheckEvent (checkHost own timer react) timer now rounds ⟨t, []⟩ = some s ∧
      FiredExactly react timer now t (pre ++ event :: rest) s) ↔
      InOrder react now t (pre ++ event :: rest) := by
  have hscan := scan_of_pending react h hpre hpending
  constructor
  · rintro ⟨rounds, s, hs, hexact⟩
    obtain rfl := timerCheckEvent_unique hs hscan
    have hbehind := fun e (he : e ∈ rest) => FiredExactly.pending_behind h hexact he
    refine ⟨?_, ?_⟩
    · rw [List.pairwise_append]
      refine ⟨?_, ?_, ?_⟩
      · refine List.pairwise_of_forall_mem_list fun a ha b _ hle => ?_
        exact absurd (hpre a ha) (by omega)
      · refine List.pairwise_cons.mpr ⟨fun e he _ => hbehind e he, ?_⟩
        exact List.pairwise_of_forall_mem_list fun a _ b hb _ => hbehind b hb
      · intro a ha b _ hle
        exact absurd (hpre a ha) (by omega)
    · intro hall
      exact absurd (hall event (by simp)) (by omega)
  · rintro ⟨horder, -⟩
    refine ⟨_, _, hscan, firedExactly_fireAll react h hpre ?_⟩
    intro e he
    obtain rfl | he := List.mem_cons.mp he
    · exact hpending
    · exact (List.pairwise_cons.mp (List.pairwise_append.mp horder).2.1).1 e he hpending

/-- When all events have expired, the scan fires all of them. Then it ends, unless
an event had been put back before the last one was fired. -/
theorem scan_of_expired (react : ν → Reaction κ)
    (h : Scheduled own timer t (pre ++ [event]))
    (hall : ∀ e ∈ pre ++ [event], (t.event e).expireTime < now) (rounds : ℕ) :
    timerCheckEvent (checkHost own timer react) timer now (rounds + 2 + pre.length) ⟨t, []⟩ =
      if pre.filter (putBack react t) = [] then
        some (fireAll timer react (pre ++ [event]) ⟨t, []⟩)
      else
        timerCheckEvent (checkHost own timer react) timer now (rounds + 1)
          (fireAll timer react (pre ++ [event]) ⟨t, []⟩) := by
  have hring : IsRing (fireAll timer react pre ⟨t, []⟩).timer.links timer
      (event :: pre.filter (putBack react t)) :=
    fireAll_isRing (s := ⟨t, []⟩) h.ring
  have hout : event ∉ pre := by
    have hnodup := (List.nodup_cons.mp h.ring.nodup).2
    exact fun hmem => (List.nodup_append.mp hnodup).2.2 event hmem event List.mem_cons_self rfl
  have hsame : (fireAll timer react pre ⟨t, []⟩).timer.event event = t.event event :=
    fireAll_event_of_notMem hout
  have hlast : event ∈ pre ++ [event] := List.mem_append_right _ List.mem_cons_self
  have hexpired : ((fireAll timer react pre ⟨t, []⟩).timer.event event).expireTime < now := by
    rw [hsame]
    exact hall event hlast
  have hown : OwnEvent own (fireAll timer react pre ⟨t, []⟩).timer event := by
    intro func hfunc
    rw [hsame] at hfunc ⊢
    exact h.own event hlast func hfunc
  have hfire : fire timer react (fireAll timer react pre ⟨t, []⟩) event =
      fireAll timer react (pre ++ [event]) ⟨t, []⟩ := by
    rw [fireAll, fireAll, List.foldl_append, List.foldl_cons, List.foldl_nil]
  rw [timerCheckEvent_fireAll h.ring (fun e he => hall e (List.mem_append_left _ he))
    fun e he => h.own e (List.mem_append_left _ he)]
  split
  next hnone =>
    rw [hnone] at hring
    rw [timerCheckEvent_last hring hexpired hown, timerCheckLoop_head, hfire]
  next hsome =>
    obtain ⟨second, back, hback⟩ := List.exists_cons_of_ne_nil hsome
    rw [hback] at hring
    rw [timerCheckEvent_fire hring hexpired hown, hfire]

/-- A scan that fires an event once more was not exact. -/
theorem not_firedExactly_of_again
    (h : Scheduled own timer (fireAll timer react members ⟨t, []⟩).timer (event :: rest))
    (hreact : OwnReactions own react) (hmem : event ∈ members)
    (hback : putBack react t event = true)
    (hall : ∀ e ∈ members, (t.event e).expireTime < now) (hnodup : members.Nodup)
    (hexpired : ((fireAll timer react members ⟨t, []⟩).timer.event event).expireTime < now)
    {rounds : ℕ}
    (hscan : timerCheckEvent (checkHost own timer react) timer now rounds
      (fireAll timer react members ⟨t, []⟩) = some s) :
    ¬ FiredExactly react timer now t members s := by
  intro hexact
  obtain ⟨left, hleft, hsubset, hprefix⟩ := h.timerCheckEvent_expired hreact hexpired hscan
  rw [fire_fired, fireAll_fired hnodup, List.nil_append] at hprefix
  cases hfunc : ((fireAll timer react members ⟨t, []⟩).timer.event event).func with
  | some func =>
    have hlong := hprefix.length_le
    rw [hexact.fired.length_eq] at hlong
    have honce : members.filter (fun e =>
        decide ((t.event e).expireTime < now) && (t.event e).func.isSome) =
        members.filter fun e => (t.event e).func.isSome := by
      apply List.filter_congr
      intro e he
      simp [hall e he]
    rw [honce] at hlong
    simp only [List.length_append, List.filter_cons, hfunc, Option.isSome_some, if_true,
      List.length_cons] at hlong
    omega
  | none =>
    obtain ⟨members', hring, hperm⟩ := hexact.ring
    have hstill : event ∈ left := by
      rw [hleft.ring.unique hring, hperm.mem_iff, List.mem_filter]
      simp [hmem, hback]
    have hout := hsubset hstill
    have hrest : event ∉ rest :=
      (List.nodup_cons.mp (List.nodup_cons.mp h.ring.nodup).2).1
    simp [putBack, hfunc, hrest] at hout

/-- The scan of a list of expired events is exact if and only if it does not fire
the first event that was put back once more. -/
theorem exact_of_expired_iff (h : Scheduled own timer t (pre ++ [event]))
    (hreact : OwnReactions own react)
    (hall : ∀ e ∈ pre ++ [event], (t.event e).expireTime < now) :
    (∃ rounds s, timerCheckEvent (checkHost own timer react) timer now rounds ⟨t, []⟩ = some s ∧
      FiredExactly react timer now t (pre ++ [event]) s) ↔
      InOrder react now t (pre ++ [event]) := by
  have hexact : FiredExactly react timer now t (pre ++ [event])
      (fireAll timer react (pre ++ [event]) ⟨t, []⟩) := by
    have h' : Scheduled own timer t ((pre ++ [event]) ++ []) := by rwa [List.append_nil]
    have := firedExactly_fireAll react h' hall (by simp)
    rwa [List.append_nil] at this
  have horder : (pre ++ [event]).Pairwise fun a b =>
      now ≤ (t.event a).expireTime → now ≤ (t.event b).expireTime := by
    refine List.pairwise_of_forall_mem_list fun a ha b _ hle => ?_
    exact absurd (hall a ha) (by omega)
  have hnodup := (List.nodup_cons.mp h.ring.nodup).2
  rw [InOrder, List.dropLast_concat]
  cases hback : pre.filter (putBack react t) with
  | nil =>
    have hscan := scan_of_expired react h hall 0
    rw [if_pos hback] at hscan
    exact iff_of_true ⟨_, _, hscan, hexact⟩ ⟨horder, fun _ e he => by cases he⟩
  | cons again back =>
    have hscan := scan_of_expired react h hall
    simp only [hback, reduceCtorEq, if_false] at hscan
    have hagain : again ∈ pre ∧ putBack react t again = true := by
      rw [← List.mem_filter, hback]
      exact List.mem_cons_self
    have hmem : again ∈ pre ++ [event] := List.mem_append_left _ hagain.1
    have hafter : (fireAll timer react (pre ++ [event]) ⟨t, []⟩).timer.event again =
        afterFire react t again := fireAll_event_of_mem (s := ⟨t, []⟩) hnodup hmem
    have hsched : Scheduled own timer (fireAll timer react (pre ++ [event]) ⟨t, []⟩).timer
        (again :: (back ++ [event].filter (putBack react t))) := by
      have h' : Scheduled own timer t ((pre ++ [event]) ++ []) := by rwa [List.append_nil]
      have := h'.fireAll (s := ⟨t, []⟩) hreact
      rwa [List.nil_append, List.filter_append, hback, List.cons_append] at this
    constructor
    · rintro ⟨rounds, s, hs, hfired⟩
      refine ⟨horder, fun _ e he => ?_⟩
      obtain rfl : again = e := Option.some.inj he
      by_contra hexpired
      rw [← hafter, Int.not_le] at hexpired
      have hmore := timerCheckLoop_mono (Nat.le_add_right rounds (2 + pre.length)) hs
      rw [← Nat.add_assoc] at hmore
      have hrest := (hscan rounds).symm.trans hmore
      exact not_firedExactly_of_again hsched hreact hmem hagain.2 hall hnodup hexpired hrest hfired
    · rintro ⟨-, hpending⟩
      refine ⟨_, _, (hscan 0).trans (timerCheckEvent_pending hsched.ring ?_), hexact⟩
      rw [hafter]
      exact hpending hall again rfl

/-- A check at `now` is exact if and only if the pending events are in order. -/
theorem exact_iff_inOrder (h : Scheduled own timer t members) (hreact : OwnReactions own react) :
    (∃ rounds s, timerCheckEvent (checkHost own timer react) timer now rounds ⟨t, []⟩ = some s ∧
      FiredExactly react timer now t members s) ↔ InOrder react now t members := by
  by_cases hall : ∀ e ∈ members, (t.event e).expireTime < now
  · obtain rfl | ⟨pre, event, rfl⟩ := List.eq_nil_or_concat' members
    · have h' : Scheduled own timer t ([] ++ []) := h
      have hexact : FiredExactly react timer now t ([] ++ []) (fireAll timer react [] ⟨t, []⟩) :=
        firedExactly_fireAll react h' (by simp) (by simp)
      exact iff_of_true ⟨1, _, timerCheckEvent_nil h.ring, hexact⟩ ⟨by simp, by simp⟩
    · exact exact_of_expired_iff h hreact hall
  · have hsome : ∃ e, members.find? (fun e => decide (now ≤ (t.event e).expireTime)) = some e := by
      rw [← Option.isSome_iff_exists, List.find?_isSome]
      simpa using hall
    obtain ⟨event, hfind⟩ := hsome
    obtain ⟨hpending, pre, rest, rfl, hpre⟩ := List.find?_eq_some_iff_append.mp hfind
    refine exact_of_pending_iff h ?_ (by simpa using hpending)
    intro e he
    simpa using hpre e he

end

/-! ## Runs -/

/-- The calls made on a timer. -/
inductive TimerCall (ν κ : Type)
  /-- `timer_add_event`. -/
  | add (event : ν) (expireTime : ℤ) (func : Option κ) (owner arg : ℕ)
  /-- `timer_del_event`. -/
  | delete (event : ν)
  /-- `timer_check_event` at a clock reading, and what the callbacks of the events do. -/
  | check (now : ℤ) (react : ν → Reaction κ)

section

variable (own : κ → ℕ → ℕ → ν) (timer : ν)

/-- A call made on a timer, which leaves no timer when it does not return. An event
is added when it is in no list, and with arguments that lead its callback back to it. -/
inductive TimerStep : Option (Timer ν κ) → TimerCall ν κ → Option (Timer ν κ) → Prop
  | add {t : Timer ν κ} {event : ν} {expireTime : ℤ} {func : Option κ} {owner arg : ℕ} :
      event ≠ timer → Isolated t.links event → (∀ f, func = some f → own f owner arg = event) →
      TimerStep (some t) (.add event expireTime func owner arg)
        (some (timerAddEvent t timer event expireTime func owner arg))
  | delete {t : Timer ν κ} {event : ν} :
      event ≠ timer → TimerStep (some t) (.delete event) (some (timerDelEvent t event))
  | check {t : Timer ν κ} {now : ℤ} {react : ν → Reaction κ} {rounds : ℕ} {s : CheckState ν κ} :
      OwnReactions own react →
      timerCheckEvent (checkHost own timer react) timer now rounds ⟨t, []⟩ = some s →
      TimerStep (some t) (.check now react) (some s.timer)
  | hang {t : Timer ν κ} {now : ℤ} {react : ν → Reaction κ} :
      OwnReactions own react →
      (∀ rounds,
        timerCheckEvent (checkHost own timer react) timer now rounds ⟨t, []⟩ = none) →
      TimerStep (some t) (.check now react) none

/-- A check returns and fires exactly the expired events. -/
def ChecksExactly : Option (Timer ν κ) → TimerCall ν κ → Prop
  | some t, .check now react => ∃ members, IsRing t.links timer members ∧
      ∃ rounds s, timerCheckEvent (checkHost own timer react) timer now rounds ⟨t, []⟩ = some s ∧
        FiredExactly react timer now t members s
  | _, _ => True

/-- A check finds the pending events in order. -/
def ChecksInOrder : Option (Timer ν κ) → TimerCall ν κ → Prop
  | some t, .check now react => ∃ members, IsRing t.links timer members ∧
      InOrder react now t members
  | _, _ => True

/-- A timer that has been initialised, with no event in any list. -/
def Timer.Fresh (t : Timer ν κ) : Prop := ∀ n, Isolated t.links n

end

section

variable {t : Timer ν κ} {members : List ν}

omit [DecidableEq ν] in
/-- What is said of the pending events of a timer is said of its one list. -/
theorem Scheduled.exists_ring_iff (h : Scheduled own timer t members) {p : List ν → Prop} :
    (∃ others, IsRing t.links timer others ∧ p others) ↔ p members := by
  constructor
  · rintro ⟨others, hring, hp⟩
    rwa [h.ring.unique hring]
  · intro hp
    exact ⟨members, h.ring, hp⟩

omit [DecidableEq ν] in
/-- An initialised timer has no pending events. -/
theorem Timer.Fresh.scheduled (h : t.Fresh) : Scheduled own timer t [] :=
  ⟨isRing_nil_iff.mpr (h timer), fun n _ => h n, fun _ he => by cases he⟩

/-- Every call keeps the pending events in one list. -/
theorem Scheduled.step {call : TimerCall ν κ} {o : Option (Timer ν κ)}
    (h : Scheduled own timer t members) (hstep : TimerStep own timer (some t) call o) :
    ∀ t' ∈ o, ∃ members', Scheduled own timer t' members' := by
  intro t' ht'
  cases hstep with
  | add hhead hfree hown =>
    obtain rfl := Option.some.inj ht'
    refine ⟨_, h.add ?_ _ hown⟩
    rw [List.mem_cons, not_or]
    exact ⟨hhead, fun hmem => h.ring.not_isolated hmem hfree⟩
  | @delete _ event hhead =>
    obtain rfl := Option.some.inj ht'
    by_cases hmem : event ∈ members
    · exact ⟨_, h.delete hmem⟩
    · exact ⟨_, h.clear (by simp [hhead, hmem])⟩
  | check hreact hscan =>
    obtain rfl := Option.some.inj ht'
    obtain ⟨members', hsched, -⟩ := Scheduled.timerCheckEvent h hreact hscan
    exact ⟨members', hsched⟩
  | hang hreact hscan => cases ht'

end

/-- **Timer exactness.** In every run, every check fires exactly the pending events
that have expired, each once, and takes exactly these out of the list, if and only
if every check finds the pending events in order. -/
theorem checksExactly_along_iff (own : κ → ℕ → ℕ → ν) (timer : ν) {t : Timer ν κ} (h : t.Fresh)
    (calls : List (TimerCall ν κ)) :
    Along (TimerStep own timer) (ChecksExactly own timer) (some t) calls ↔
      Along (TimerStep own timer) (ChecksInOrder timer) (some t) calls := by
  apply along_congr
    (I := fun o => ∀ t ∈ o, ∃ members, Scheduled own timer t members)
  · intro o call o' hsched hstep
    cases o with
    | none => cases hstep
    | some t =>
      obtain ⟨members, hmembers⟩ := hsched t rfl
      exact hmembers.step hstep
  · intro o call o' hsched hstep
    cases o with
    | none => cases hstep
    | some t =>
      obtain ⟨members, hmembers⟩ := hsched t rfl
      cases hstep with
      | add | delete => exact Iff.rfl
      | check hreact | hang hreact =>
        exact (hmembers.exists_ring_iff.trans (exact_iff_inOrder hmembers hreact)).trans
          hmembers.exists_ring_iff.symm
  · rintro t' ht'
    obtain rfl := Option.some.inj ht'
    exact ⟨[], h.scheduled⟩

/-! ## A clock that is set back -/

/-- A timer whose head is node 0, before any event is added. -/
def freshTimer : Timer ℕ Unit := { links := ⟨id, id⟩, event := fun _ => .cleared }

/-- All nodes of the new timer are isolated. -/
theorem freshTimer_fresh : freshTimer.Fresh := fun _ => ⟨rfl, rfl⟩

/-- Two events are added with the given times, and the timer is checked at 80. Each
callback is given its event as `owner` and leaves it alone. -/
def twoEvents (first second : ℤ) : List (TimerCall ℕ Unit) :=
  [.add 1 first (some ()) 1 0, .add 2 second (some ()) 2 0, .check 80 fun _ => .leave]

/-- The callback of an event finds it in its argument `owner`. -/
def byOwner (_ : Unit) (owner _ : ℕ) : ℕ := owner

/-- The timer after the first event of `twoEvents`. -/
def oneAdded (first : ℤ) : Timer ℕ Unit := timerAddEvent freshTimer 0 1 first (some ()) 1 0

/-- The timer after both events of `twoEvents`. -/
def twoAdded (first second : ℤ) : Timer ℕ Unit :=
  timerAddEvent (oneAdded first) 0 2 second (some ()) 2 0

/-- The steps of `twoEvents` up to the check. -/
theorem twoAdded_steps (first second : ℤ) :
    TimerStep byOwner 0 (some freshTimer) (.add 1 first (some ()) 1 0) (some (oneAdded first)) ∧
    TimerStep byOwner 0 (some (oneAdded first)) (.add 2 second (some ()) 2 0)
      (some (twoAdded first second)) :=
  ⟨.add (by decide) ⟨rfl, rfl⟩ fun _ _ => rfl, .add (by decide) ⟨rfl, rfl⟩ fun _ _ => rfl⟩

/-- After both events have been added they are pending in this order. -/
theorem twoAdded_scheduled (first second : ℤ) :
    Scheduled byOwner 0 (twoAdded first second) [1, 2] := by
  have hone : Scheduled byOwner 0 (oneAdded first) [1] :=
    freshTimer_fresh.scheduled.add (by decide) _ fun _ _ => rfl
  exact hone.add (by decide) _ fun _ _ => rfl

/-- With the clock set back by fifty seconds between two calls that each add an event
due in ten, the second event expires first, and a check does not fire it. -/
theorem earlier_behind_later_not_fired :
    freshTimer.Fresh ∧
    ¬ Along (TimerStep byOwner 0) (ChecksExactly byOwner 0) (some freshTimer)
      (twoEvents 110 60) := by
  refine ⟨freshTimer_fresh, ?_⟩
  intro h
  obtain ⟨hfirst, hsecond⟩ := twoAdded_steps 110 60
  obtain ⟨-, hrest⟩ := along_cons.mp h _ hfirst
  obtain ⟨-, hcheck⟩ := along_cons.mp hrest _ hsecond
  have hreact : OwnReactions byOwner fun _ : ℕ => (.leave : Reaction Unit) := by
    rintro e expireTime func owner arg ⟨⟩
  have hscan : timerCheckEvent (checkHost byOwner 0 fun _ : ℕ => .leave) 0 80 1
      ⟨twoAdded 110 60, []⟩ = some ⟨twoAdded 110 60, []⟩ := rfl
  have hstep : TimerStep byOwner 0 (some (twoAdded 110 60)) (.check 80 fun _ => .leave)
      (some (twoAdded 110 60)) := .check hreact hscan
  obtain ⟨hexact, -⟩ := along_cons.mp hcheck _ hstep
  have hsched := twoAdded_scheduled 110 60
  obtain ⟨horder, -⟩ := (exact_iff_inOrder hsched hreact).mp (hsched.exists_ring_iff.mp hexact)
  have hlate := (List.pairwise_cons.mp horder).1 2 List.mem_cons_self
  exact absurd (hlate (by decide)) (by decide)

/-- With a steady clock the first event expires first, and the check fires it. -/
theorem earlier_before_later_fired :
    Along (TimerStep byOwner 0) (ChecksExactly byOwner 0) (some freshTimer)
      (twoEvents 60 110) := by
  refine (checksExactly_along_iff byOwner 0 freshTimer_fresh _).mpr ?_
  refine along_cons.mpr fun o ho => ⟨trivial, ?_⟩
  obtain rfl : o = some (oneAdded 60) := by
    cases ho
    rfl
  refine along_cons.mpr fun o ho => ⟨trivial, ?_⟩
  obtain rfl : o = some (twoAdded 60 110) := by
    cases ho
    rfl
  refine along_cons.mpr fun o ho => ⟨?_, along_nil⟩
  refine (twoAdded_scheduled 60 110).exists_ring_iff.mpr ⟨?_, ?_⟩
  · simp only [List.pairwise_cons]
    decide
  · intro hall
    exact absurd (hall 2 (by decide)) (by decide)

end ThriftProxy
