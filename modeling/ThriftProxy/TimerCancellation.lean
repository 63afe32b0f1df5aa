import ThriftProxy.Timer
import ThriftProxy.Lib.Transition

/-!
# Callbacks that cancel events

The callbacks of a check may cancel any events of the timer that is being checked.
A cancelled event is never fired. But the loop has saved the node behind the event
whose callback it calls, and a cancelled node leads to itself: when that node is
cancelled, the check does not come back to the head of the list.
-/

namespace ThriftProxy

open Intrusive Transition

/-! ## The rounds of a check -/

section

variable {σ ν κ : Type} [DecidableEq ν]

/-- The loop of `timer_check_event` at its head. -/
structure ScanHead (σ ν : Type) where
  /-- `pos`. -/
  pos : ν
  /-- `next`. -/
  next : ν
  /-- The state with the timer in it. -/
  state : σ

variable (host : TimerHost σ ν κ) (timer : ν) (now : ℤ)

/-- The loop ends here. -/
def ScanHead.Stops (h : ScanHead σ ν) : Prop :=
  h.pos = timer ∨ now ≤ ((host.timer h.state).event h.pos).expireTime

/-- The head of the loop behind a round that has led to a state. -/
def ScanHead.advance (h : ScanHead σ ν) (s : σ) : ScanHead σ ν :=
  { pos := h.next, next := (host.timer s).links.next h.next, state := s }

/-- A round of the loop, with the event whose callback it calls. -/
inductive ScanStep : ScanHead σ ν → Option ν → ScanHead σ ν → Prop
  /-- An expired event without a callback is unlinked. -/
  | silent {h : ScanHead σ ν} : ¬ h.Stops host timer now →
      ((host.timer h.state).event h.pos).func = none →
      ScanStep h none (h.advance host (host.unlink h.pos h.state))
  /-- An expired event is unlinked and its callback called. -/
  | fires {h : ScanHead σ ν} {func : κ} {s : σ} : ¬ h.Stops host timer now →
      ((host.timer h.state).event h.pos).func = some func →
      host.call func ((host.timer h.state).event h.pos).owner
        ((host.timer h.state).event h.pos).arg (host.unlink h.pos h.state) = some s →
      ScanStep h (some h.pos) (h.advance host s)

variable {host timer now} {h h' : ScanHead σ ν} {op : Option ν} {s' : σ}

/-- The loop stops at a head at which it ends. -/
theorem ScanHead.Stops.loop_eq (hstops : h.Stops host timer now) (rounds : ℕ) :
    timerCheckLoop host timer now (rounds + 1) h.pos h.next h.state = some h.state := by
  rcases hstops with hpos | hpending
  · rw [hpos]
    exact timerCheckLoop_head
  · by_cases hpos : h.pos = timer
    · rw [hpos]
      exact timerCheckLoop_head
    · exact timerCheckLoop_pending hpos rfl hpending

/-- The loop goes on behind a round. -/
theorem ScanStep.loop_eq (hstep : ScanStep host timer now h op h') (rounds : ℕ) :
    timerCheckLoop host timer now (rounds + 1) h.pos h.next h.state =
      timerCheckLoop host timer now rounds h'.pos h'.next h'.state := by
  cases hstep with
  | silent hgo hfunc =>
    obtain ⟨hpos, hlate⟩ := not_or.mp hgo
    rw [timerCheckLoop, if_neg hpos]
    simp only [hfunc, Option.bind_some, if_neg hlate]
    rfl
  | fires hgo hfunc hcall =>
    obtain ⟨hpos, hlate⟩ := not_or.mp hgo
    exact timerCheckLoop_expired hpos rfl (Int.not_le.mp hlate) hfunc hcall

/-- The loop returns a state within a number of rounds if and only if fewer rounds lead
to a head at which it stops. -/
theorem timerCheckLoop_eq_some_iff (rounds : ℕ) :
    timerCheckLoop host timer now rounds h.pos h.next h.state = some s' ↔
      ∃ ops h', Run (ScanStep host timer now) h ops h' ∧ ops.length < rounds ∧
        h'.Stops host timer now ∧ h'.state = s' := by
  constructor
  · intro hloop
    induction rounds generalizing h with
    | zero => simp [timerCheckLoop] at hloop
    | succ rounds ih =>
      by_cases hstops : h.Stops host timer now
      · rw [hstops.loop_eq] at hloop
        exact ⟨[], h, Run.nil h, by simp, hstops, Option.some.inj hloop⟩
      · obtain ⟨op, h₁, hstep⟩ : ∃ op h₁, ScanStep host timer now h op h₁ := by
          obtain ⟨hpos, hlate⟩ := not_or.mp hstops
          cases hfunc : ((host.timer h.state).event h.pos).func with
          | none => exact ⟨none, _, .silent hstops hfunc⟩
          | some func =>
            rw [timerCheckLoop, if_neg hpos] at hloop
            simp only [hfunc, if_neg hlate] at hloop
            obtain ⟨s, hcall, -⟩ := Option.bind_eq_some_iff.mp hloop
            exact ⟨some h.pos, _, .fires hstops hfunc hcall⟩
        rw [hstep.loop_eq] at hloop
        obtain ⟨ops, h', hrun, hlength, hend⟩ := ih hloop
        exact ⟨op :: ops, h', Run.cons hstep hrun, by simpa using hlength, hend⟩
  · rintro ⟨ops, h', hrun, hlength, hstops, rfl⟩
    induction hrun generalizing rounds with
    | nil h =>
      obtain ⟨rounds, rfl⟩ : ∃ k, rounds = k + 1 := ⟨rounds - 1, by simp at hlength; omega⟩
      exact hstops.loop_eq rounds
    | cons hstep _ ih =>
      obtain ⟨rounds, rfl⟩ : ∃ k, rounds = k + 1 := ⟨rounds - 1, by simp at hlength; omega⟩
      rw [hstep.loop_eq]
      exact ih rounds (by simpa using hlength) hstops

end

/-! ## Cancelling events -/

/-- A check of a timer, with what its callbacks keep between calls and the events that
they have cancelled. -/
structure CancelState (ν κ μ : Type) where
  /-- The timer. -/
  timer : Timer ν κ
  /-- The memory of the callbacks. -/
  memory : μ
  /-- The events cancelled so far, in order. -/
  cancelled : List ν

section

variable {ν κ μ : Type} [DecidableEq ν]

/-- `timer_del_event` of some events in turn. -/
def timerDelEvents (t : Timer ν κ) (events : List ν) : Timer ν κ := events.foldl timerDelEvent t

/-- The links behind some cancellations. -/
theorem timerDelEvents_links (t : Timer ν κ) (events : List ν) :
    (timerDelEvents t events).links = events.foldl Links.unlink t.links := by
  induction events generalizing t with
  | nil => rfl
  | cons e events ih => exact ih (timerDelEvent t e)

/-- The events behind some cancellations. -/
theorem timerDelEvents_event (t : Timer ν κ) (events : List ν) (x : ν) :
    (timerDelEvents t events).event x = if x ∈ events then .cleared else t.event x := by
  induction events generalizing t with
  | nil => rfl
  | cons e events ih =>
    refine (ih (timerDelEvent t e)).trans ?_
    by_cases hx : x ∈ events
    · simp [hx]
    · by_cases hxe : x = e
      · simp [hxe, timerDelEvent]
      · simp [hx, hxe, timerDelEvent]

variable (cancels : κ → ℕ → ℕ → μ → List ν × μ)

/-- The state after a callback that cancels some events. -/
def afterCancels (func : κ) (owner arg : ℕ) (s : CancelState ν κ μ) : CancelState ν κ μ :=
  { timer := timerDelEvents s.timer (cancels func owner arg s.memory).1
    memory := (cancels func owner arg s.memory).2
    cancelled := s.cancelled ++ (cancels func owner arg s.memory).1 }

/-- A check whose callbacks cancel events and may keep something in memory. -/
def cancelHost : TimerHost (CancelState ν κ μ) ν κ where
  timer s := s.timer
  withTimer s t := { s with timer := t }
  call func owner arg s := some (afterCancels cancels func owner arg s)

/-- No callback that is called by a check of these events cancels the event behind its
own, where some of them are gone before. -/
def KeepsNext (now : ℤ) (t : Timer ν κ) : List ν → List ν → μ → Prop
  | [], _, _ => True
  | event :: events, gone, memory =>
    if event ∈ gone then KeepsNext now t events gone memory
    else now ≤ (t.event event).expireTime ∨
      match (t.event event).func with
      | none => KeepsNext now t events gone memory
      | some func =>
        let called := cancels func (t.event event).owner (t.event event).arg memory
        (∀ next ∈ events.find? (· ∉ gone), next ∉ called.1) ∧
          KeepsNext now t events (gone ++ called.1) called.2

end

/-! ## What the rounds keep -/

section

variable {ν κ μ : Type} [DecidableEq ν]

/-- A check with some events pending. The nodes that may be cancelled are in the list
or alone. -/
structure CancelState.Pending (s : CancelState ν κ μ) (known : ν → Prop) (timer : ν)
    (events : List ν) : Prop where
  /-- The list of the timer. -/
  ring : IsRing s.timer.links timer events
  /-- The other nodes that may be cancelled are in no list. -/
  apart : ∀ x, known x → x ∈ events ∨ Isolated s.timer.links x
  /-- Cancelled events have left the list. -/
  notMem : ∀ x ∈ s.cancelled, x ∉ events
  /-- Nothing is left of cancelled events. -/
  cleared : ∀ x ∈ s.cancelled, s.timer.event x = .cleared

/-- The loop is at the first pending event. -/
def ScanHead.AtFirst {σ : Type} (h : ScanHead σ ν) (timer : ν) (events : List ν) : Prop :=
  h.pos = events.headD timer ∧ h.next = events.tail.headD timer

/-- The loop is at a cancelled event, which it has saved as the next one. -/
structure ScanHead.Stuck (h : ScanHead (CancelState ν κ μ) ν) (timer : ν) : Prop where
  /-- The event follows itself. -/
  next_eq : h.next = h.pos
  /-- The loop does not end there. -/
  pos_ne : h.pos ≠ timer
  /-- The event is in no list. -/
  isolated : Isolated h.state.timer.links h.pos
  /-- Nothing is left of the event. -/
  cleared : h.state.timer.event h.pos = .cleared

variable {cancels : κ → ℕ → ℕ → μ → List ν × μ} {known : ν → Prop} {timer event : ν} {now : ℤ}
  {s : CancelState ν κ μ} {h h' : ScanHead (CancelState ν κ μ) ν} {events : List ν}
  {op : Option ν}

/-- The first event is unlinked. -/
theorem CancelState.Pending.unlink (hpend : s.Pending known timer (event :: events)) :
    ((cancelHost cancels).unlink event s).Pending known timer events := by
  have hrest : (event :: events).filter (· ≠ event) = events := by
    have hnodup := (List.nodup_cons.mp hpend.ring.nodup).2
    rw [List.filter_cons_of_neg (by simp), List.filter_eq_self]
    intro x hx
    have hne : x ≠ event := fun heq => (List.nodup_cons.mp hnodup).1 (heq ▸ hx)
    simpa using hne
  obtain ⟨hring, hknown⟩ := hpend.ring.unlink_known (.inl List.mem_cons_self)
  rw [hrest] at hring hknown
  exact {
    ring := hring
    apart := fun x hx => hknown x (hpend.apart x hx)
    notMem := fun x hx hmem => hpend.notMem x hx (List.mem_cons_of_mem _ hmem)
    cleared := hpend.cleared }

/-- A callback cancels events. -/
theorem CancelState.Pending.afterCancels (hpend : s.Pending known timer events) {func : κ}
    {owner arg : ℕ} (hknown : ∀ x ∈ (cancels func owner arg s.memory).1, known x) :
    (afterCancels cancels func owner arg s).Pending known timer
      (events.filter (· ∉ (cancels func owner arg s.memory).1)) := by
  obtain ⟨hring, hapart⟩ := hpend.ring.foldl_unlink fun n hn => hpend.apart n (hknown n hn)
  rw [← timerDelEvents_links] at hring hapart
  refine ⟨hring, fun x hx => hapart x (hpend.apart x hx), ?_, ?_⟩
  · intro x hx hmem
    obtain ⟨hmem, hnot⟩ := List.mem_filter.mp hmem
    rcases List.mem_append.mp hx with hx | hx
    · exact hpend.notMem x hx hmem
    · simp [hx] at hnot
  · intro x hx
    refine (timerDelEvents_event _ _ x).trans ?_
    rcases List.mem_append.mp hx with hx | hx
    · split
      · rfl
      · exact hpend.cleared x hx
    · exact if_pos hx

/-- The saved event is the first one that is still pending. -/
theorem CancelState.Pending.atFirst (hpend : s.Pending known timer events)
    (hnext : h.next = events.headD timer) :
    (h.advance (cancelHost cancels) s).AtFirst timer events := by
  refine ⟨hnext, ?_⟩
  rw [ScanHead.advance, hnext]
  exact hpend.ring.next_headD

/-- The saved event has been cancelled. -/
theorem CancelState.Pending.stuck (hpend : s.Pending known timer events)
    (hknown : known h.next) (hne : h.next ≠ timer) (hmem : h.next ∈ s.cancelled) :
    (h.advance (cancelHost cancels) s).Stuck timer := by
  have hiso : Isolated s.timer.links h.next :=
    (hpend.apart _ hknown).resolve_left (hpend.notMem _ hmem)
  exact ⟨hiso.1, hne, hiso, hpend.cleared _ hmem⟩

/-- A loop at a cancelled event stays where it is and fires nothing. -/
theorem ScanHead.Stuck.step (hstuck : h.Stuck timer)
    (hstep : ScanStep (cancelHost cancels) timer now h op h') : op = none ∧ h' = h := by
  have hfunc : (h.state.timer.event h.pos).func = none := by
    rw [hstuck.cleared]
    rfl
  have hsame : (cancelHost cancels).unlink h.pos h.state = h.state := by
    have hlinks : listDelInit h.state.timer.links h.pos = h.state.timer.links :=
      unlink_of_isolated hstuck.isolated
    simp only [TimerHost.unlink, cancelHost, hlinks]
  cases hstep with
  | silent hgo _ =>
    refine ⟨rfl, ?_⟩
    rw [hsame]
    obtain ⟨pos, next, s⟩ := h
    obtain rfl : next = pos := hstuck.next_eq
    rw [ScanHead.advance]
    congr 1
    exact hstuck.isolated.1
  | fires hgo hsome _ =>
    rw [show ((cancelHost cancels).timer h.state).event h.pos = h.state.timer.event h.pos from rfl,
      hfunc] at hsome
    cases hsome

/-- A callback that leaves the event behind its own alone. -/
theorem CancelState.Pending.called (hpend : s.Pending known timer events) {func : κ}
    {owner arg : ℕ} (hknown : ∀ x ∈ (cancels func owner arg s.memory).1, known x)
    (hnext : h.next = events.headD timer)
    (hkeeps : ∀ n ∈ events.head?, n ∉ (cancels func owner arg s.memory).1) :
    (h.advance (cancelHost cancels) (ThriftProxy.afterCancels cancels func owner arg s)).AtFirst
      timer (events.filter (· ∉ (cancels func owner arg s.memory).1)) := by
  refine (hpend.afterCancels hknown).atFirst ?_
  cases events with
  | nil => exact hnext
  | cons n events =>
    rw [List.filter_cons_of_pos (by simpa using hkeeps n rfl)]
    exact hnext

/-- A callback that cancels the event behind its own. -/
theorem CancelState.Pending.called_stuck (hpend : s.Pending known timer events) {func : κ}
    {owner arg : ℕ} (hknown : ∀ x ∈ (cancels func owner arg s.memory).1, known x)
    (hnext : h.next = events.headD timer) {n : ν} (hn : n ∈ events.head?)
    (hcancelled : n ∈ (cancels func owner arg s.memory).1) :
    (h.advance (cancelHost cancels) (ThriftProxy.afterCancels cancels func owner arg s)).Stuck
      timer := by
  cases events with
  | nil => cases hn
  | cons m events =>
    obtain rfl : m = n := Option.some.inj hn
    obtain rfl : h.next = m := hnext
    exact (hpend.afterCancels hknown).stuck (hknown _ hcancelled)
      (hpend.ring.ne_head List.mem_cons_self) (List.mem_append_right _ hcancelled)

/-- The loop is at the first pending event or at a cancelled one. -/
def ScanHead.Scanning (h : ScanHead (CancelState ν κ μ) ν) (known : ν → Prop) (timer : ν) : Prop :=
  (∃ events, h.state.Pending known timer events ∧ h.AtFirst timer events) ∨ h.Stuck timer

/-- The loop takes a round at an event. -/
theorem ScanStep.not_stops (hstep : ScanStep (cancelHost cancels) timer now h op h') :
    ¬ h.Stops (cancelHost cancels) timer now := by
  cases hstep with
  | silent hgo _ => exact hgo
  | fires hgo _ _ => exact hgo

/-- A round leads to the next pending event or to a cancelled one. -/
theorem ScanHead.Scanning.step
    (hcancels : ∀ func owner arg memory, ∀ x ∈ (cancels func owner arg memory).1, known x)
    (hscan : h.Scanning known timer) (hstep : ScanStep (cancelHost cancels) timer now h op h') :
    h'.Scanning known timer := by
  rcases hscan with ⟨events, hpend, hpos, hnext⟩ | hstuck
  · cases events with
    | nil => exact absurd (.inl hpos) hstep.not_stops
    | cons e events =>
      obtain rfl : h.pos = e := hpos
      have hunlinked : ((cancelHost cancels).unlink h.pos h.state).Pending known timer events :=
        hpend.unlink
      cases hstep with
      | silent _ _ => exact .inl ⟨events, hunlinked, hunlinked.atFirst hnext⟩
      | @fires func _ _ _ hcall =>
        obtain rfl := Option.some.inj hcall
        by_cases hkeeps : ∀ n ∈ events.head?, n ∉ (cancels func (h.state.timer.event h.pos).owner
            (h.state.timer.event h.pos).arg h.state.memory).1
        · exact .inl ⟨_, hunlinked.afterCancels (hcancels _ _ _ _),
            hunlinked.called (hcancels _ _ _ _) hnext hkeeps⟩
        · push Not at hkeeps
          obtain ⟨n, hn, hcancelled⟩ := hkeeps
          exact .inr (hunlinked.called_stuck (hcancels _ _ _ _) hnext hn hcancelled)
  · obtain ⟨-, rfl⟩ := hstuck.step hstep
    exact .inr hstuck

/-- No cancelled event is fired. -/
theorem ScanHead.Scanning.notMem_cancelled (hscan : h.Scanning known timer)
    (hstep : ScanStep (cancelHost cancels) timer now h op h') :
    ∀ e ∈ op, e ∉ h.state.cancelled := by
  rcases hscan with ⟨events, hpend, hpos, -⟩ | hstuck
  · cases events with
    | nil => exact absurd (.inl hpos) hstep.not_stops
    | cons e events =>
      obtain rfl : h.pos = e := hpos
      intro e he hmem
      cases hstep with
      | silent _ _ => cases he
      | fires _ _ _ =>
        obtain rfl := Option.some.inj he
        exact hpend.notMem _ hmem List.mem_cons_self
  · obtain ⟨rfl, -⟩ := hstuck.step hstep
    exact nofun

/-- A loop at a cancelled event ends only if the time that is left in it has not passed. -/
theorem ScanHead.Stuck.loop_iff (hstuck : h.Stuck timer) :
    (∃ rounds s', timerCheckLoop (cancelHost cancels) timer now rounds h.pos h.next h.state =
      some s') ↔ now ≤ 0 := by
  have hevent : ((cancelHost cancels).timer h.state).event h.pos = .cleared := hstuck.cleared
  constructor
  · rintro ⟨rounds, s', hloop⟩
    by_contra hlate
    have hgo : ¬ h.Stops (cancelHost cancels) timer now := by
      rintro (hpos | hpending)
      · exact hstuck.pos_ne hpos
      · rw [hevent] at hpending
        exact hlate hpending
    have hstep := ScanStep.silent hgo (by rw [hevent]; rfl)
    have hround := hstep.loop_eq
    rw [(hstuck.step hstep).2] at hround
    induction rounds with
    | zero => simp [timerCheckLoop] at hloop
    | succ rounds ih => exact ih ((hround rounds).symm.trans hloop)
  · intro hnow
    refine ⟨1, h.state, ScanHead.Stops.loop_eq (.inr ?_) 0⟩
    rw [hevent]
    exact hnow

/-- A round more is no matter. -/
theorem ScanStep.exists_loop_iff (hstep : ScanStep (cancelHost cancels) timer now h op h') :
    (∃ rounds s', timerCheckLoop (cancelHost cancels) timer now rounds h.pos h.next h.state =
      some s') ↔
    ∃ rounds s', timerCheckLoop (cancelHost cancels) timer now rounds h'.pos h'.next h'.state =
      some s' := by
  constructor
  · rintro ⟨rounds, s', hloop⟩
    cases rounds with
    | zero => simp [timerCheckLoop] at hloop
    | succ rounds =>
      rw [hstep.loop_eq] at hloop
      exact ⟨rounds, s', hloop⟩
  · rintro ⟨rounds, s', hloop⟩
    rw [← hstep.loop_eq] at hloop
    exact ⟨rounds + 1, s', hloop⟩

/-- The loop has come to the last of the events that a timer had when the check began,
except for those cancelled since. -/
structure ScanHead.Follows (h : ScanHead (CancelState ν κ μ) ν) (known : ν → Prop) (timer : ν)
    (t : Timer ν κ) (events : List ν) : Prop where
  /-- The others are pending. -/
  pending : h.state.Pending known timer (events.filter (· ∉ h.state.cancelled))
  /-- The loop is at the first of them. -/
  first : h.AtFirst timer (events.filter (· ∉ h.state.cancelled))
  /-- They are as they were. -/
  same : ∀ x ∈ events, x ∉ h.state.cancelled → h.state.timer.event x = t.event x

namespace ScanHead.Follows

variable {t : Timer ν κ} {func : κ} {owner arg : ℕ}

/-- A cancelled event is passed over. -/
theorem drop (hf : h.Follows known timer t (event :: events))
    (hgone : event ∈ h.state.cancelled) : h.Follows known timer t events := by
  obtain ⟨hpend, hfirst, hsame⟩ := hf
  rw [List.filter_cons_of_neg (by simpa using hgone)] at hpend hfirst
  exact ⟨hpend, hfirst, fun x hx => hsame x (List.mem_cons_of_mem _ hx)⟩

variable (cancels) in
/-- The loop is at an event that was not cancelled, which is about to be unlinked. -/
theorem at_event (hf : h.Follows known timer t (event :: events))
    (hgone : event ∉ h.state.cancelled) :
    h.pos = event ∧ h.next = (events.filter (· ∉ h.state.cancelled)).headD timer ∧
      event ≠ timer ∧ ((cancelHost cancels).unlink event h.state).Pending known timer
        (events.filter (· ∉ h.state.cancelled)) := by
  obtain ⟨hpend, ⟨hpos, hnext⟩, -⟩ := hf
  rw [List.filter_cons_of_pos (by simpa using hgone)] at hpend hpos hnext
  exact ⟨hpos, hnext, hpend.ring.ne_head List.mem_cons_self, hpend.unlink⟩

/-- The loop goes on behind an event without a callback. -/
theorem silent (hf : h.Follows known timer t (event :: events))
    (hgone : event ∉ h.state.cancelled) :
    (h.advance (cancelHost cancels) ((cancelHost cancels).unlink event h.state)).Follows known
      timer t events := by
  obtain ⟨-, hnext, -, hunlinked⟩ := hf.at_event cancels hgone
  exact ⟨hunlinked, hunlinked.atFirst hnext, fun x hx => hf.same x (List.mem_cons_of_mem _ hx)⟩

/-- The loop goes on behind an event whose callback leaves the next one alone. -/
theorem called (hf : h.Follows known timer t (event :: events))
    (hgone : event ∉ h.state.cancelled)
    (hknown : ∀ x ∈ (cancels func owner arg h.state.memory).1, known x)
    (hkeeps : ∀ n ∈ events.find? (· ∉ h.state.cancelled),
      n ∉ (cancels func owner arg h.state.memory).1) :
    (h.advance (cancelHost cancels) (afterCancels cancels func owner arg
      ((cancelHost cancels).unlink event h.state))).Follows known timer t events := by
  obtain ⟨-, hnext, -, hunlinked⟩ := hf.at_event cancels hgone
  have hfilter : events.filter
        (· ∉ h.state.cancelled ++ (cancels func owner arg h.state.memory).1) =
      (events.filter (· ∉ h.state.cancelled)).filter
        (· ∉ (cancels func owner arg h.state.memory).1) := by
    simp [List.filter_filter, Bool.and_comm]
  rw [← List.head?_filter] at hkeeps
  constructor
  · refine Eq.mpr (congrArg _ hfilter) ?_
    exact hunlinked.afterCancels hknown
  · refine Eq.mpr (congrArg _ hfilter) ?_
    exact hunlinked.called hknown hnext hkeeps
  · intro x hx hnot
    obtain ⟨hold, hnew⟩ := not_or.mp (List.mem_append.not.mp hnot)
    refine (timerDelEvents_event _ _ x).trans ((if_neg hnew).trans ?_)
    exact hf.same x (List.mem_cons_of_mem _ hx) hold

/-- The loop is stuck behind an event whose callback cancels the next one. -/
theorem called_stuck (hf : h.Follows known timer t (event :: events))
    (hgone : event ∉ h.state.cancelled)
    (hknown : ∀ x ∈ (cancels func owner arg h.state.memory).1, known x)
    (hcancels : ¬ ∀ n ∈ events.find? (· ∉ h.state.cancelled),
      n ∉ (cancels func owner arg h.state.memory).1) :
    (h.advance (cancelHost cancels) (afterCancels cancels func owner arg
      ((cancelHost cancels).unlink event h.state))).Stuck timer := by
  obtain ⟨-, hnext, -, hunlinked⟩ := hf.at_event cancels hgone
  rw [← List.head?_filter] at hcancels
  push Not at hcancels
  obtain ⟨n, hn, hcancelled⟩ := hcancels
  exact hunlinked.called_stuck hknown hnext hn hcancelled

/-- The loop ends if and only if no callback cancels the event behind its own, or the
clock is before the time that is left in a cancelled event. -/
theorem exists_loop_iff
    (hcancels : ∀ func owner arg memory, ∀ x ∈ (cancels func owner arg memory).1, known x)
    (hf : h.Follows known timer t events) :
    (∃ rounds s', timerCheckLoop (cancelHost cancels) timer now rounds h.pos h.next h.state =
      some s') ↔
    now ≤ 0 ∨ KeepsNext cancels now t events h.state.cancelled h.state.memory := by
  induction events generalizing h with
  | nil =>
    obtain ⟨hpos, -⟩ := hf.first
    exact iff_of_true ⟨1, h.state, ScanHead.Stops.loop_eq (.inl hpos) 0⟩ (.inr trivial)
  | cons e events ih =>
    rw [KeepsNext]
    by_cases hgone : e ∈ h.state.cancelled
    · rw [if_pos hgone]
      exact ih (hf.drop hgone)
    · rw [if_neg hgone]
      obtain ⟨hpos, -, hhead, -⟩ := hf.at_event cancels hgone
      have hevent : ((cancelHost cancels).timer h.state).event h.pos = t.event e :=
        hpos ▸ hf.same e List.mem_cons_self hgone
      by_cases hpending : now ≤ (t.event e).expireTime
      · refine iff_of_true ⟨1, h.state, ScanHead.Stops.loop_eq (.inr ?_) 0⟩ (.inr (.inl hpending))
        rwa [hevent]
      · have hgo : ¬ h.Stops (cancelHost cancels) timer now := by
          rintro (hstops | hstops)
          · exact hhead (hpos ▸ hstops)
          · exact hpending (hevent ▸ hstops)
        simp only [hpending, false_or]
        cases hfunc : (t.event e).func with
        | none =>
          have hstep := ScanStep.silent hgo (hevent ▸ hfunc)
          rw [hstep.exists_loop_iff, hpos]
          exact ih (hf.silent hgone)
        | some func =>
          have hknown := hcancels func (t.event e).owner (t.event e).arg h.state.memory
          have hstep : ScanStep (cancelHost cancels) timer now h (some h.pos)
              (h.advance (cancelHost cancels) (afterCancels cancels func (t.event e).owner
                (t.event e).arg ((cancelHost cancels).unlink e h.state))) := by
            refine .fires hgo (hevent ▸ hfunc) ?_
            rw [hevent, hpos]
            rfl
          rw [hstep.exists_loop_iff]
          by_cases hkeeps : ∀ n ∈ events.find? (· ∉ h.state.cancelled),
              n ∉ (cancels func (t.event e).owner (t.event e).arg h.state.memory).1
          · refine (ih (hf.called hgone hknown hkeeps)).trans (or_congr_right ?_)
            exact (and_iff_right hkeeps).symm
          · rw [(hf.called_stuck hgone hknown hkeeps).loop_iff]
            exact (or_iff_left fun hall => hkeeps hall.1).symm

end ScanHead.Follows

end

/-! ## Checks -/

section

variable {ν κ μ : Type} [DecidableEq ν]

/-- The loop of `timer_check_event` when it is entered. -/
def checkHead (timer : ν) (t : Timer ν κ) (memory : μ) : ScanHead (CancelState ν κ μ) ν :=
  { pos := t.links.next timer, next := t.links.next (t.links.next timer)
    state := { timer := t, memory := memory, cancelled := [] } }

/-- The check ends, and no event that was cancelled before its turn is fired. -/
def EndsWithoutCancelled (cancels : κ → ℕ → ℕ → μ → List ν × μ) (timer : ν) (now : ℤ)
    (t : Timer ν κ) (memory : μ) : Prop :=
  (∃ rounds s', timerCheckEvent (cancelHost cancels) timer now rounds
    { timer := t, memory := memory, cancelled := [] } = some s') ∧
  ∀ ops, Along (ScanStep (cancelHost cancels) timer now)
    (fun h op => ∀ e ∈ op, e ∉ h.state.cancelled) (checkHead timer t memory) ops

section

variable {cancels : κ → ℕ → ℕ → μ → List ν × μ} {timer : ν} {now : ℤ} {t : Timer ν κ} {memory : μ}
  {events : List ν}

omit [DecidableEq ν] in
/-- The loop starts at the first event, with nothing cancelled. -/
theorem checkHead_pending (hring : IsRing t.links timer events) (memory : μ) :
    (checkHead timer t memory).state.Pending (fun x => x ∈ events ∨ Isolated t.links x) timer
        events ∧
      (checkHead timer t memory).AtFirst timer events := by
  refine ⟨⟨hring, fun _ hx => hx, nofun, nofun⟩, hring.next_head, ?_⟩
  rw [checkHead, hring.next_head]
  exact hring.next_headD

/-- A check ends if and only if no callback cancels the event behind its own. -/
theorem exists_check_iff (hring : IsRing t.links timer events)
    (hcancels : ∀ func owner arg memory, ∀ x ∈ (cancels func owner arg memory).1,
      x ∈ events ∨ Isolated t.links x) :
    (∃ rounds s', timerCheckEvent (cancelHost cancels) timer now rounds
      { timer := t, memory := memory, cancelled := [] } = some s') ↔
      now ≤ 0 ∨ KeepsNext cancels now t events [] memory := by
  obtain ⟨hpend, hfirst⟩ := checkHead_pending hring memory
  have hall : events.filter (· ∉ (checkHead timer t memory).state.cancelled) = events := by
    simp [checkHead]
  have hfollows : (checkHead timer t memory).Follows (fun x => x ∈ events ∨ Isolated t.links x)
      timer t events :=
    ⟨by rwa [hall], by rwa [hall], fun _ _ _ => rfl⟩
  exact hfollows.exists_loop_iff hcancels

end

/-- **Timer scan under cancellation.** For every list of events and all callbacks that
cancel events of the timer, pending or in no list, a check ends and fires no event that
was cancelled before its turn if and only if no callback that it calls cancels the event
behind its own. A clock at or before zero is the one exception. -/
theorem endsWithoutCancelled_iff (cancels : κ → ℕ → ℕ → μ → List ν × μ) (timer : ν) (now : ℤ)
    (t : Timer ν κ) (memory : μ) {events : List ν} (hring : IsRing t.links timer events)
    (hcancels : ∀ func owner arg memory, ∀ x ∈ (cancels func owner arg memory).1,
      x ∈ events ∨ Isolated t.links x) :
    EndsWithoutCancelled cancels timer now t memory ↔
      now ≤ 0 ∨ KeepsNext cancels now t events [] memory := by
  obtain ⟨hpend, hfirst⟩ := checkHead_pending hring memory
  let known := fun x => x ∈ events ∨ Isolated t.links x
  have hkept : ∀ (h : ScanHead (CancelState ν κ μ) ν) (op : Option ν) h',
      h.Scanning known timer → ScanStep (cancelHost cancels) timer now h op h' →
        h'.Scanning known timer :=
    fun _ _ _ hscan hstep => hscan.step hcancels hstep
  have hnone : ∀ ops, Along (ScanStep (cancelHost cancels) timer now)
      (fun h op => ∀ e ∈ op, e ∉ h.state.cancelled) (checkHead timer t memory) ops :=
    fun _ => along_of_invariant hkept (fun _ _ _ hscan hstep => hscan.notMem_cancelled hstep)
      (.inl ⟨events, hpend, hfirst⟩)
  rw [← exists_check_iff hring hcancels]
  exact and_iff_left hnone

end

/-- A timer at node 0 with events at nodes 1, 2 and 3 that have expired at 20. Their
callbacks get the node as `owner`. -/
def threeEvents : Timer ℕ Unit where
  links := { next := fun x => (x + 1) % 4, prev := fun x => (x + 3) % 4 }
  event x := { expireTime := 10, func := some (), owner := x, arg := 0 }

/-- The events are in order. -/
theorem threeEvents_ring : IsRing threeEvents.links 0 [1, 2, 3] :=
  ⟨by decide, by decide, by decide⟩

/-- The callback of event 1 cancels some events. -/
def firstCancels (events : List ℕ) (_ : Unit) (owner _ : ℕ) (_ : Unit) : List ℕ × Unit :=
  (if owner = 1 then events else [], ())

/-- The callback of event 1 cancels events of the timer. -/
theorem firstCancels_known {events : List ℕ} (h : events ⊆ [1, 2, 3]) (func : Unit)
    (owner arg : ℕ) (memory : Unit) :
    ∀ x ∈ (firstCancels events func owner arg memory).1,
      x ∈ [1, 2, 3] ∨ Isolated threeEvents.links x := by
  intro x hx
  unfold firstCancels at hx
  split at hx
  · exact .inl (h hx)
  · cases hx

/-- When the first callback cancels the second event, no number of rounds brings the
check to its end. -/
theorem next_cancelled_loops :
    (∀ rounds, timerCheckEvent (cancelHost (firstCancels [2])) 0 20 rounds
      { timer := threeEvents, memory := (), cancelled := [] } = none) ∧
    ¬ EndsWithoutCancelled (firstCancels [2]) 0 20 threeEvents () := by
  have hnot : ¬ ∃ rounds s', timerCheckEvent (cancelHost (firstCancels [2])) 0 20 rounds
      { timer := threeEvents, memory := (), cancelled := [] } = some s' := by
    rw [exists_check_iff threeEvents_ring (firstCancels_known (by decide))]
    simp [KeepsNext, firstCancels, threeEvents]
  refine ⟨?_, fun h => hnot h.1⟩
  intro rounds
  by_contra hsome
  exact hnot ⟨rounds, Option.ne_none_iff_exists'.mp hsome⟩

/-- The first callback may cancel its own event and the third one. -/
theorem third_cancelled_ends :
    EndsWithoutCancelled (firstCancels [1, 3]) 0 20 threeEvents () := by
  refine (endsWithoutCancelled_iff (firstCancels [1, 3]) 0 20 threeEvents () threeEvents_ring
    (firstCancels_known (by decide))).mpr ?_
  simp [KeepsNext, firstCancels, threeEvents]

end ThriftProxy
