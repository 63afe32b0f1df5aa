import Mathlib.Data.List.Basic

/-!
# Readers of byte streams

A reader takes bytes from the front of a stream or throws. What it reads from some
bytes does not depend on what follows them, and so readers compose as the bytes are
put together. A loop of a reader ends when each of its rounds takes at least one byte.
-/

namespace Wire

/-- A reader of a byte stream that can throw. -/
abbrev Reader (ε α : Type) := StateT (List UInt8) (Except ε) α

namespace Reader

variable {ε α β σ : Type} {r : Reader ε α} {f : α → Reader ε β} {a : α} {b : β}
  {bytes bytes' : List UInt8}

/-! ## What a reader reads -/

/-- The reader takes exactly these bytes, whatever follows, and returns a value. -/
def Reads (r : Reader ε α) (bytes : List UInt8) (a : α) : Prop :=
  ∀ rest, r.run (bytes ++ rest) = .ok (a, rest)

/-- Nothing is read. -/
theorem reads_pure (a : α) : Reads (pure a : Reader ε α) [] a := fun _ => rfl

/-- One reader after another. -/
theorem Reads.bind (h : r.Reads bytes a) (h' : (f a).Reads bytes' b) :
    (r >>= f).Reads (bytes ++ bytes') b := by
  intro rest
  rw [StateT.run_bind, List.append_assoc, h]
  exact h' rest

/-- A reader and what is made of its value. -/
theorem Reads.map (h : r.Reads bytes a) (g : α → β) : (g <$> r).Reads bytes (g a) := by
  intro rest
  rw [StateT.run_map, h]
  rfl

/-- A reader whose value is put into another one. -/
theorem Reads.bind_pure (h : r.Reads bytes a) (g : α → β) :
    (r >>= fun a => pure (g a)).Reads bytes (g a) := by
  rw [bind_pure_comp]
  exact h.map g

/-- A reader reads one value from the front of a stream. -/
theorem Reads.unique {a' : α} {rest rest' : List UInt8} (h : r.Reads bytes a)
    (h' : r.Reads bytes' a') (heq : bytes ++ rest = bytes' ++ rest') : a = a' ∧ rest = rest' := by
  have hrun := h rest
  rw [heq, h'] at hrun
  cases hrun
  exact ⟨rfl, rfl⟩

/-! ## Readers that go forward -/

/-- The reader leaves at most what was there. -/
def Forward (r : Reader ε α) : Prop :=
  ∀ bytes a rest, r.run bytes = .ok (a, rest) → rest.length ≤ bytes.length

/-- The reader takes at least one byte. -/
def Consumes (r : Reader ε α) : Prop :=
  ∀ bytes a rest, r.run bytes = .ok (a, rest) → rest.length < bytes.length

/-- A reader that takes nothing moves forward. -/
theorem forward_pure (a : α) : Forward (pure a : Reader ε α) := by
  intro bytes a' rest h
  cases h
  exact Nat.le_refl _

/-- What comes back from one reader after another. -/
theorem run_bind_eq_ok_iff {rest' : List UInt8} :
    (r >>= f).run bytes = .ok (b, rest') ↔
      ∃ a rest, r.run bytes = .ok (a, rest) ∧ (f a).run rest = .ok (b, rest') := by
  rw [StateT.run_bind]
  cases r.run bytes with
  | error e =>
    refine iff_of_false (fun h => nomatch h) ?_
    rintro ⟨a, rest, h, -⟩
    cases h
  | ok result =>
    obtain ⟨a, rest⟩ := result
    constructor
    · exact fun h => ⟨a, rest, rfl, h⟩
    · rintro ⟨a', rest', heq, h⟩
      cases heq
      exact h

/-- Readers in sequence move forward if each does. -/
theorem Forward.bind (h : r.Forward) (h' : ∀ a, (f a).Forward) : (r >>= f).Forward := by
  intro bytes b rest' hrun
  obtain ⟨a, rest, hr, hf⟩ := run_bind_eq_ok_iff.mp hrun
  exact Nat.le_trans (h' a _ _ _ hf) (h _ _ _ hr)

/-- A sequence uses up input if its first reader does. -/
theorem Consumes.bind (h : r.Consumes) (h' : ∀ a, (f a).Forward) : (r >>= f).Consumes := by
  intro bytes b rest' hrun
  obtain ⟨a, rest, hr, hf⟩ := run_bind_eq_ok_iff.mp hrun
  exact Nat.lt_of_le_of_lt (h' a _ _ _ hf) (h _ _ _ hr)

/-- A function of the result leaves the input alone. -/
theorem Forward.map (h : r.Forward) (g : α → β) : (g <$> r).Forward := by
  rw [← bind_pure_comp]
  exact h.bind fun a => forward_pure _

/-- To use up input is to move forward. -/
theorem Consumes.forward (h : r.Consumes) : r.Forward :=
  fun bytes a rest hrun => Nat.le_of_lt (h bytes a rest hrun)

/-! ## Loops -/

/-- A loop that is left with a value, with a bound for its rounds. -/
def rounds (overrun : ε) (round : σ → Reader ε (σ ⊕ β)) : ℕ → σ → Reader ε β
  | 0, _ => throw overrun
  | n + 1, s => do
    match ← round s with
    | .inl s => rounds overrun round n s
    | .inr b => return b

/-- `while (true)` on what is left of the stream: no more rounds than bytes are needed. -/
def loop (overrun : ε) (round : σ → Reader ε (σ ⊕ β)) (s : σ) : Reader ε β := do
  rounds overrun round ((← get).length + 1) s

variable {overrun : ε} {round : σ → Reader ε (σ ⊕ β)}

/-- More rounds than bytes make no difference. -/
theorem rounds_congr (h : ∀ s, (round s).Consumes) {n m : ℕ} {s : σ} (hn : bytes.length < n)
    (hm : bytes.length < m) :
    (rounds overrun round n s).run bytes = (rounds overrun round m s).run bytes := by
  induction n generalizing m s bytes with
  | zero => omega
  | succ n ih =>
    obtain ⟨m, rfl⟩ := Nat.exists_eq_succ_of_ne_zero (Nat.ne_zero_of_lt hm)
    simp only [rounds, StateT.run_bind]
    cases hround : (round s).run bytes with
    | error e => rfl
    | ok result =>
      obtain ⟨next, rest⟩ := result
      have hlt := h s _ _ _ hround
      cases next with
      | inr b => rfl
      | inl s' => exact ih (by dsimp only; omega) (by dsimp only; omega)

/-- A loop is its first round and the loop behind it. -/
theorem loop_eq (h : ∀ s, (round s).Consumes) (s : σ) :
    loop overrun round s = do
      match ← round s with
      | .inl s => loop overrun round s
      | .inr b => return b := by
  funext bytes
  change (rounds overrun round (bytes.length + 1) s).run bytes = StateT.run _ bytes
  simp only [rounds, StateT.run_bind]
  cases hround : (round s).run bytes with
  | error e => rfl
  | ok result =>
    obtain ⟨next, rest⟩ := result
    have hlt := h s _ _ _ hround
    cases next with
    | inr b => rfl
    | inl s' => exact rounds_congr h (by omega) (by omega)

/-- Loops whose rounds agree up to a change of their states agree. -/
theorem loop_map {τ γ : Type} {round' : τ → Reader ε (τ ⊕ γ)} (g : τ → σ) (g' : γ → β)
    (h : ∀ t, round (g t) = Sum.map g g' <$> round' t) (t : τ) :
    loop overrun round (g t) = g' <$> loop overrun round' t := by
  have hrounds : ∀ n t, rounds overrun round n (g t) = g' <$> rounds overrun round' n t := by
    intro n
    induction n with
    | zero => exact fun t => rfl
    | succ n ih =>
      intro t
      simp only [rounds, h, map_eq_pure_bind, bind_assoc, pure_bind]
      congr 1
      funext next
      cases next with
      | inl t => simp only [Sum.map_inl, ih, map_eq_pure_bind]
      | inr c => simp only [Sum.map_inr, pure_bind]
  simp only [loop, hrounds, map_bind]

/-- What every round preserves holds when a loop is left. -/
theorem loop_invariant {I : σ → Prop} {Q : β → Prop}
    (h : ∀ s, I s → ∀ bytes next rest, (round s).run bytes = .ok (next, rest) → Sum.elim I Q next)
    {s : σ} (hs : I s) {rest : List UInt8}
    (hrun : (loop overrun round s).run bytes = .ok (b, rest)) : Q b := by
  have hrounds : ∀ n s bytes, I s → (rounds overrun round n s).run bytes = .ok (b, rest) → Q b := by
    intro n
    induction n with
    | zero => exact fun s bytes hs hrun => nomatch hrun
    | succ n ih =>
      intro s bytes hs hrun
      rw [rounds, run_bind_eq_ok_iff] at hrun
      obtain ⟨next, rest', hround, hnext⟩ := hrun
      have hI := h s hs _ _ _ hround
      cases next with
      | inl s' => exact ih s' rest' hI hnext
      | inr b' =>
        cases hnext
        exact hI
  exact hrounds _ s bytes hs hrun

/-- A loop that is left in its first round. -/
theorem reads_loop_exit (h : ∀ s, (round s).Consumes) {s : σ}
    (hround : (round s).Reads bytes (.inr b)) : (loop overrun round s).Reads bytes b := by
  rw [loop_eq h, ← List.append_nil bytes]
  exact hround.bind (reads_pure b)

/-- A loop that goes on behind its first round. -/
theorem reads_loop_next (h : ∀ s, (round s).Consumes) {s s' : σ}
    (hround : (round s).Reads bytes (.inl s'))
    (hrest : (loop overrun round s').Reads bytes' b) :
    (loop overrun round s).Reads (bytes ++ bytes') b := by
  rw [loop_eq h]
  exact hround.bind hrest

/-- A loop goes forward. -/
theorem forward_loop (h : ∀ s, (round s).Consumes) (s : σ) : (loop overrun round s).Forward := by
  intro bytes
  induction hlen : bytes.length using Nat.strongRecOn generalizing bytes s with
  | ind n ih =>
    subst hlen
    intro b rest hrun
    rw [loop_eq h] at hrun
    obtain ⟨next, rest', hround, hnext⟩ := run_bind_eq_ok_iff.mp hrun
    have hlt := h s _ _ _ hround
    cases next with
    | inr b' =>
      cases hnext
      exact Nat.le_of_lt hlt
    | inl s' => exact Nat.le_trans (ih _ hlt s' _ rfl _ _ hnext) (Nat.le_of_lt hlt)

end Reader

end Wire
