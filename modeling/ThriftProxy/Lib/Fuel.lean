import Mathlib.Data.Set.Finite.List
import Mathlib.Logic.Relation
import Mathlib.Order.WellFoundedSet

/-!
# Computations with fuel

A computation that may run out of fuel returns a result when every large enough
amount of fuel leads to it. Recursion along an acyclic relation on finitely many
objects returns. A recursive function returns exactly when it reaches no call that
leads to itself, if it can reach finitely many calls only.
-/

namespace Fuel

variable {α β : Type*}

/-- Enough fuel gives the result. -/
def Returns (run : ℕ → Option α) (r : α) : Prop := ∃ enough, ∀ fuel ≥ enough, run fuel = some r

/-- A computation that needs no fuel returns. -/
theorem returns_const (r : α) : Returns (fun _ => some r) r := ⟨0, fun _ _ => rfl⟩

/-- A computation returns one result. -/
theorem Returns.unique {run : ℕ → Option α} {r r' : α} (h : Returns run r)
    (h' : Returns run r') : r = r' := by
  obtain ⟨enough, henough⟩ := h
  obtain ⟨enough', henough'⟩ := h'
  have hr := henough (max enough enough') (le_max_left _ _)
  have hr' := henough' (max enough enough') (le_max_right _ _)
  exact Option.some.inj (hr.symm.trans hr')

/-- The second computation continues from the result of the first. -/
theorem Returns.bind {run : ℕ → Option α} {next : ℕ → α → Option β} {a : α} {b : β}
    (h : Returns run a) (hnext : Returns (fun fuel => next fuel a) b) :
    Returns (fun fuel => (run fuel).bind (next fuel)) b := by
  obtain ⟨enough, henough⟩ := h
  obtain ⟨enough', henough'⟩ := hnext
  refine ⟨max enough enough', ?_⟩
  intro fuel hfuel
  change (run fuel).bind (next fuel) = some b
  rw [henough fuel (le_of_max_le_left hfuel), Option.bind_some]
  exact henough' fuel (le_of_max_le_right hfuel)

/-- A function of the result returns with it. -/
theorem Returns.map {run : ℕ → Option α} {a : α} (h : Returns run a) (f : α → β) :
    Returns (fun fuel => (run fuel).map f) (f a) := by
  obtain ⟨enough, henough⟩ := h
  refine ⟨enough, ?_⟩
  intro fuel hfuel
  change (run fuel).map f = some (f a)
  rw [henough fuel hfuel, Option.map_some]

/-- A call that takes a unit of fuel returns what its body does. -/
theorem Returns.of_succ {run : ℕ → Option α} {a : α} (h : Returns (fun fuel => run (fuel + 1)) a) :
    Returns run a := by
  obtain ⟨enough, henough⟩ := h
  refine ⟨enough + 1, ?_⟩
  intro fuel hfuel
  obtain ⟨fuel, rfl⟩ : ∃ f, fuel = f + 1 := ⟨fuel - 1, by omega⟩
  exact henough fuel (by omega)

/-- A call returns when its body does. -/
theorem exists_returns_of_succ {run : ℕ → Option α}
    (h : ∃ r, Returns (fun fuel => run (fuel + 1)) r) : ∃ r, Returns run r := by
  obtain ⟨r, hr⟩ := h
  exact ⟨r, hr.of_succ⟩

/-- An acyclic relation into a finite set is well founded. -/
theorem wellFounded_of_acyclic {r : α → α → Prop} {s : Set α} (hs : s.Finite)
    (hinto : ∀ a b, r a b → b ∈ s) (hacyclic : ∀ a, ¬ Relation.TransGen r a a) :
    WellFounded r := by
  have hstrict : IsStrictOrder α (Relation.TransGen r) :=
    { irrefl := hacyclic, trans := fun _ _ _ => Relation.TransGen.trans }
  have hleaf : ∀ a ∉ s, Acc r a :=
    fun a ha => Acc.intro a fun b hb => absurd (hinto b a hb) ha
  have hon : s.WellFoundedOn (Relation.TransGen r) := hs.wellFoundedOn
  refine ⟨fun a => ?_⟩
  by_cases ha : a ∈ s
  · apply hon.induction ha
    intro b hb ih
    refine Acc.intro b fun c hc => ?_
    by_cases hcs : c ∈ s
    · exact ih c hcs (Relation.TransGen.single hc)
    · exact hleaf c hcs
  · exact hleaf a ha

/-- Lists without repetitions over a finite collection are finitely many. -/
theorem finite_nodup_lists (s : List α) : {l : List α | l.Nodup ∧ l ⊆ s}.Finite := by
  have : Finite {x // x ∈ s} := (List.finite_toSet s).to_subtype
  have hfinite : ((fun l : List {x // x ∈ s} => l.map Subtype.val) ''
      {l : List {x // x ∈ s} | l.length ≤ s.length}).Finite :=
    (List.finite_length_le {x // x ∈ s} s.length).image _
  refine hfinite.subset ?_
  rintro l ⟨hnodup, hsub⟩
  refine ⟨l.attach.map fun x => ⟨x.1, hsub x.2⟩, ?_, ?_⟩
  · simpa using (List.subperm_of_subset hnodup hsub).length_le
  · simp [Function.comp_def]

/-! ## Recursive functions -/

section

variable {run : ℕ → α → Option β} {calls : α → α → Prop}

/-- A result does not change with more fuel. -/
theorem returns_of_eq_some (hmono : ∀ fuel a r, run fuel a = some r → run (fuel + 1) a = some r)
    {fuel : ℕ} {a : α} {r : β} (h : run fuel a = some r) : Returns (fun fuel => run fuel a) r := by
  refine ⟨fuel, ?_⟩
  intro more hmore
  induction more, hmore using Nat.le_induction with
  | base => exact h
  | succ more _ ih => exact hmono more a r ih

/-- A call that leads to itself has no result. -/
theorem eq_none_of_cycle (hzero : ∀ a, run 0 a = none)
    (hcallee : ∀ fuel a b r, calls a b → run (fuel + 1) a = some r → run fuel b ≠ none)
    {a : α} (hcycle : Relation.TransGen calls a a) (fuel : ℕ) : run fuel a = none := by
  induction fuel generalizing a with
  | zero => exact hzero a
  | succ fuel ih =>
    obtain ⟨b, hcall, hback⟩ := Relation.TransGen.head'_iff.mp hcycle
    by_contra hsome
    obtain ⟨r, hr⟩ := Option.ne_none_iff_exists'.mp hsome
    exact hcallee fuel a b r hcall hr (ih (Relation.TransGen.tail' hback hcall))

/-- A recursive function returns if and only if no call that it reaches leads to itself. -/
theorem returns_iff_no_cycle {a : α} (hzero : ∀ a, run 0 a = none)
    (hcallee : ∀ fuel a b r, calls a b → run (fuel + 1) a = some r → run fuel b ≠ none)
    (hbody : ∀ a, (∀ b, calls a b → ∃ r, Returns (fun fuel => run fuel b) r) →
      ∃ r, Returns (fun fuel => run fuel a) r)
    (hfinite : {b | Relation.ReflTransGen calls a b ∧ ∃ c, calls b c}.Finite) :
    (∃ r, Returns (fun fuel => run fuel a) r) ↔
      ¬ ∃ b, Relation.ReflTransGen calls a b ∧ Relation.TransGen calls b b := by
  constructor
  · rintro ⟨r, enough, henough⟩ ⟨b, hreach, hcycle⟩
    have hsome : run enough a ≠ none := by simp [henough enough le_rfl]
    clear henough hfinite
    induction hreach using Relation.ReflTransGen.head_induction_on generalizing enough r with
    | refl => exact hsome (eq_none_of_cycle hzero hcallee hcycle enough)
    | head hcall _ ih =>
      obtain _ | enough := enough
      · exact hsome (hzero _)
      · obtain ⟨r', hr'⟩ := Option.ne_none_iff_exists'.mp hsome
        exact ih r' enough (hcallee enough _ _ r' hcall hr')
  · intro hacyclic
    let inner : α → α → Prop := fun c b => calls b c ∧ Relation.ReflTransGen calls a b
    have hinner : ∀ {b c}, Relation.TransGen inner c b → Relation.TransGen calls b c := by
      intro b c h
      have hswap : Relation.TransGen (Function.swap calls) c b :=
        Relation.TransGen.mono (fun _ _ h => h.1) _ _ h
      exact Relation.transGen_swap.mp hswap
    have hwf : WellFounded inner := by
      refine wellFounded_of_acyclic hfinite (fun c b h => ⟨h.2, c, h.1⟩) ?_
      intro b hcycle
      obtain ⟨c, -, hlast⟩ := Relation.TransGen.tail'_iff.mp hcycle
      exact hacyclic ⟨b, hlast.2, hinner hcycle⟩
    suffices hall : ∀ b, Relation.ReflTransGen calls a b →
        ∃ r, Returns (fun fuel => run fuel b) r from hall a Relation.ReflTransGen.refl
    intro b hreach
    induction b using hwf.induction with
    | _ b ih => exact hbody b fun c hcall => ih c ⟨hcall, hreach⟩ (hreach.tail hcall)

end

end Fuel
