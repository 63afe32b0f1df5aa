import Mathlib.Data.List.Infix

/-!
# Runs of labelled transition relations

A system is a relation `step s op s'` between states, labelled by operations.
Claims about "every run" range over the operations of a run and the states
it reaches. `Throughout` states a property of every state reached, `Along` a
condition on every step taken, and the rules below pass from one step to a run.
-/

namespace Transition

variable {σ ι : Type*} {step : σ → ι → σ → Prop}

/-- The operations `ops`, taken in order, lead from one state to another. -/
inductive Run (step : σ → ι → σ → Prop) : σ → List ι → σ → Prop
  | nil (s : σ) : Run step s [] s
  | cons {s s' s'' : σ} {op : ι} {ops : List ι} : step s op s' →
      Run step s' ops s'' → Run step s (op :: ops) s''

/-- Every state reached by a prefix of the operations satisfies `Q`. -/
def Throughout (step : σ → ι → σ → Prop) (Q : σ → Prop) (s : σ) (ops : List ι) : Prop :=
  ∀ pre s', pre <+: ops → Run step s pre s' → Q s'

/-- Every step taken along the operations is taken in a state satisfying `P`.
An operation without a successor state takes no step. -/
def Along (step : σ → ι → σ → Prop) (P : σ → ι → Prop) (s : σ) (ops : List ι) : Prop :=
  ∀ pre op s' s'', pre ++ [op] <+: ops → Run step s pre s' → step s' op s'' → P s' op

/-- The empty run ends where it starts. -/
@[simp] theorem run_nil_iff {s s' : σ} : Run step s [] s' ↔ s' = s := by
  constructor
  · rintro ⟨⟩
    rfl
  · rintro rfl
    exact Run.nil _

/-- A nonempty run is its first step followed by the rest. -/
theorem run_cons_iff {s s'' : σ} {op : ι} {ops : List ι} :
    Run step s (op :: ops) s'' ↔ ∃ s', step s op s' ∧ Run step s' ops s'' := by
  constructor
  · rintro (_ | ⟨hstep, hrun⟩)
    exact ⟨_, hstep, hrun⟩
  · rintro ⟨s', hstep, hrun⟩
    exact Run.cons hstep hrun

/-- Runs compose. -/
theorem Run.append {s s' s'' : σ} {ops ops' : List ι} (h : Run step s ops s')
    (h' : Run step s' ops' s'') : Run step s (ops ++ ops') s'' := by
  induction h with
  | nil => exact h'
  | cons hstep _ ih => exact Run.cons hstep (ih h')

/-- A run through a concatenation passes through a middle state. -/
theorem Run.split {s s'' : σ} {ops ops' : List ι} (h : Run step s (ops ++ ops') s'') :
    ∃ s', Run step s ops s' ∧ Run step s' ops' s'' := by
  induction ops generalizing s with
  | nil => exact ⟨s, Run.nil s, h⟩
  | cons op ops ih =>
    obtain ⟨s₁, hstep, hrun⟩ := run_cons_iff.mp h
    obtain ⟨s', hpre, hpost⟩ := ih hrun
    exact ⟨s', Run.cons hstep hpre, hpost⟩

/-- A run may be extended by one further step. -/
theorem Run.snoc {s s' s'' : σ} {op : ι} {ops : List ι} (h : Run step s ops s')
    (hstep : step s' op s'') : Run step s (ops ++ [op]) s'' :=
  h.append (Run.cons hstep (Run.nil _))

/-- The property holds initially and, after any first step, throughout the rest. -/
theorem throughout_cons {Q : σ → Prop} {s : σ} {op : ι} {ops : List ι} :
    Throughout step Q s (op :: ops) ↔
      Q s ∧ ∀ s', step s op s' → Throughout step Q s' ops := by
  constructor
  · intro h
    refine ⟨h [] s (List.nil_prefix) (Run.nil s), ?_⟩
    intro s' hstep pre t hpre hrun
    exact h (op :: pre) t (by simpa using hpre) (Run.cons hstep hrun)
  · rintro ⟨hs, hrest⟩ pre t hpre hrun
    cases pre with
    | nil => rwa [run_nil_iff.mp hrun]
    | cons op' pre =>
      obtain ⟨rfl, hpre'⟩ := List.cons_prefix_cons.mp hpre
      obtain ⟨s', hstep, hrun'⟩ := run_cons_iff.mp hrun
      exact hrest s' hstep pre t hpre' hrun'

/-- The first step meets the condition, and so do the steps after it. -/
theorem along_cons {P : σ → ι → Prop} {s : σ} {op : ι} {ops : List ι} :
    Along step P s (op :: ops) ↔
      ∀ s', step s op s' → P s op ∧ Along step P s' ops := by
  constructor
  · intro h s' hstep
    refine ⟨h [] op s s' (by simp) (Run.nil s) hstep, ?_⟩
    intro pre op' t t' hpre hrun hstep'
    exact h (op :: pre) op' t t' (by simpa using hpre) (Run.cons hstep hrun) hstep'
  · intro h pre op' t t' hpre hrun hstep'
    cases pre with
    | nil =>
      obtain rfl := run_nil_iff.mp hrun
      obtain ⟨rfl, -⟩ := List.cons_prefix_cons.mp hpre
      exact (h t' hstep').1
    | cons op₁ pre =>
      obtain ⟨rfl, hpre'⟩ := List.cons_prefix_cons.mp hpre
      obtain ⟨s', hstep, hrun'⟩ := run_cons_iff.mp hrun
      exact (h s' hstep).2 pre op' t t' hpre' hrun' hstep'

/-- No step is taken along no operations. -/
@[simp] theorem along_nil {P : σ → ι → Prop} {s : σ} : Along step P s [] := by
  intro pre op s' s'' hpre
  simp at hpre

/-- Only the first state is reached by no operations. -/
@[simp] theorem throughout_nil {Q : σ → Prop} {s : σ} : Throughout step Q s [] ↔ Q s := by
  constructor
  · intro h
    exact h [] s List.nil_prefix (Run.nil s)
  · intro h pre s' hpre hrun
    obtain rfl := List.prefix_nil.mp hpre
    rwa [run_nil_iff.mp hrun]

/-- A weaker property holds throughout as well. -/
theorem Throughout.imp {Q Q' : σ → Prop} {s : σ} {ops : List ι}
    (h : Throughout step Q s ops) (himp : ∀ s', Q s' → Q' s') : Throughout step Q' s ops :=
  fun pre s' hpre hrun => himp s' (h pre s' hpre hrun)

/-- A weaker condition holds along the run as well. -/
theorem Along.imp {P P' : σ → ι → Prop} {s : σ} {ops : List ι}
    (h : Along step P s ops) (himp : ∀ s' op, P s' op → P' s' op) : Along step P' s ops :=
  fun pre op s' s'' hpre hrun hstep => himp s' op (h pre op s' s'' hpre hrun hstep)

/-- The invariant rule: an invariant that holds at the start and is preserved
by every step meeting the condition holds throughout such a run. -/
theorem throughout_of_preserved {I : σ → Prop} {P : σ → ι → Prop} {s : σ} {ops : List ι}
    (hpreserved : ∀ s op s', I s → P s op → step s op s' → I s')
    (hs : I s) (hP : Along step P s ops) : Throughout step I s ops := by
  induction ops generalizing s with
  | nil => exact throughout_nil.mpr hs
  | cons op ops ih =>
    refine throughout_cons.mpr ⟨hs, ?_⟩
    intro s' hstep
    obtain ⟨hop, hrest⟩ := along_cons.mp hP s' hstep
    exact ih (hpreserved s op s' hs hop hstep) hrest

/-- The invariant rule without a condition on the steps. -/
theorem throughout_of_invariant {I : σ → Prop} {s : σ} {ops : List ι}
    (hinv : ∀ s op s', I s → step s op s' → I s') (hs : I s) : Throughout step I s ops :=
  throughout_of_preserved (P := fun _ _ => True) (fun s op s' h _ => hinv s op s' h) hs
    (fun _ _ _ _ _ _ _ => trivial)

/-- The exactness rule: where a step keeps the property exactly when it meets
the condition, a run keeps the property throughout exactly when every step
taken meets it. The invariant `I` holds whether or not the property does. -/
theorem throughout_iff_along {I Q : σ → Prop} {P : σ → ι → Prop} {s : σ} {ops : List ι}
    (hinv : ∀ s op s', I s → step s op s' → I s')
    (hexact : ∀ s op s', I s → Q s → step s op s' → (Q s' ↔ P s op))
    (hI : I s) (hQ : Q s) : Throughout step Q s ops ↔ Along step P s ops := by
  induction ops generalizing s with
  | nil => simp [hQ]
  | cons op ops ih =>
    rw [throughout_cons, along_cons]
    constructor
    · rintro ⟨-, hrest⟩ s' hstep
      have hQ' : Q s' := hrest s' hstep [] s' List.nil_prefix (Run.nil s')
      have hP := (hexact s op s' hI hQ hstep).mp hQ'
      exact ⟨hP, (ih (hinv s op s' hI hstep) hQ').mp (hrest s' hstep)⟩
    · intro h
      refine ⟨hQ, ?_⟩
      intro s' hstep
      obtain ⟨hP, hrest⟩ := h s' hstep
      have hQ' : Q s' := (hexact s op s' hI hQ hstep).mpr hP
      exact (ih (hinv s op s' hI hstep) hQ').mpr hrest

/-- Two conditions hold along the same runs when an invariant makes them
equivalent on every step taken and is kept by the steps that meet them. -/
theorem along_congr_of_preserved {I : σ → Prop} {P P' : σ → ι → Prop} {s : σ} {ops : List ι}
    (hpreserved : ∀ s op s', I s → P s op → step s op s' → I s')
    (hiff : ∀ s op s', I s → step s op s' → (P s op ↔ P' s op)) (hs : I s) :
    Along step P s ops ↔ Along step P' s ops := by
  induction ops generalizing s with
  | nil => simp
  | cons op ops ih =>
    rw [along_cons, along_cons]
    apply forall_congr'
    intro s'
    apply imp_congr_right
    intro hstep
    rw [← hiff s op s' hs hstep]
    exact and_congr_right fun hP => ih (hpreserved s op s' hs hP hstep)

/-- Two conditions that an invariant makes equivalent on every step taken hold
along the same runs. -/
theorem along_congr {I : σ → Prop} {P P' : σ → ι → Prop} {s : σ} {ops : List ι}
    (hinv : ∀ s op s', I s → step s op s' → I s')
    (hiff : ∀ s op s', I s → step s op s' → (P s op ↔ P' s op)) (hs : I s) :
    Along step P s ops ↔ Along step P' s ops :=
  along_congr_of_preserved (fun s op s' h _ => hinv s op s' h) hiff hs

/-- In a system given by a function, a run is the function applied along the operations. -/
theorem run_iff_foldlM {f : σ → ι → Option σ} {s s' : σ} {ops : List ι} :
    Run (fun s op s' => f s op = some s') s ops s' ↔ ops.foldlM f s = some s' := by
  induction ops generalizing s with
  | nil =>
    rw [run_nil_iff]
    exact ⟨fun h => h ▸ rfl, fun h => (Option.some.inj h).symm⟩
  | cons op ops ih =>
    rw [run_cons_iff, List.foldlM_cons, Option.bind_eq_bind, Option.bind_eq_some_iff]
    exact exists_congr fun t => and_congr_right fun _ => ih

/-! ## Guarded systems -/

/-- The invariant rule for the end of a run. -/
theorem Run.invariant {I : σ → Prop} {s s' : σ} {ops : List ι}
    (hinv : ∀ s op s', I s → step s op s' → I s') (hrun : Run step s ops s') (hs : I s) : I s' := by
  induction hrun with
  | nil => exact hs
  | cons hstep _ ih => exact ih (hinv _ _ _ hs hstep)

/-- Where an invariant implies the condition of every step, every run meets it. -/
theorem along_of_invariant {I : σ → Prop} {P : σ → ι → Prop} {s : σ} {ops : List ι}
    (hinv : ∀ s op s', I s → step s op s' → I s') (hP : ∀ s op s', I s → step s op s' → P s op)
    (hs : I s) : Along step P s ops :=
  fun _ op s' s'' _ hrun hstep => hP s' op s'' (hrun.invariant hinv hs) hstep

/-- A system that takes no step but those which meet a condition. -/
def Guarded (P : σ → ι → Prop) (step : σ → ι → σ → Prop) (s : σ) (op : ι) (s' : σ) : Prop :=
  P s op ∧ step s op s'

/-- A run of a guarded system is a run of the system. -/
theorem Run.unguard {P : σ → ι → Prop} {s s' : σ} {ops : List ι}
    (h : Run (Guarded P step) s ops s') : Run step s ops s' := by
  induction h with
  | nil => exact Run.nil _
  | cons hstep _ ih => exact Run.cons hstep.2 ih

/-! ## Systems in step -/

section

variable {τ : Type*}

/-- A system together with a specification that takes a step of its own on every
step of the system. -/
def Paired (step : σ → ι → σ → Prop) (spec : σ → ι → τ → τ → Prop) (p : σ × τ) (op : ι)
    (p' : σ × τ) : Prop := step p.1 op p'.1 ∧ spec p.1 op p.2 p'.2

/-- The simulation rule: where every step of a run can be matched by the
specification, the whole run can. The relation may depend on the operations
still to come, and each step is given the run that follows it. -/
theorem Run.paired {spec : σ → ι → τ → τ → Prop} {R : List ι → σ → τ → Prop} {s last : σ} {t : τ}
    {ops : List ι} (hstep : ∀ op ops s t s', R (op :: ops) s t → step s op s' →
      Run step s' ops last → ∃ t', spec s op t t' ∧ R ops s' t')
    (hrun : Run step s ops last) (h : R ops s t) :
    ∃ t', Run (Paired step spec) (s, t) ops (last, t') ∧ R [] last t' := by
  induction ops generalizing s t with
  | nil =>
    obtain rfl := run_nil_iff.mp hrun
    exact ⟨t, Run.nil _, h⟩
  | cons op ops ih =>
    obtain ⟨s', hfirst, hrest⟩ := run_cons_iff.mp hrun
    obtain ⟨t₁, hspec, hR⟩ := hstep op ops s t s' h hfirst hrest
    obtain ⟨t', hpaired, hR'⟩ := ih hrest hR
    exact ⟨t', Run.cons ⟨hfirst, hspec⟩ hpaired, hR'⟩

/-- The simulation rule for a system that another one describes on a coarser scale: each
of its steps is a run of the other system, which may be empty. -/
theorem Run.simulate {κ : Type*} {coarse : τ → κ → τ → Prop} {R : σ → τ → Prop} {s s' : σ} {t : τ}
    {ops : List ι}
    (hstep : ∀ s op s' t, R s t → step s op s' → ∃ ops' t', Run coarse t ops' t' ∧ R s' t')
    (hrun : Run step s ops s') (h : R s t) : ∃ ops' t', Run coarse t ops' t' ∧ R s' t' := by
  induction hrun generalizing t with
  | nil s => exact ⟨[], t, Run.nil t, h⟩
  | @cons s s' s'' op ops hfirst _ ih =>
    obtain ⟨ops₁, t₁, hrun₁, hR₁⟩ := hstep s op s' t h hfirst
    obtain ⟨ops₂, t₂, hrun₂, hR₂⟩ := ih hR₁
    exact ⟨ops₁ ++ ops₂, t₂, hrun₁.append hrun₂, hR₂⟩

/-- The simulation rule for a part of a system, which takes a step of its own on some
steps of the system and stays where it is on the others. -/
theorem Run.project {κ : Type*} {part : τ → κ → τ → Prop} {view : ι → Option κ}
    {R : σ → τ → Prop} {s s' : σ} {t : τ} {ops : List ι}
    (hstep : ∀ s op s' t, R s t → step s op s' → ∃ t', Run part t (view op).toList t' ∧ R s' t')
    (hrun : Run step s ops s') (h : R s t) :
    ∃ t', Run part t (ops.filterMap view) t' ∧ R s' t' := by
  induction hrun generalizing t with
  | nil s => exact ⟨t, Run.nil _, h⟩
  | @cons s s' s'' op ops hfirst _ ih =>
    obtain ⟨t₁, hpart, hR⟩ := hstep s op s' t h hfirst
    obtain ⟨t', hrest, hR'⟩ := ih hR
    refine ⟨t', ?_, hR'⟩
    cases hview : view op with
    | none =>
      rw [hview, Option.toList_none, run_nil_iff] at hpart
      rw [List.filterMap_cons_none hview, ← hpart]
      exact hrest
    | some op' =>
      rw [hview, Option.toList_some] at hpart
      rw [List.filterMap_cons_some hview]
      exact hpart.append hrest

end

end Transition
