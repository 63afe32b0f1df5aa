import ThriftProxy.Lib.Transition

/-!
# Lifetimes

The members of a collection that the operations of a run add to and remove from. Who is
a member after a run follows from its operations alone, up to those by which a member
may or may not have ended.
-/

namespace Transition

section

variable {σ ι τ α : Type*} (step : σ → ι → σ → Prop) (adds : σ → ι → α → Prop)
  (must may : ι → α → Prop) (mem : τ → α → Prop)

/-- An operation of a run adds a member, and the others follow it. -/
def AddedIn (s : σ) (ops : List ι) (a : α) (others : List ι) : Prop :=
  ∃ front op s', ops = front ++ op :: others ∧ Run step s front s' ∧ adds s' op a

/-- An operation on a collection: it adds members, ends those that must end and keeps
those that may not end. -/
structure Turnover (s : σ) (op : ι) (t t' : τ) : Prop where
  from_before : ∀ a, mem t' a → adds s op a ∨ (mem t a ∧ ¬ must op a)
  added : ∀ a, adds s op a → mem t' a
  kept : ∀ a, mem t a → ¬ may op a → mem t' a

/-- The members after a run. -/
structure Lifetimes (s : σ) (ops : List ι) (t t' : τ) : Prop where
  /-- A member has been there or was added, and has met nothing by which it must end. -/
  from_before : ∀ a, mem t' a → (mem t a ∧ ∀ op ∈ ops, ¬ must op a) ∨
    ∃ others, AddedIn step adds s ops a others ∧ ∀ op ∈ others, ¬ must op a
  /-- What was added is a member unless it has met something by which it may end. -/
  added : ∀ a others, AddedIn step adds s ops a others → (∀ op ∈ others, ¬ may op a) → mem t' a
  /-- So is what has been there. -/
  kept : ∀ a, mem t a → (∀ op ∈ ops, ¬ may op a) → mem t' a

variable {step adds must may mem}

/-- What the first operation of a run adds and what the others add. -/
theorem addedIn_cons_iff {s : σ} {op : ι} {ops others : List ι} {a : α} :
    AddedIn step adds s (op :: ops) a others ↔
      (others = ops ∧ adds s op a) ∨
        ∃ s', step s op s' ∧ AddedIn step adds s' ops a others := by
  constructor
  · rintro ⟨front, op', s', heq, hrun, hadds⟩
    cases hrun with
    | nil =>
      obtain ⟨rfl, rfl⟩ := List.cons.inj heq
      exact .inl ⟨rfl, hadds⟩
    | cons hstep hrest =>
      rw [List.cons_append, List.cons.injEq] at heq
      obtain ⟨rfl, rfl⟩ := heq
      exact .inr ⟨_, hstep, _, _, _, rfl, hrest, hadds⟩
  · rintro (⟨rfl, hadds⟩ | ⟨s', hstep, front, op', s'', rfl, hrun, hadds⟩)
    · exact ⟨[], op, s, rfl, .nil s, hadds⟩
    · exact ⟨op :: front, op', s'', rfl, .cons hstep hrun, hadds⟩

/-- One more operation in front of a run. -/
theorem Lifetimes.cons {s s' : σ} {op : ι} {ops : List ι} {t t' t'' : τ}
    (hdet : ∀ s₁, step s op s₁ → s₁ = s') (hstep : step s op s')
    (hturn : Turnover adds must may mem s op t t')
    (h : Lifetimes step adds must may mem s' ops t' t'') :
    Lifetimes step adds must may mem s (op :: ops) t t'' where
  from_before := by
    intro a ha
    obtain ⟨hthere, hops⟩ | ⟨others, hadded, hothers⟩ := h.from_before a ha
    · obtain hadds | ⟨hbefore, hop⟩ := hturn.from_before a hthere
      · exact .inr ⟨ops, addedIn_cons_iff.mpr (.inl ⟨rfl, hadds⟩), hops⟩
      · exact .inl ⟨hbefore, List.forall_mem_cons.mpr ⟨hop, hops⟩⟩
    · exact .inr ⟨others, addedIn_cons_iff.mpr (.inr ⟨s', hstep, hadded⟩), hothers⟩
  added := by
    intro a others hadded hothers
    obtain ⟨rfl, hadds⟩ | ⟨s₁, hstep₁, hadded⟩ := addedIn_cons_iff.mp hadded
    · exact h.kept a (hturn.added a hadds) hothers
    · obtain rfl := hdet s₁ hstep₁
      exact h.added a others hadded hothers
  kept := by
    intro a ha hops
    obtain ⟨hop, hops⟩ := List.forall_mem_cons.mp hops
    exact h.kept a (hturn.kept a ha hop) hops

/-- A run whose steps turn a collection over, as long as the collection stands for the
state. -/
theorem Run.lifetimes {R : List ι → σ → τ → Prop} {s last : σ} {t : τ} {ops : List ι}
    (hdet : ∀ s op s' s'', step s op s' → step s op s'' → s'' = s')
    (hstep : ∀ op ops s t s', R (op :: ops) s t → step s op s' → Run step s' ops last →
      ∃ t', Turnover adds must may mem s op t t' ∧ R ops s' t')
    (hrun : Run step s ops last) (h : R ops s t) :
    ∃ t', Lifetimes step adds must may mem s ops t t' ∧ R [] last t' := by
  induction hrun generalizing t with
  | nil s =>
    refine ⟨t, ⟨fun a ha => .inl ⟨ha, by simp⟩, ?_, fun a ha _ => ha⟩, h⟩
    rintro a others ⟨front, op, s', heq, -⟩
    simp at heq
  | cons hfirst hrest ih =>
    obtain ⟨t', hturn, ht'⟩ := hstep _ _ _ _ _ h hfirst hrest
    obtain ⟨t'', hlife, ht''⟩ := ih hstep ht'
    exact ⟨t'', hlife.cons (fun s₁ h₁ => hdet _ _ _ _ hfirst h₁) hfirst hturn, ht''⟩

end

end Transition
