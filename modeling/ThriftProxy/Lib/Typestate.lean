import ThriftProxy.Lib.Program

/-!
# Typestates of programs

A discipline says how each event changes the state of whoever follows the
events of a program, and which events are not allowed in a state. A program that
keeps to a discipline, whatever the answers, does so in every execution, also
while other threads act in between.
-/

namespace Effect

/-- The state after an event, or none if the event is not allowed. -/
abbrev Discipline (S : Signature) (Q : Type) := Q → Event S → Option Q

namespace Program

variable {S : Signature} {Q α β : Type} {d : Discipline S Q}

/-- Every event is allowed, and at the end the result and the state are final. -/
def Keeps (d : Discipline S Q) (final : α → Q → Prop) : Q → Program S α → Prop
  | q, ret a => final a q
  | q, perform op next =>
    ∀ answer, ∃ q', d q ⟨op, answer⟩ = some q' ∧ Keeps d final q' (next answer)

/-- A program that is done has come to its last state. -/
@[simp] theorem keeps_ret {final : α → Q → Prop} {q : Q} {a : α} :
    (ret a : Program S α).Keeps d final q ↔ final a q := Iff.rfl

/-- Each answer to the first operation leads to a state from which the rest keeps the
discipline. -/
@[simp] theorem keeps_perform {final : α → Q → Prop} {q : Q} {op : S.Op}
    {next : S.Answer op → Program S α} :
    (perform op next).Keeps d final q ↔
      ∀ answer, ∃ q', d q ⟨op, answer⟩ = some q' ∧ (next answer).Keeps d final q' := Iff.rfl

/-- A sequence keeps to a discipline when its second part takes over in the states
in which the first part ends. -/
theorem Keeps.bind {middle : α → Q → Prop} {final : β → Q → Prop} {q : Q} {p : Program S α}
    {f : α → Program S β} (hp : p.Keeps d middle q)
    (hf : ∀ a q', middle a q' → (f a).Keeps d final q') : (p >>= f).Keeps d final q := by
  induction p generalizing q with
  | ret a => exact hf a q hp
  | perform op next ih =>
    intro answer
    obtain ⟨q', hnext, hrest⟩ := hp answer
    exact ⟨q', hnext, ih answer hrest⟩

/-- A weaker end. -/
theorem Keeps.imp {final final' : α → Q → Prop} {q : Q} {p : Program S α}
    (hp : p.Keeps d final q) (h : ∀ a q', final a q' → final' a q') : p.Keeps d final' q := by
  induction p generalizing q with
  | ret a => exact h a q hp
  | perform op next ih =>
    intro answer
    obtain ⟨q', hnext, hrest⟩ := hp answer
    exact ⟨q', hnext, ih answer hrest⟩

/-- A program without operations of a kind stays in its state, when only operations
of the kind leave it. -/
theorem Avoids.keeps {kind : S.Op → Bool} {p : Program S α} (hp : p.Avoids kind) {q : Q}
    (hstay : ∀ e : Event S, kind e.op = false → d q e = some q) :
    p.Keeps d (fun _ q' => q' = q) q := by
  induction p with
  | ret a => rfl
  | perform op next ih =>
    rw [avoids_perform] at hp
    exact fun answer => ⟨q, hstay _ hp.1, ih answer (hp.2 answer)⟩

/-- An execution of a program that keeps to a discipline leads from state to state,
and what is left of the program keeps to it too. -/
theorem Exec.keeps {final : α → Q → Prop} {q : Q} {p p' : Program S α} {events : List (Event S)}
    (h : Exec p events p') (hp : p.Keeps d final q) :
    ∃ q', events.foldlM d q = some q' ∧ p'.Keeps d final q' := by
  induction h generalizing q with
  | refl => exact ⟨q, rfl, hp⟩
  | @step op next answer events p' _ ih =>
    obtain ⟨q₁, hd, hnext⟩ := hp answer
    obtain ⟨q', hevents, hrest⟩ := ih hnext
    refine ⟨q', ?_, hrest⟩
    rw [List.foldlM_cons, hd]
    exact hevents

end Program

end Effect
