import ThriftProxy.Lib.Typestate

/-!
# A program among others and alone

Between the operations of a program other parties act, and what they do shows in the
answers. A program that asks each question at most once could have got the same answers
with nobody else around: its execution is then a trace of the program alone, with answers
that are fixed in advance.
-/

namespace Effect

namespace Program

variable {S : Signature} {κ ω α : Type}

/-- An execution that got the answers of a trace is the beginning of this trace. -/
theorem Exec.trace_eq {answer : ∀ op, S.Answer op} {p q : Program S α} {events : List (Event S)}
    (h : Exec p events q) (hanswers : ∀ e ∈ events, e.answer = answer e.op) :
    p.trace answer = events ++ q.trace answer := by
  induction h with
  | refl p => rfl
  | @step op next a events q hrest ih =>
    have ha : a = answer op := hanswers _ List.mem_cons_self
    subst ha
    rw [trace_perform, ih fun e he => hanswers e (List.mem_cons_of_mem _ he), List.cons_append]

variable {ask : S.Op → Option κ}

/-- The first answer to a question is the only one. -/
theorem findSome?_of_asked_once {events : List (Event S)}
    (hnodup : (events.filterMap fun e => ask e.op).Nodup) {view : Event S → Option ω} {q : κ}
    (hview : ∀ e v, view e = some v → ask e.op = some q) {e : Event S} (he : e ∈ events) {v : ω}
    (hv : view e = some v) : events.findSome? view = some v := by
  induction events with
  | nil => cases he
  | cons e' events ih =>
    cases hv' : view e' with
    | none =>
      obtain rfl | he := List.mem_cons.mp he
      · rw [hv] at hv'
        cases hv'
      · rw [List.findSome?_cons, hv']
        have htail : (events.filterMap fun e => ask e.op).Nodup :=
          hnodup.sublist ((List.sublist_cons_self e' events).filterMap _)
        exact ih htail he
    | some v' =>
      simp only [List.filterMap_cons, hview e' v' hv'] at hnodup
      obtain rfl | he := List.mem_cons.mp he
      · rw [List.findSome?_cons, hv]
      · have hasked : q ∈ events.filterMap fun e => ask e.op :=
          List.mem_filterMap.mpr ⟨e, he, hview e v hv⟩
        exact absurd hasked (List.nodup_cons.mp hnodup).1

variable [DecidableEq κ]

/-- No question is asked twice. The state are the questions that have been asked. -/
def askingOnce (ask : S.Op → Option κ) : Discipline S (List κ)
  | asked, e =>
    match ask e.op with
    | none => some asked
    | some q => if q ∈ asked then none else some (q :: asked)

/-- An operation without a question. -/
theorem askingOnce_none {e : Event S} (h : ask e.op = none) (asked : List κ) :
    askingOnce ask asked e = some asked := by
  rw [askingOnce, h]

/-- A question that has not been asked. -/
theorem askingOnce_some {e : Event S} {q : κ} (h : ask e.op = some q) {asked : List κ}
    (hnew : q ∉ asked) : askingOnce ask asked e = some (q :: asked) := by
  simp only [askingOnce, h, if_neg hnew]

/-- What is asked along a run that asks once. -/
theorem nodup_of_askingOnce {events : List (Event S)} {asked asked' : List κ}
    (h : events.foldlM (askingOnce ask) asked = some asked') (hasked : asked.Nodup) :
    (asked.reverse ++ events.filterMap fun e => ask e.op).Nodup := by
  induction events generalizing asked with
  | nil => simpa using (List.reverse_perm asked).nodup_iff.mpr hasked
  | cons e events ih =>
    rw [List.foldlM_cons, Option.bind_eq_bind, Option.bind_eq_some_iff] at h
    obtain ⟨next, hnext, hrest⟩ := h
    cases hask : ask e.op with
    | none =>
      rw [askingOnce_none hask] at hnext
      obtain rfl := Option.some.inj hnext
      simp only [List.filterMap_cons, hask]
      exact ih hrest hasked
    | some q =>
      simp only [askingOnce, hask, Option.ite_none_left_eq_some] at hnext
      obtain ⟨hnew, hnext⟩ := hnext
      obtain rfl := Option.some.inj hnext
      have hnodup := ih hrest (List.nodup_cons.mpr ⟨hnew, hasked⟩)
      simp only [List.filterMap_cons, hask]
      simpa only [List.reverse_cons, List.append_assoc, List.singleton_append] using hnodup

/-- A program that asks once gives every question one answer. -/
theorem Exec.answer_unique {p p' : Program S α} {events : List (Event S)}
    {final : α → List κ → Prop} (h : Exec p events p') (hp : p.Keeps (askingOnce ask) final [])
    {view : Event S → Option ω} {q : κ} (hview : ∀ e v, view e = some v → ask e.op = some q)
    {e : Event S} (he : e ∈ events) {v : ω} (hv : view e = some v) :
    events.findSome? view = some v := by
  obtain ⟨asked, hasked, -⟩ := h.keeps hp
  exact findSome?_of_asked_once (by simpa using nodup_of_askingOnce hasked List.nodup_nil)
    hview he hv

end Program

end Effect
