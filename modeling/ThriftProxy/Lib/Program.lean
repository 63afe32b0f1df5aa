import Mathlib.Data.List.Count

/-!
# Programs with effects

A program is a tree of operations, each followed by a continuation that takes
the answer of its environment. The same tree is run in two ways: to its end
with every answer given in advance (`trace`), and one operation at a time while
other threads act in between (`Exec`). `Always` and `AtMost` are properties of
the tree that hold of every execution of either kind.
-/

namespace Effect

/-- The operations of a program and the type of answer each of them gets. -/
structure Signature where
  /-- The operations. -/
  Op : Type
  /-- What the environment answers to an operation. -/
  Answer : Op → Type

/-- An operation together with the answer it got. -/
structure Event (S : Signature) where
  /-- The operation performed. -/
  op : S.Op
  /-- The answer of the environment. -/
  answer : S.Answer op

/-- A program: a result, or an operation and what follows on its answer. -/
inductive Program (S : Signature) (α : Type) : Type
  | ret (result : α)
  | perform (op : S.Op) (next : S.Answer op → Program S α)

namespace Program

variable {S : Signature} {α β : Type}

/-- Programs in sequence. -/
def bind (p : Program S α) (f : α → Program S β) : Program S β :=
  match p with
  | ret a => f a
  | perform op next => perform op fun answer => (next answer).bind f

instance : Monad (Program S) where
  pure := ret
  bind := bind

/-- The program that performs one operation and returns its answer. -/
def call (op : S.Op) : Program S (S.Answer op) := perform op ret

/-- The program that is done. -/
@[simp] theorem pure_eq (a : α) : (pure a : Program S α) = ret a := rfl

/-- A program that is done goes on with its continuation. -/
@[simp] theorem ret_bind (a : α) (f : α → Program S β) : (ret a : Program S α) >>= f = f a := rfl

/-- The continuation of a sequence comes behind its operations. -/
@[simp] theorem perform_bind (op : S.Op) (next : S.Answer op → Program S α)
    (f : α → Program S β) :
    perform op next >>= f = perform op fun answer => next answer >>= f := rfl

/-- The answer of a single operation goes to the continuation. -/
@[simp] theorem call_bind (op : S.Op) (f : S.Answer op → Program S β) :
    call op >>= f = perform op f := rfl

/-! ## Executions -/

/-- The events of a complete run in which every operation gets the given answer. -/
def trace (answer : ∀ op, S.Answer op) : Program S α → List (Event S)
  | ret _ => []
  | perform op next => ⟨op, answer op⟩ :: (next (answer op)).trace answer

/-- A program that is done performs nothing. -/
@[simp] theorem trace_ret (answer : ∀ op, S.Answer op) (a : α) :
    (ret a : Program S α).trace answer = [] := rfl

/-- The first event of a run, and those behind it. -/
@[simp] theorem trace_perform (answer : ∀ op, S.Answer op) (op : S.Op)
    (next : S.Answer op → Program S α) :
    (perform op next).trace answer = ⟨op, answer op⟩ :: (next (answer op)).trace answer := rfl

/-- The events of a complete run have the given answers. -/
theorem answer_of_mem_trace {answer : ∀ op, S.Answer op} {p : Program S α} {e : Event S}
    (h : e ∈ p.trace answer) : e.answer = answer e.op := by
  induction p with
  | ret => simp at h
  | perform op next ih =>
    rcases List.mem_cons.mp h with rfl | h
    · rfl
    · exact ih (answer op) h

/-- The result of a complete run in which every operation gets the given answer. -/
def result (answer : ∀ op, S.Answer op) : Program S α → α
  | ret a => a
  | perform op next => (next (answer op)).result answer

/-- The result of a program that is done. -/
@[simp] theorem result_ret (answer : ∀ op, S.Answer op) (a : α) :
    (ret a : Program S α).result answer = a := rfl

/-- An operation leaves the result to what follows on its answer. -/
@[simp] theorem result_perform (answer : ∀ op, S.Answer op) (op : S.Op)
    (next : S.Answer op → Program S α) :
    (perform op next).result answer = (next (answer op)).result answer := rfl

/-- A sequence runs its first part and then the continuation of its result. -/
theorem trace_bind (answer : ∀ op, S.Answer op) (p : Program S α) (f : α → Program S β) :
    (p >>= f).trace answer = p.trace answer ++ (f (p.result answer)).trace answer := by
  induction p with
  | ret => rfl
  | perform op next ih => simp [ih]

/-- The result of a sequence is that of its continuation. -/
theorem result_bind (answer : ∀ op, S.Answer op) (p : Program S α) (f : α → Program S β) :
    (p >>= f).result answer = (f (p.result answer)).result answer := by
  induction p with
  | ret => rfl
  | perform op next ih => simp [ih]

/-- What a view shows of a complete run. -/
def observed {ω : Type} (answer : ∀ op, S.Answer op) (view : Event S → Option ω)
    (p : Program S α) : List ω := (p.trace answer).filterMap view

/-- A view shows the parts of a sequence one after the other. -/
theorem observed_bind {ω : Type} (answer : ∀ op, S.Answer op) (view : Event S → Option ω)
    (p : Program S α) (f : α → Program S β) :
    (p >>= f).observed answer view =
      p.observed answer view ++ (f (p.result answer)).observed answer view := by
  rw [observed, trace_bind, List.filterMap_append, observed, observed]

/-- The program performs the given events, one after the other, and then
continues as the other program. -/
inductive Exec : Program S α → List (Event S) → Program S α → Prop
  | refl (p : Program S α) : Exec p [] p
  | step {op : S.Op} {next : S.Answer op → Program S α} {answer : S.Answer op}
      {events : List (Event S)} {q : Program S α} :
      Exec (next answer) events q → Exec (perform op next) (⟨op, answer⟩ :: events) q

/-- An execution is extended by the next operation of the program it has reached. -/
theorem Exec.snoc {p : Program S α} {events : List (Event S)} {op : S.Op}
    {next : S.Answer op → Program S α} (h : Exec p events (perform op next))
    (answer : S.Answer op) : Exec p (events ++ [⟨op, answer⟩]) (next answer) := by
  generalize hq : perform op next = q at h
  induction h with
  | refl => subst hq; exact Exec.step (Exec.refl _)
  | step _ ih => exact Exec.step (ih hq)

/-! ## Properties of every execution -/

/-- Every operation performed satisfies `φ`, as long as every event before it is `ok`. -/
def Always (ok : Event S → Prop) (φ : S.Op → Prop) : Program S α → Prop
  | ret _ => True
  | perform op next => φ op ∧ ∀ answer, ok ⟨op, answer⟩ → (next answer).Always ok φ

/-- A program that is done performs nothing wrong. -/
@[simp] theorem always_ret (ok : Event S → Prop) (φ : S.Op → Prop) (a : α) :
    (ret a : Program S α).Always ok φ := trivial

/-- A property of the first operation, and of all that may follow. -/
@[simp] theorem always_perform (ok : Event S → Prop) (φ : S.Op → Prop) (op : S.Op)
    (next : S.Answer op → Program S α) :
    (perform op next).Always ok φ ↔
      φ op ∧ ∀ answer, ok ⟨op, answer⟩ → (next answer).Always ok φ := Iff.rfl

/-- A sequence satisfies `φ` when its first part does and every continuation does. -/
theorem always_bind {ok : Event S → Prop} {φ : S.Op → Prop} {p : Program S α}
    {f : α → Program S β} (hp : p.Always ok φ) (hf : ∀ a, (f a).Always ok φ) :
    (p >>= f).Always ok φ := by
  induction p with
  | ret a => exact hf a
  | perform op next ih => exact ⟨hp.1, fun answer hok => ih answer (hp.2 answer hok)⟩

/-- In an execution whose events are `ok`, every operation satisfies `φ`, and so
does every operation still to come. -/
theorem Exec.always {ok : Event S → Prop} {φ : S.Op → Prop} {p q : Program S α}
    {events : List (Event S)} (h : Exec p events q) (hok : ∀ e ∈ events, ok e)
    (hp : p.Always ok φ) : (∀ e ∈ events, φ e.op) ∧ q.Always ok φ := by
  induction h with
  | refl => exact ⟨by simp, hp⟩
  | step _ ih =>
    obtain ⟨hφ, hnext⟩ := hp
    obtain ⟨hevents, hq⟩ := ih (fun e he => hok e (by simp [he])) (hnext _ (hok _ (by simp)))
    refine ⟨?_, hq⟩
    intro e he
    rcases List.mem_cons.mp he with rfl | he
    · exact hφ
    · exact hevents e he

/-- A complete run whose answers are `ok` satisfies `φ` at every operation. -/
theorem Always.trace {ok : Event S → Prop} {φ : S.Op → Prop} {p : Program S α}
    (hp : p.Always ok φ) {answer : ∀ op, S.Answer op} (hok : ∀ op, ok ⟨op, answer op⟩) :
    ∀ e ∈ p.trace answer, φ e.op := by
  induction p with
  | ret => simp
  | perform op next ih =>
    intro e he
    rcases List.mem_cons.mp he with rfl | he
    · exact hp.1
    · exact ih (answer op) (hp.2 (answer op) (hok op)) e he

/-- No operation of the kind `p` is performed, whatever the answers. -/
def Avoids (kind : S.Op → Bool) (p : Program S α) : Prop :=
  p.Always (fun _ => True) fun op => kind op = false

/-- A program that does nothing avoids every kind. -/
@[simp] theorem avoids_ret (kind : S.Op → Bool) (a : α) : (ret a : Program S α).Avoids kind :=
  trivial

/-- A program avoids a kind when its first operation is not of the kind and what
follows avoids it. -/
@[simp] theorem avoids_perform (kind : S.Op → Bool) (op : S.Op)
    (next : S.Answer op → Program S α) :
    (perform op next).Avoids kind ↔ kind op = false ∧ ∀ answer, (next answer).Avoids kind := by
  simp [Avoids]

/-- A program that avoids a kind avoids every narrower kind. -/
theorem Avoids.mono {kind kind' : S.Op → Bool} {p : Program S α} (hp : p.Avoids kind)
    (hle : ∀ op, kind op = false → kind' op = false) : p.Avoids kind' := by
  induction p with
  | ret a => exact avoids_ret kind' a
  | perform op next ih =>
    rw [avoids_perform] at hp ⊢
    exact ⟨hle op hp.1, fun answer => ih answer (hp.2 answer)⟩

/-- A sequence avoids a kind when its parts do. -/
theorem Avoids.bind {kind : S.Op → Bool} {p : Program S α} {f : α → Program S β}
    (hp : p.Avoids kind) (hf : ∀ a, (f a).Avoids kind) : (p >>= f).Avoids kind :=
  always_bind hp hf

/-- A view that only shows operations of a kind shows nothing of a program that avoids it. -/
theorem Avoids.observed_eq_nil {ω : Type} {kind : S.Op → Bool} {view : Event S → Option ω}
    {p : Program S α} (hp : p.Avoids kind) (hview : ∀ e, kind e.op = false → view e = none)
    (answer : ∀ op, S.Answer op) : p.observed answer view = [] := by
  unfold observed
  rw [List.filterMap_eq_nil_iff]
  intro e he
  exact hview e (hp.trace (fun _ => trivial) e he)

/-- At most `n` operations of a kind are performed, whatever the answers. -/
def AtMost (kind : S.Op → Bool) : ℕ → Program S α → Prop
  | _, ret _ => True
  | n, perform op next =>
    if kind op then 0 < n ∧ ∀ answer, (next answer).AtMost kind (n - 1)
    else ∀ answer, (next answer).AtMost kind n

/-- A program that does nothing keeps to every limit. -/
@[simp] theorem atMost_ret (kind : S.Op → Bool) (n : ℕ) (a : α) :
    (ret a : Program S α).AtMost kind n := trivial

/-- An operation of another kind does not count. -/
theorem atMost_perform_of_not {kind : S.Op → Bool} {n : ℕ} {op : S.Op}
    {next : S.Answer op → Program S α} (h : kind op = false) :
    (perform op next).AtMost kind n ↔ ∀ answer, (next answer).AtMost kind n := by
  simp [AtMost, h]

/-- An operation of the kind counts. -/
theorem atMost_perform_of_kind {kind : S.Op → Bool} {n : ℕ} {op : S.Op}
    {next : S.Answer op → Program S α} (h : kind op = true) :
    (perform op next).AtMost kind n ↔ 0 < n ∧ ∀ answer, (next answer).AtMost kind (n - 1) := by
  simp [AtMost, h]

/-- A program that keeps to a limit keeps to every larger one. -/
theorem AtMost.mono {kind : S.Op → Bool} {n m : ℕ} {p : Program S α} (hp : p.AtMost kind n)
    (hle : n ≤ m) : p.AtMost kind m := by
  induction p generalizing n m with
  | ret a => exact atMost_ret kind m a
  | perform op next ih =>
    cases hkind : kind op with
    | false =>
      rw [atMost_perform_of_not hkind] at hp ⊢
      exact fun answer => ih answer (hp answer) hle
    | true =>
      rw [atMost_perform_of_kind hkind] at hp ⊢
      exact ⟨by omega, fun answer => ih answer (hp.2 answer) (by omega)⟩

/-- A program that avoids a kind keeps to every limit. -/
theorem Avoids.atMost {kind : S.Op → Bool} {p : Program S α} (hp : p.Avoids kind) (n : ℕ) :
    p.AtMost kind n := by
  induction p with
  | ret a => exact atMost_ret kind n a
  | perform op next ih =>
    rw [avoids_perform] at hp
    rw [atMost_perform_of_not hp.1]
    exact fun answer => ih answer (hp.2 answer)

/-- The limits of a sequence add up. -/
theorem AtMost.bind {kind : S.Op → Bool} {n m : ℕ} {p : Program S α} {f : α → Program S β}
    (hp : p.AtMost kind n) (hf : ∀ a, (f a).AtMost kind m) : (p >>= f).AtMost kind (n + m) := by
  induction p generalizing n with
  | ret a => exact (hf a).mono (Nat.le_add_left m n)
  | perform op next ih =>
    rw [perform_bind]
    cases hkind : kind op with
    | false =>
      rw [atMost_perform_of_not hkind] at hp ⊢
      exact fun answer => ih answer (hp answer)
    | true =>
      rw [atMost_perform_of_kind hkind] at hp ⊢
      obtain ⟨hpos, hnext⟩ := hp
      refine ⟨by omega, fun answer => ?_⟩
      have hsum : n + m - 1 = n - 1 + m := by omega
      rw [hsum]
      exact ih answer (hnext answer)

/-- An execution has no more operations of the kind than the program allows. -/
theorem Exec.atMost {kind : S.Op → Bool} {n : ℕ} {p q : Program S α} {events : List (Event S)}
    (h : Exec p events q) (hp : p.AtMost kind n) :
    events.countP (fun e => kind e.op) ≤ n ∧
      q.AtMost kind (n - events.countP fun e => kind e.op) := by
  induction h generalizing n with
  | refl => exact ⟨by simp, by simpa using hp⟩
  | @step op next answer events q _ ih =>
    unfold AtMost at hp
    split at hp
    · rename_i hkind
      obtain ⟨hle, hq⟩ := ih (hp.2 answer)
      have hn := hp.1
      rw [List.countP_cons_of_pos (by simpa using hkind)]
      refine ⟨by omega, ?_⟩
      rwa [Nat.sub_sub, Nat.add_comm] at hq
    · rename_i hkind
      rw [List.countP_cons_of_neg (by simpa using hkind)]
      exact ih (hp answer)

/-- A program that may perform no operation of a kind avoids it. -/
theorem AtMost.avoids {kind : S.Op → Bool} {p : Program S α} (h : p.AtMost kind 0) :
    p.Avoids kind := by
  induction p with
  | ret => trivial
  | perform op next ih =>
    unfold AtMost at h
    split at h
    · exact absurd h.1 (by omega)
    · rename_i hkind
      exact ⟨by simpa using hkind, fun answer _ => ih answer (h answer)⟩

end Program

end Effect
