import Mathlib.Algebra.Group.Nat.Defs
import Mathlib.Data.List.Basic
import Mathlib.Logic.Function.Basic

/-!
# Word memory

Memory seen through its eight-byte words, the null-terminated chains that
programs thread through it, and blocks that lie apart from each other. Any
memory in which disjoint words do not interfere is an instance; an address
stands for the word that starts there.
-/

namespace Machine

/-- Memory that can be read and written by words. -/
class WordMemory (M : Type) where
  /-- The word at an address. -/
  load : M → ℕ → ℕ
  /-- The memory with a word written to an address. -/
  store : M → ℕ → ℕ → M
  /-- A 64-bit word that was written is read back. -/
  load_store_self : ∀ m a v, v < 2 ^ 64 → load (store m a v) a = v
  /-- Words that do not overlap do not interfere. -/
  load_store_of_apart : ∀ m a v b, a + 8 ≤ b ∨ b + 8 ≤ a → load (store m a v) b = load m b

/-- Memory as a function from the addresses in use to words. -/
instance : WordMemory (ℕ → ℕ) where
  load m a := m a
  store m a v := Function.update m a v
  load_store_self m a v _ := by simp
  load_store_of_apart m a v b h := by
    rw [Function.update_of_ne]
    omega

open WordMemory

/-- Two blocks of a size do not overlap. -/
def Apart (size a b : ℕ) : Prop := a + size ≤ b ∨ b + size ≤ a

instance (size a b : ℕ) : Decidable (Apart size a b) := by unfold Apart; infer_instance

/-- Blocks lie apart symmetrically. -/
theorem Apart.symm {size a b : ℕ} (h : Apart size a b) : Apart size b a := Or.symm h

instance (size : ℕ) : Std.Symm (Apart size) := ⟨fun _ _ h => h.symm⟩

/-- Smaller blocks at the same places lie apart too. -/
theorem Apart.mono {size size' a b : ℕ} (h : Apart size a b) (hle : size' ≤ size) :
    Apart size' a b := by
  unfold Apart at *
  omega

/-- A block lies apart from another one only. -/
theorem Apart.ne {size a b : ℕ} (h : Apart size a b) (hsize : 0 < size) : a ≠ b := by
  unfold Apart at h
  omega

section

variable {M : Type} [WordMemory M]

/-- A null-terminated chain: the first word of each block points to the next block. -/
def Chain (m : M) : ℕ → List ℕ → Prop
  | p, [] => p = 0
  | p, a :: rest => p = a ∧ a ≠ 0 ∧ Chain m (load m a) rest

/-- A memory and a first block have one chain at most. -/
theorem Chain.unique {m : M} {p : ℕ} {xs ys : List ℕ} (hx : Chain m p xs) (hy : Chain m p ys) :
    xs = ys := by
  induction xs generalizing p ys with
  | nil =>
    cases ys with
    | nil => rfl
    | cons b ys => exact absurd (hy.1.symm.trans hx) hy.2.1
  | cons a xs ih =>
    obtain ⟨rfl, hne, hrest⟩ := hx
    cases ys with
    | nil => exact absurd hy hne
    | cons b ys =>
      obtain ⟨rfl, -, hrest'⟩ := hy
      rw [ih hrest hrest']

/-- A chain is left alone by what leaves its links alone. -/
theorem Chain.congr {m m' : M} {p : ℕ} {xs : List ℕ} (h : Chain m p xs)
    (hload : ∀ a ∈ xs, load m' a = load m a) : Chain m' p xs := by
  induction xs generalizing p with
  | nil => exact h
  | cons a xs ih =>
    obtain ⟨hp, hne, hrest⟩ := h
    refine ⟨hp, hne, ?_⟩
    rw [hload a (by simp)]
    exact ih hrest fun c hc => hload c (by simp [hc])

/-- Writing apart from a chain leaves it alone. -/
theorem Chain.store_of_apart {m : M} {p b v : ℕ} {xs : List ℕ} (h : Chain m p xs)
    (hb : ∀ a ∈ xs, Apart 8 b a) : Chain (store m b v) p xs :=
  h.congr fun a ha => load_store_of_apart m b v a (hb a ha)

/-- A block is pushed onto a chain by writing the first block of the chain to it. -/
theorem Chain.push {m : M} {p a : ℕ} {xs : List ℕ} (h : Chain m p xs) (hp : p < 2 ^ 64)
    (hne : a ≠ 0) (ha : ∀ b ∈ xs, Apart 8 a b) : Chain (store m a p) a (a :: xs) := by
  refine ⟨rfl, hne, ?_⟩
  rw [load_store_self m a p hp]
  exact h.store_of_apart ha

/-- The first block of a chain whose blocks lie below a bound lies below it. -/
theorem Chain.first_lt {m : M} {p bound : ℕ} {xs : List ℕ} (h : Chain m p xs)
    (hbound : ∀ a ∈ xs, a < bound) (hpos : 0 < bound) : p < bound := by
  cases xs with
  | nil =>
    have : p = 0 := h
    omega
  | cons a xs => exact h.1 ▸ hbound a (by simp)

end

end Machine
