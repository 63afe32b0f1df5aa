import Mathlib.Data.Nat.Digits.Defs

/-!
# Decimal numerals

The text that `"%d"` prints for an integer and the integer such a text denotes.
Printing never loses information, whatever the sign.
-/

namespace Decimal

/-- The ASCII digits of a natural number, most significant first. -/
def printNat (n : ℕ) : List UInt8 :=
  if n = 0 then [48] else (Nat.digits 10 n).reverse.map fun d => UInt8.ofNat (48 + d)

/-- The number denoted by ASCII digits. -/
def parseNat (text : List UInt8) : ℕ := text.foldl (fun acc b => 10 * acc + (b.toNat - 48)) 0

/-- The text printed by `"%d"`. -/
def printInt (x : ℤ) : List UInt8 :=
  if x < 0 then 45 :: printNat x.natAbs else printNat x.natAbs

/-- The integer denoted by ASCII digits behind an optional minus sign. -/
def parseInt : List UInt8 → ℤ
  | [] => 0
  | b :: text => if b = 45 then -(parseNat text : ℤ) else parseNat (b :: text)

/-- The accumulation of `parseNat` over reversed digits is their value. -/
theorem foldr_digits {digits : List ℕ} (h : ∀ d ∈ digits, d < 10) :
    digits.foldr (fun d acc => 10 * acc + ((UInt8.ofNat (48 + d)).toNat - 48)) 0 =
      Nat.ofDigits 10 digits := by
  induction digits with
  | nil => rfl
  | cons d digits ih =>
    have hd : d < 10 := h d (by simp)
    have hbyte : (UInt8.ofNat (48 + d)).toNat = 48 + d := by
      rw [UInt8.toNat_ofNat']
      omega
    rw [List.foldr_cons, ih (fun e he => h e (by simp [he])), Nat.ofDigits_cons, hbyte]
    simp
    omega

/-- Parsing recovers a printed natural number. -/
theorem parseNat_printNat (n : ℕ) : parseNat (printNat n) = n := by
  unfold printNat
  split
  · subst n
    rfl
  · rw [parseNat, List.foldl_map, List.foldl_reverse, foldr_digits, Nat.ofDigits_digits]
    intro d hd
    exact Nat.digits_lt_base (by decide) hd

/-- A printed natural number consists of digits. -/
theorem digit_of_mem_printNat {n : ℕ} {b : UInt8} (hb : b ∈ printNat n) : 48 ≤ b ∧ b ≤ 57 := by
  unfold printNat at hb
  split at hb
  · rw [List.mem_singleton.mp hb]
    decide
  · obtain ⟨d, hd, rfl⟩ := List.mem_map.mp hb
    have hlt : d < 10 := Nat.digits_lt_base (by decide) (List.mem_reverse.mp hd)
    rw [UInt8.le_iff_toNat_le, UInt8.le_iff_toNat_le, UInt8.toNat_ofNat']
    simp
    omega

/-- A printed natural number is not empty. -/
theorem printNat_ne_nil (n : ℕ) : printNat n ≠ [] := by
  unfold printNat
  split
  · simp
  · rename_i hn
    simpa using Nat.digits_ne_nil_iff_ne_zero.mpr hn

/-- A printed natural number starts with a digit, never with a minus sign. -/
theorem printNat_ne_minus (n : ℕ) : ∃ b text, printNat n = b :: text ∧ b ≠ 45 := by
  obtain ⟨b, text, heq⟩ := List.exists_cons_of_ne_nil (printNat_ne_nil n)
  refine ⟨b, text, heq, ?_⟩
  rintro rfl
  have hdigit := digit_of_mem_printNat (n := n) (b := 45) (by simp [heq])
  exact absurd hdigit.1 (by decide)

/-- Parsing recovers a printed integer. -/
theorem parseInt_printInt (x : ℤ) : parseInt (printInt x) = x := by
  unfold printInt
  split
  · rw [parseInt, if_pos rfl, parseNat_printNat]
    omega
  · obtain ⟨b, text, heq, hb⟩ := printNat_ne_minus x.natAbs
    rw [heq, parseInt, if_neg hb, ← heq, parseNat_printNat]
    omega

end Decimal
