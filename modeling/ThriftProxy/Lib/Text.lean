import ThriftProxy.Lib.Memory
import ThriftProxy.Lib.Decimal

/-!
# Text of the C library

The functions of the C and C++ libraries that take text apart, on lists of
bytes: `getline` with a delimiter, `strtok` and `atoi`.
-/

namespace Text

open Machine

/-- The pieces of a text whose first bytes have been read. -/
def piecesFrom (sep : UInt8) : List UInt8 → List UInt8 → List (List UInt8)
  | piece, [] => if piece = [] then [] else [piece]
  | piece, b :: text =>
    if b = sep then piece :: piecesFrom sep [] text else piecesFrom sep (piece ++ [b]) text

/-- The pieces that a delimiter ends. Behind the last delimiter there is a piece
only if there is text. -/
def pieces (sep : UInt8) (text : List UInt8) : List (List UInt8) := piecesFrom sep [] text

/-- `strtok`: the first token and the text behind the delimiter that ends it. -/
def strtok (delims : List UInt8) (text : List UInt8) : Option (List UInt8 × List UInt8) :=
  let start := text.dropWhile fun b => b ∈ delims
  if start = [] then none
  else
    some (start.takeWhile fun b => b ∉ delims, (start.dropWhile fun b => b ∉ delims).drop 1)

/-- `isspace` in the C locale. -/
def isSpace (b : UInt8) : Bool := b = 32 || (9 ≤ b && b ≤ 13)

/-- `isdigit`. -/
def isDigit (b : UInt8) : Bool := 48 ≤ b && b ≤ 57

/-- The number that a text starts with. -/
def leadingNat (text : List UInt8) : ℕ :=
  (text.takeWhile isDigit).foldl (fun acc b => 10 * acc + (b.toNat - 48)) 0

/-- The value of `strtol(text, NULL, 10)`, which stays within a `long`. -/
def strtol (text : List UInt8) : ℤ :=
  match text.dropWhile isSpace with
  | [] => 0
  | b :: rest =>
    if b = 45 then max (-2 ^ 63) (-(leadingNat rest : ℤ))
    else if b = 43 then min (2 ^ 63 - 1) (leadingNat rest)
    else min (2 ^ 63 - 1) (leadingNat (b :: rest))

/-- `atoi`, the value of `strtol` as an `int`. -/
def atoi (text : List UInt8) : ℤ := wrapInt (strtol text)

/-! ## Texts and their parts -/

/-- The tokens of a text: the parts between delimiters that are not empty. -/
def tokens (delims : List UInt8) (text : List UInt8) : List (List UInt8) :=
  (text.splitOnP fun b => b ∈ delims).filter (· ≠ [])

section

variable {delims text front back : List UInt8} {sep b : UInt8}

/-- The tokens on either side of a delimiter. -/
theorem tokens_append_cons (hb : b ∈ delims) :
    tokens delims (front ++ b :: back) = tokens delims front ++ tokens delims back := by
  unfold tokens
  rw [List.splitOnP_append_cons front back (by simpa using hb), List.filter_append]

/-- A text without delimiters is its only token. -/
theorem tokens_of_notMem (hne : text ≠ []) (h : ∀ b ∈ text, b ∉ delims) :
    tokens delims text = [text] := by
  unfold tokens
  rw [List.splitOnP_eq_singleton (by simpa using h)]
  simp [hne]

/-- Delimiters in front of a text add no token. -/
theorem tokens_dropWhile (delims text : List UInt8) :
    tokens delims (text.dropWhile fun b => b ∈ delims) = tokens delims text := by
  induction text with
  | nil => rfl
  | cons b text ih =>
    by_cases hb : b ∈ delims
    · have hsplit : tokens delims ([] ++ b :: text) = tokens delims [] ++ tokens delims text :=
        tokens_append_cons hb
      rw [List.dropWhile_cons_of_pos (by simpa using hb), ih]
      exact hsplit.symm
    · rw [List.dropWhile_cons_of_neg (by simpa using hb)]

/-- `strtok` takes the first token of a text and leaves the others. -/
theorem tokens_eq_strtok (delims text : List UInt8) :
    tokens delims text =
      match strtok delims text with
      | none => []
      | some (token, rest) => token :: tokens delims rest := by
  rw [← tokens_dropWhile, strtok]
  generalize hstart : (text.dropWhile fun b => decide (b ∈ delims)) = start
  by_cases hnil : start = []
  · subst hnil
    rfl
  · simp only [hnil, if_false]
    obtain ⟨b, start, rfl⟩ := List.exists_cons_of_ne_nil hnil
    have hb : b ∉ delims := by
      have hfirst := List.head?_dropWhile_not (fun b => decide (b ∈ delims)) text
      rw [hstart] at hfirst
      simpa using hfirst
    have htoken : ∀ x ∈ (b :: start).takeWhile (fun b => decide (b ∉ delims)), x ∉ delims := by
      intro x hx
      simpa using List.mem_takeWhile_imp hx
    have hne : (b :: start).takeWhile (fun b => decide (b ∉ delims)) ≠ [] := by
      simp [hb]
    cases hrest : (b :: start).dropWhile fun b => decide (b ∉ delims) with
    | nil =>
      have hwhole := List.takeWhile_append_dropWhile (p := fun b => decide (b ∉ delims))
        (l := b :: start)
      rw [hrest, List.append_nil] at hwhole
      rw [hwhole] at htoken ⊢
      rw [tokens_of_notMem hnil htoken]
      rfl
    | cons d rest =>
      have hd : d ∈ delims := by
        have hfirst := List.head?_dropWhile_not (fun b => decide (b ∉ delims)) (b :: start)
        rw [hrest] at hfirst
        simpa using hfirst
      have hwhole := List.takeWhile_append_dropWhile (p := fun b => decide (b ∉ delims))
        (l := b :: start)
      rw [hrest] at hwhole
      calc tokens delims (b :: start)
          = tokens delims ((b :: start).takeWhile (fun b => decide (b ∉ delims)) ++ d :: rest) := by
            rw [hwhole]
        _ = _ := by
            rw [tokens_append_cons hd, tokens_of_notMem hne htoken]
            rfl

/-- The pieces of a text in which a delimiter has been read. -/
theorem piecesFrom_append_cons (piece : List UInt8) :
    piecesFrom sep piece (front ++ sep :: back) =
      piecesFrom sep piece (front ++ [sep]) ++ pieces sep back := by
  induction front generalizing piece with
  | nil => simp [piecesFrom, pieces]
  | cons b front ih =>
    rw [List.cons_append, List.cons_append, piecesFrom, piecesFrom]
    split
    · rw [ih, List.cons_append]
    · rw [ih]

/-- The pieces of lines that are each ended by a delimiter. -/
theorem pieces_flatMap (sep : UInt8) (lines : List (List UInt8)) :
    pieces sep (lines.flatMap fun line => line ++ [sep]) =
      lines.flatMap fun line => pieces sep (line ++ [sep]) := by
  induction lines with
  | nil => rfl
  | cons line lines ih =>
    rw [List.flatMap_cons, List.flatMap_cons, ← ih, List.append_assoc, List.singleton_append]
    exact piecesFrom_append_cons []

/-- The parts between delimiters are the pieces, and an empty part behind the last
delimiter of a text that ends with one. -/
theorem splitOn_eq_pieces (sep : UInt8) (text : List UInt8) :
    text.splitOn sep = pieces sep text ∨ text.splitOn sep = pieces sep text ++ [[]] := by
  have hid : ∀ parts : List (List UInt8), parts.modifyHead ([] ++ ·) = parts := by
    rintro (_ | ⟨part, parts⟩)
    · rfl
    · rfl
  suffices hfrom : ∀ piece,
      (text.splitOn sep).modifyHead (piece ++ ·) = piecesFrom sep piece text ∨
      (text.splitOn sep).modifyHead (piece ++ ·) = piecesFrom sep piece text ++ [[]] by
    have hstart := hfrom []
    rwa [hid] at hstart
  induction text with
  | nil =>
    intro piece
    by_cases hpiece : piece = []
    · exact .inr (by simp [piecesFrom, hpiece])
    · exact .inl (by simp [piecesFrom, hpiece])
  | cons b text ih =>
    intro piece
    rw [List.splitOn_cons_eq_if_modifyHead, piecesFrom]
    by_cases hb : b = sep
    · have hrest := ih []
      rw [hid] at hrest
      simpa [hb] using hrest
    · have hrest := ih (piece ++ [b])
      simpa [hb, List.modifyHead_modifyHead, Function.comp_def] using hrest

/-- A rule that takes nothing from an empty part takes the same from the pieces as
from the parts between delimiters. -/
theorem filterMap_pieces {β : Type} {f : List UInt8 → Option β} (hempty : f [] = none)
    (sep : UInt8) (text : List UInt8) :
    (pieces sep text).filterMap f = (text.splitOn sep).filterMap f := by
  rcases splitOn_eq_pieces sep text with heq | heq
  · rw [heq]
  · rw [heq, List.filterMap_append]
    simp [hempty]

/-- A part between delimiters has only bytes of the text. -/
theorem mem_of_mem_splitOn {part : List UInt8} (hpart : part ∈ text.splitOn sep) (hb : b ∈ part) :
    b ∈ text := by
  induction text generalizing part with
  | nil => simp_all
  | cons c text ih =>
    obtain ⟨first, others, hsplit⟩ := List.exists_cons_of_ne_nil (List.splitOn_ne_nil sep text)
    rw [List.splitOn_cons_eq_if_modifyHead, hsplit] at hpart
    rw [hsplit] at ih
    by_cases hc : c = sep
    · simp only [hc, beq_self_eq_true, if_true, List.mem_cons] at hpart
      rcases hpart with rfl | hpart
      · simp at hb
      · exact List.mem_cons_of_mem _ (ih (List.mem_cons.mpr hpart) hb)
    · simp only [beq_iff_eq, hc, if_false, List.modifyHead_cons, List.mem_cons] at hpart
      rcases hpart with rfl | hpart
      · rcases List.mem_cons.mp hb with rfl | hb
        · exact List.mem_cons_self
        · exact List.mem_cons_of_mem _ (ih List.mem_cons_self hb)
      · exact List.mem_cons_of_mem _ (ih (List.mem_cons_of_mem _ hpart) hb)

end

/-! ## Numerals -/

/-- A text of digits is read whole. -/
theorem leadingNat_of_isDigit {text : List UInt8} (h : ∀ b ∈ text, isDigit b) :
    leadingNat text = Decimal.parseNat text := by
  rw [leadingNat, List.takeWhile_eq_self_iff.mpr h]
  rfl

/-- `atoi` recovers a printed number that fits into an `int`. -/
theorem atoi_printNat {n : ℕ} (hint : n < 2 ^ 31) : atoi (Decimal.printNat n) = n := by
  have hdigits : ∀ b ∈ Decimal.printNat n, isDigit b := by
    intro b hb
    simpa [isDigit] using Decimal.digit_of_mem_printNat hb
  have hvalue : leadingNat (Decimal.printNat n) = n := by
    rw [leadingNat_of_isDigit hdigits, Decimal.parseNat_printNat]
  obtain ⟨b, text, heq⟩ := List.exists_cons_of_ne_nil (Decimal.printNat_ne_nil n)
  have hdigit : 48 ≤ b ∧ b ≤ 57 := Decimal.digit_of_mem_printNat (n := n) (by simp [heq])
  have hspace : ¬ isSpace b := by
    simp only [isSpace, Bool.or_eq_true, Bool.and_eq_true, decide_eq_true_eq]
    rintro (rfl | ⟨-, hhigh⟩)
    · exact absurd hdigit.1 (by decide)
    · have hdigits : (48 : UInt8) ≤ 13 := UInt8.le_trans hdigit.1 hhigh
      exact absurd hdigits (by decide)
  have hminus : b ≠ 45 := by
    rintro rfl
    exact absurd hdigit.1 (by decide)
  have hplus : b ≠ 43 := by
    rintro rfl
    exact absurd hdigit.1 (by decide)
  have hlong : strtol (Decimal.printNat n) = n := by
    rw [heq] at hvalue ⊢
    rw [strtol, List.dropWhile_cons_of_neg (by simp [hspace])]
    simp only [hminus, hplus, if_false, hvalue]
    omega
  rw [atoi, hlong]
  exact wrapInt_eq_self (by omega) (by omega)

end Text
