import ThriftProxy.VarMempool

/-!
# Sizes and look-ups of the variable-size pool

Which sizes the rounding of `var_mempool_alloc` changes, when the chunks of a
sub-pool have the size they should have, and what the table finds after it has
been changed.
-/

namespace ThriftProxy

open Machine WordMemory

/-! ## Rounding -/

/-- The size looked up is an `unsigned int` too. -/
theorem varItemSize_lt {n : ℕ} (h : n < 2 ^ 32) : varItemSize n < 2 ^ 32 := by
  unfold varItemSize wordSize
  split <;> omega

/-- The size looked up is not zero. -/
theorem varItemSize_pos {n : ℕ} (h : 1 ≤ n) : 1 ≤ varItemSize n := by
  unfold varItemSize wordSize
  split <;> omega

/-- The rounding keeps the multiples of the word size and the sizes below it. -/
theorem varItemSize_eq_self_iff {n : ℕ} (h : n < 2 ^ 32) :
    varItemSize n = n ↔ n % wordSize = 0 ∨ n < wordSize := by
  unfold varItemSize wordSize
  split <;> omega

/-- The items of the sub-pool are large enough unless the rounding has wrapped. -/
theorem le_itemSize_iff {n : ℕ} (h : n < 2 ^ 32) :
    n ≤ mempoolItemSize (varItemSize n) ↔ n % wordSize = 0 ∨ n < 2 ^ 31 := by
  unfold mempoolItemSize roundUp varItemSize wordSize
  split <;> split <;> omega

/-- The items of a sub-pool are not larger than a request can make them. -/
theorem mempoolItemSize_le {n : ℕ} (h : n < 2 ^ 32) : mempoolItemSize n ≤ 2 ^ 32 := by
  unfold mempoolItemSize roundUp wordSize
  split <;> omega

/-- Items have room for a word. -/
theorem wordSize_le_mempoolItemSize (n : ℕ) : wordSize ≤ mempoolItemSize n :=
  (le_max_right n wordSize).trans (le_roundUp _ (by decide))

/-! ## Chunk sizes -/

/-- A size is rounded up to the next multiple. -/
theorem roundUp_le {size unit bound : ℕ} (hdvd : unit ∣ bound) (hle : size ≤ bound) :
    roundUp size unit ≤ bound := by
  obtain ⟨k, rfl⟩ := hdvd
  have hsplit := Nat.div_add_mod size unit
  unfold roundUp
  split
  · rename_i hmod
    have hlt : size / unit < k := by
      by_contra hge
      have := Nat.mul_le_mul_left unit (Nat.le_of_not_lt hge)
      omega
    have := Nat.mul_le_mul_left unit (Nat.succ_le_of_lt hlt)
    rw [Nat.mul_succ] at this
    omega
  · exact hle

namespace PageSize

variable {pagesize : ℕ}

/-- A page size is a power of two no larger than `2 ^ 30`. -/
theorem dvd (h : PageSize pagesize) : pagesize ∣ 2 ^ 30 := by
  obtain ⟨k, -, hk, rfl⟩ := h
  exact Nat.pow_dvd_pow 2 hk

/-- A page holds some words. -/
theorem le (h : PageSize pagesize) : 16 ≤ pagesize := by
  obtain ⟨k, hk, -, rfl⟩ := h
  exact Nat.pow_le_pow_right (n := 2) (by decide) hk

end PageSize

/-- The size of a chunk before it is rounded up to whole pages. -/
def chunkLeast (pagesize itemSize : ℕ) (multiple : ℤ) : ℕ :=
  max (max (mempoolItemSize itemSize * defaultAllocSize + wordSize) (sizeOfInt multiple))
    (defaultAllocSize * pagesize)

/-- The chunk size rounds up the largest of the three sizes asked for. -/
theorem mempoolAllocSize_eq (pagesize itemSize : ℕ) (multiple : ℤ) :
    mempoolAllocSize pagesize (mempoolItemSize itemSize) (sizeOfInt multiple) =
      roundUp (chunkLeast pagesize itemSize multiple) pagesize := by
  unfold mempoolAllocSize chunkLeast
  simp only
  congr 1
  split <;> split <;> omega

/-- The value of an `int` as a `size_t`. -/
theorem sizeOfInt_wrapInt {multiple : ℕ} (h : multiple < 2 ^ 32) :
    sizeOfInt (wrapInt multiple) =
      if multiple < 2 ^ 31 then multiple else 2 ^ 64 - 2 ^ 32 + multiple := by
  unfold sizeOfInt wrapInt
  split
  · rw [Int.bmod_eq_of_le (by omega) (by omega)]
    omega
  · have hneg : (multiple : ℤ).bmod (2 ^ 32) = multiple - 2 ^ 32 := by
      rw [← Int.sub_bmod_right, Int.bmod_eq_of_le (by omega) (by omega)]
      rfl
    rw [hneg]
    omega

section

variable {pagesize itemSize : ℕ}

/-- Rounding up yields a whole number of pages. -/
theorem PageSize.dvd_sub_roundUp (hpage : PageSize pagesize) (size : ℕ) :
    pagesize ∣ 2 ^ 64 - roundUp size pagesize :=
  Nat.dvd_sub (hpage.dvd.trans (by decide)) (MempoolState.dvd_roundUp _ _)

/-- The size of a chunk does not exceed the address space before it is reduced. -/
theorem roundUp_chunkLeast_le (multiple : ℤ) (hpage : PageSize pagesize)
    (hitem : itemSize < 2 ^ 32) :
    roundUp (chunkLeast pagesize itemSize multiple) pagesize ≤ 2 ^ 64 := by
  have hdvd : pagesize ∣ 2 ^ 64 := hpage.dvd.trans (by decide)
  have hle := Nat.le_of_dvd (by decide) hpage.dvd
  have hsize := mempoolItemSize_le hitem
  have hmultiple : sizeOfInt multiple < 2 ^ 64 := by
    unfold sizeOfInt
    omega
  refine roundUp_le hdvd ?_
  unfold chunkLeast defaultAllocSize wordSize
  omega

/-- A chunk has the size it should have unless `multiple` makes rounding up to
whole pages leave the range of `size_t`; then its size is zero. -/
theorem subAllocSize_eq {multiple : ℕ} (hpage : PageSize pagesize) (hitem : itemSize < 2 ^ 32)
    (hmultiple : multiple < 2 ^ 32) :
    subAllocSize pagesize itemSize (wrapInt multiple) =
      if multiple + pagesize ≤ 2 ^ 32 then
        roundUp (chunkLeast pagesize itemSize (wrapInt multiple)) pagesize
      else 0 := by
  have hdvd : pagesize ∣ 2 ^ 64 := hpage.dvd.trans (by decide)
  have hpageLe := Nat.le_of_dvd (by decide) hpage.dvd
  have hpageGe := hpage.le
  have hsize := mempoolItemSize_le hitem
  have hint := sizeOfInt_wrapInt hmultiple
  have hbound := roundUp_chunkLeast_le (wrapInt multiple) hpage hitem
  rw [subAllocSize, mempoolAllocSize_eq]
  split
  · rename_i hfits
    apply Nat.mod_eq_of_lt
    have hleast : chunkLeast pagesize itemSize (wrapInt multiple) ≤ 2 ^ 64 - pagesize := by
      unfold chunkLeast defaultAllocSize wordSize
      rw [hint]
      split <;> omega
    have := roundUp_le (Nat.dvd_sub hdvd (dvd_refl pagesize)) hleast
    omega
  · rename_i hwraps
    have hleast : 2 ^ 64 - pagesize < chunkLeast pagesize itemSize (wrapInt multiple) := by
      have hle : sizeOfInt (wrapInt multiple) ≤
          chunkLeast pagesize itemSize (wrapInt multiple) :=
        (le_max_right _ _).trans (le_max_left _ _)
      rw [hint, if_neg (by omega)] at hle
      omega
    have hround := le_roundUp (chunkLeast pagesize itemSize (wrapInt multiple))
      (show 0 < pagesize by omega)
    have hrest := Nat.eq_zero_of_dvd_of_lt (hpage.dvd_sub_roundUp
      (chunkLeast pagesize itemSize (wrapInt multiple))) (by omega)
    have heq : roundUp (chunkLeast pagesize itemSize (wrapInt multiple)) pagesize = 2 ^ 64 := by
      omega
    rw [heq, Nat.mod_self]

/-- A chunk of a hundred items holds an item, also when its size has wrapped. -/
theorem totalAllocItem_pos {item alloc : ℕ} (hword : wordSize ≤ item) (hitem : item ≤ 2 ^ 32)
    (hle : item * defaultAllocSize + wordSize ≤ alloc) (hbound : alloc ≤ 2 ^ 64) :
    0 < (alloc % 2 ^ 64 + 2 ^ 64 - wordSize) % 2 ^ 64 / item := by
  unfold defaultAllocSize wordSize at *
  apply Nat.div_pos _ (by omega)
  rcases Nat.lt_or_ge alloc (2 ^ 64) with hlt | hge
  · have hsplit : alloc + 2 ^ 64 - 8 = alloc - 8 + 2 ^ 64 := by omega
    rw [Nat.mod_eq_of_lt hlt, hsplit, Nat.add_mod_right, Nat.mod_eq_of_lt (by omega)]
    omega
  · have heq : alloc = 2 ^ 64 := by omega
    have hwrapped : (2 ^ 64 % 2 ^ 64 + 2 ^ 64 - 8) % 2 ^ 64 = 2 ^ 64 - 8 := by decide
    rw [heq, hwrapped]
    omega

/-- A new sub-pool has items to carve, whatever its chunk. -/
theorem subMempoolCreate_not_callsMalloc {M : Type} [WordMemory M] (multiple : ℤ) (chunk : ℕ)
    (m : M) (hpage : PageSize pagesize) (hitem : itemSize < 2 ^ 32) :
    ¬ (subMempoolCreate pagesize itemSize multiple chunk m).1.CallsMalloc := by
  have hround := le_roundUp (chunkLeast pagesize itemSize multiple)
    (show 0 < pagesize by have := hpage.le; omega)
  have hleast : mempoolItemSize itemSize * defaultAllocSize + wordSize ≤
      chunkLeast pagesize itemSize multiple := by
    unfold chunkLeast
    omega
  have hpos := totalAllocItem_pos (wordSize_le_mempoolItemSize itemSize)
    (mempoolItemSize_le hitem) (hleast.trans hround) (roundUp_chunkLeast_le multiple hpage hitem)
  rw [← mempoolAllocSize_eq] at hpos
  exact fun hcalls => absurd hcalls.2 (Nat.ne_of_lt hpos)

/-- Within the range, a new sub-pool is what `mempool_create` makes of the sizes. -/
theorem subMempoolCreate_eq {M : Type} [WordMemory M] {multiple chunk : ℕ} {m : M}
    (hpage : PageSize pagesize) (hitem : itemSize < 2 ^ 32) (hfits : multiple + pagesize ≤ 2 ^ 32) :
    subMempoolCreate pagesize itemSize (wrapInt multiple) chunk m =
      mempoolCreate pagesize itemSize (sizeOfInt (wrapInt multiple)) chunk m := by
  have hpos := hpage.le
  have halloc : subAllocSize pagesize itemSize (wrapInt multiple) =
      mempoolAllocSize pagesize (mempoolItemSize itemSize) (sizeOfInt (wrapInt multiple)) := by
    rw [subAllocSize_eq hpage hitem (by omega), if_pos hfits, mempoolAllocSize_eq]
  have hlt : mempoolAllocSize pagesize (mempoolItemSize itemSize) (sizeOfInt (wrapInt multiple)) <
      2 ^ 64 := by
    rw [← halloc]
    exact Nat.mod_lt _ (by decide)
  have hle := le_mempoolAllocSize (show 0 < pagesize by omega) (mempoolItemSize itemSize)
    (sizeOfInt (wrapInt multiple))
  have htotal : (mempoolAllocSize pagesize (mempoolItemSize itemSize)
      (sizeOfInt (wrapInt multiple)) + 2 ^ 64 - wordSize) % 2 ^ 64 =
      mempoolAllocSize pagesize (mempoolItemSize itemSize) (sizeOfInt (wrapInt multiple)) -
        wordSize := by
    have hsplit : mempoolAllocSize pagesize (mempoolItemSize itemSize)
        (sizeOfInt (wrapInt multiple)) + 2 ^ 64 - wordSize =
        mempoolAllocSize pagesize (mempoolItemSize itemSize) (sizeOfInt (wrapInt multiple)) -
          wordSize + 2 ^ 64 := by omega
    rw [hsplit, Nat.add_mod_right, Nat.mod_eq_of_lt (by omega)]
  simp only [subMempoolCreate, mempoolCreate, halloc, htotal]

end

/-! ## Look-ups -/

namespace VarMempool

/-- The sub-pool registered under a size. -/
def lookup (v : VarMempool) (itemSize : ℕ) : Option Mempool :=
  match v.mempoolTable (v.slot itemSize) with
  | .nodes entries =>
    (entries.find? fun entry => entry.itemSize == itemSize).map VarEntry.pool
  | _ => none

/-- A table without freed list heads. -/
def Tidy (v : VarMempool) : Prop := ∀ i, v.mempoolTable i ≠ .dangling

/-- The node of a size behind its replacement. -/
theorem find_replaceFirst_self {itemSize : ℕ} {pool : Mempool} {entries : List VarEntry}
    (h : (entries.find? fun entry => entry.itemSize == itemSize).isSome) :
    ((replaceFirst itemSize pool entries).find? fun entry => entry.itemSize == itemSize) =
      some ⟨itemSize, pool⟩ := by
  induction entries with
  | nil => simp at h
  | cons entry entries ih =>
    unfold replaceFirst
    by_cases heq : entry.itemSize = itemSize
    · simp [heq]
    · simp only [beq_eq_false_iff_ne.mpr heq, List.find?_cons_of_neg, Bool.false_eq_true,
        not_false_eq_true, if_false] at h ⊢
      exact ih h

/-- The nodes of the other sizes are left alone. -/
theorem find_replaceFirst_of_ne {itemSize other : ℕ} {pool : Mempool} {entries : List VarEntry}
    (h : other ≠ itemSize) :
    ((replaceFirst itemSize pool entries).find? fun entry => entry.itemSize == other) =
      entries.find? fun entry => entry.itemSize == other := by
  induction entries with
  | nil => rfl
  | cons entry entries ih =>
    unfold replaceFirst
    by_cases heq : entry.itemSize = itemSize
    · have hother : ¬ itemSize = other := fun hsame => h hsame.symm
      simp [heq, hother]
    · simp only [beq_eq_false_iff_ne.mpr heq, Bool.false_eq_true, if_false, List.find?_cons, ih]

/-- In a tidy table `var_mempool_get` finds the sub-pool registered under a size. -/
theorem Tidy.get_eq {v : VarMempool} (h : v.Tidy) {itemSize : ℕ} (hpos : 1 ≤ itemSize) :
    v.get itemSize = .ok (v.lookup itemSize) := by
  have hne : ¬ itemSize = 0 := by omega
  unfold get lookup
  rw [if_neg hne]
  cases hslot : v.mempoolTable (v.slot itemSize) with
  | null => rfl
  | dangling => exact absurd hslot (h _)
  | nodes entries => rfl

/-- Replacing a slot by one that is not dangling keeps the table tidy. -/
theorem Tidy.setSlot {v : VarMempool} (h : v.Tidy) {i : ℕ} {b : VarBucket} (hb : b ≠ .dangling) :
    (v.setSlot i b).Tidy := by
  intro j
  unfold VarMempool.setSlot
  by_cases hj : j = i
  · simpa [hj] using hb
  · simpa [Function.update_of_ne hj] using h j

/-- Only sizes of a slot are looked up in it. -/
theorem lookup_setSlot_of_ne {v : VarMempool} {i itemSize : ℕ} {b : VarBucket}
    (h : v.slot itemSize ≠ i) : (v.setSlot i b).lookup itemSize = v.lookup itemSize := by
  unfold lookup setSlot slot at *
  simp only [Function.update_of_ne h]

/-- The slot that was replaced is looked up. -/
theorem lookup_setSlot_self {v : VarMempool} {itemSize : ℕ} {entries : List VarEntry} :
    (v.setSlot (v.slot itemSize) (.nodes entries)).lookup itemSize =
      (entries.find? fun entry => entry.itemSize == itemSize).map VarEntry.pool := by
  unfold lookup setSlot slot
  simp

/-- A tidy table with the record of one sub-pool changed. -/
theorem Tidy.update {v : VarMempool} (h : v.Tidy) {itemSize : ℕ} (pool : Mempool)
    (hsome : (v.lookup itemSize).isSome) :
    (v.update itemSize pool).Tidy ∧ (v.update itemSize pool).multiple = v.multiple ∧
      (v.update itemSize pool).lookup itemSize = some pool ∧
      ∀ other, other ≠ itemSize → (v.update itemSize pool).lookup other = v.lookup other := by
  cases hslot : v.mempoolTable (v.slot itemSize) with
  | null => simp [lookup, hslot] at hsome
  | dangling => exact absurd hslot (h _)
  | nodes entries =>
    have hfound : (entries.find? fun entry => entry.itemSize == itemSize).isSome := by
      simpa [lookup, hslot] using hsome
    have heq : v.update itemSize pool =
        v.setSlot (v.slot itemSize) (.nodes (replaceFirst itemSize pool entries)) := by
      simp only [VarMempool.update, hslot]
    rw [heq]
    refine ⟨h.setSlot (by simp), rfl, ?_, ?_⟩
    · rw [lookup_setSlot_self, find_replaceFirst_self hfound]
      rfl
    · intro other hother
      by_cases hsame : v.slot other = v.slot itemSize
      · rw [← hsame, lookup_setSlot_self, find_replaceFirst_of_ne hother]
        simp only [lookup, hsame, hslot]
      · exact lookup_setSlot_of_ne hsame

/-- An entry in front of those of its slot is found under its size, and the others are
found as before. -/
theorem lookup_setSlot_cons {v : VarMempool} (entry : VarEntry) {entries : List VarEntry}
    (hslot : ∀ other, v.slot other = v.slot entry.itemSize →
      v.lookup other = (entries.find? fun e => e.itemSize == other).map VarEntry.pool) :
    (v.setSlot (v.slot entry.itemSize) (.nodes (entry :: entries))).lookup entry.itemSize =
        some entry.pool ∧
      ∀ other, other ≠ entry.itemSize →
        (v.setSlot (v.slot entry.itemSize) (.nodes (entry :: entries))).lookup other =
          v.lookup other := by
  constructor
  · rw [lookup_setSlot_self, List.find?_cons, beq_self_eq_true]
    rfl
  · intro other hother
    by_cases hsame : v.slot other = v.slot entry.itemSize
    · rw [← hsame, lookup_setSlot_self, List.find?_cons, beq_false_of_ne hother.symm,
        hslot other hsame]
    · exact lookup_setSlot_of_ne hsame

/-- A sub-pool for a size that has none is registered under it. -/
theorem Tidy.put {v : VarMempool} (h : v.Tidy) {itemSize : ℕ} (pool : Mempool)
    (hnone : v.lookup itemSize = none) :
    ∃ v', v.put itemSize pool true true = .ok v' ∧ v'.Tidy ∧ v'.multiple = v.multiple ∧
      v'.lookup itemSize = some pool ∧
      ∀ other, other ≠ itemSize → v'.lookup other = v.lookup other := by
  cases hslot : v.mempoolTable (v.slot itemSize) with
  | dangling => exact absurd hslot (h _)
  | null =>
    have hempty : ∀ other, v.slot other = v.slot itemSize →
        v.lookup other =
          (([] : List VarEntry).find? fun e => e.itemSize == other).map VarEntry.pool := by
      intro other hsame
      simp only [lookup, hsame, hslot]
      rfl
    exact ⟨_, by simp only [VarMempool.put, varMempoolPut, hslot]; rfl, h.setSlot (by simp), rfl,
      lookup_setSlot_cons ⟨itemSize, pool⟩ hempty⟩
  | nodes entries =>
    have hany : (entries.any fun entry => entry.itemSize == itemSize) = false := by
      rw [List.any_eq_false]
      simpa [lookup, hslot] using hnone
    have hentries : ∀ other, v.slot other = v.slot itemSize →
        v.lookup other = (entries.find? fun e => e.itemSize == other).map VarEntry.pool := by
      intro other hsame
      simp only [lookup, hsame, hslot]
    exact ⟨_, by simp only [VarMempool.put, varMempoolPut, hslot, hany]; rfl,
      h.setSlot (by simp), rfl, lookup_setSlot_cons ⟨itemSize, pool⟩ hentries⟩

end VarMempool

end ThriftProxy
