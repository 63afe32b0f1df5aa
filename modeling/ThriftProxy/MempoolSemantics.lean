import ThriftProxy.Mempool
import Mathlib.Data.List.Pairwise
import Mathlib.Data.List.Flatten

/-!
# The items of a memory pool

The invariant of a pool in terms of its chunks, its free items and its live
items: the first two are chained through memory, and the items together are
exactly those carved out of the chunks so far. It is kept by allocation, by
freeing a live item and by a holder that writes to the first word of its item.
-/

namespace ThriftProxy

open Machine WordMemory

namespace Mempool

variable {M : Type} [WordMemory M]

/-- The sizes of a pool fit together. -/
structure WellSized (pool : Mempool) : Prop where
  /-- An item has room for a link. -/
  word_le : wordSize ≤ pool.itemSize
  /-- The items fit into a chunk behind its link. -/
  items_le : wordSize + pool.itemSize * pool.totalAllocItem ≤ pool.allocSize
  /-- A chunk has room for an item. -/
  item_pos : 0 < pool.totalAllocItem

/-- The items carved out of the chunks: the current one up to `alloc_pool_pos`
and the older ones completely. -/
def carved (pool : Mempool) (older : List ℕ) : List ℕ :=
  (List.range pool.allocPoolPos).map (pool.itemAt pool.allocPtr) ++
    older.flatMap fun chunk => (List.range pool.totalAllocItem).map (pool.itemAt chunk)

/-- A block that `malloc` may return: it lies inside the address space and apart
from the chunks of the pool. -/
def Fresh (pool : Mempool) (m : M) (chunk : ℕ) : Prop :=
  chunk ≠ 0 ∧ chunk + pool.allocSize ≤ 2 ^ 64 ∧
    ∀ chunks, Chain m pool.allocPtr chunks → ∀ other ∈ chunks, Apart pool.allocSize chunk other

/-- The pool has these older chunks, free items and live items. -/
structure Holds (pool : Mempool) (m : M) (older free live : List ℕ) : Prop where
  /-- The sizes of the pool fit together. -/
  sized : pool.WellSized
  /-- The chunks are chained from the current one on. -/
  chunk_chain : Chain m pool.allocPtr (pool.allocPtr :: older)
  /-- The chunks lie inside the address space. -/
  chunk_le : ∀ chunk ∈ pool.allocPtr :: older, chunk + pool.allocSize ≤ 2 ^ 64
  /-- The chunks lie apart. -/
  chunk_apart : (pool.allocPtr :: older).Pairwise (Apart pool.allocSize)
  /-- No more items are carved than a chunk holds. -/
  pos_le : pool.allocPoolPos ≤ pool.totalAllocItem
  /-- The free items are chained. -/
  free_chain : Chain m pool.reusePtr free
  /-- Every carved item is free or live, and only once. -/
  items : (free ++ live).Perm (pool.carved older)
  /-- The live items are counted. -/
  count : pool.refCount = wrapInt live.length

variable {pool : Mempool} {m : M} {older free live live' : List ℕ}

/-- Where a carved item lies. -/
theorem mem_carved (hpos : pool.allocPoolPos ≤ pool.totalAllocItem) {a : ℕ}
    (h : a ∈ pool.carved older) :
    ∃ chunk ∈ pool.allocPtr :: older, ∃ pos < pool.totalAllocItem, a = pool.itemAt chunk pos := by
  rcases List.mem_append.mp h with h | h
  · obtain ⟨pos, hrange, rfl⟩ := List.mem_map.mp h
    have := List.mem_range.mp hrange
    exact ⟨_, by simp, pos, by omega, rfl⟩
  · obtain ⟨chunk, hchunk, h⟩ := List.mem_flatMap.mp h
    obtain ⟨pos, hrange, rfl⟩ := List.mem_map.mp h
    exact ⟨chunk, by simp [hchunk], pos, List.mem_range.mp hrange, rfl⟩

/-- An item ends inside its chunk. -/
theorem WellSized.itemAt_le (h : pool.WellSized) (chunk : ℕ) {pos : ℕ}
    (hpos : pos < pool.totalAllocItem) :
    pool.itemAt chunk pos + pool.itemSize ≤ chunk + pool.allocSize := by
  have hitems := h.items_le
  have hmul : pool.itemSize * (pos + 1) ≤ pool.itemSize * pool.totalAllocItem :=
    Nat.mul_le_mul_left _ hpos
  rw [Nat.mul_add, Nat.mul_one] at hmul
  unfold itemAt
  omega

/-- The items of one chunk lie apart. -/
theorem itemAt_apart (pool : Mempool) (chunk : ℕ) {pos pos' : ℕ} (h : pos < pos') :
    Apart pool.itemSize (pool.itemAt chunk pos) (pool.itemAt chunk pos') := by
  left
  have hmul : pool.itemSize * (pos + 1) ≤ pool.itemSize * pos' := Nat.mul_le_mul_left _ h
  rw [Nat.mul_add, Nat.mul_one] at hmul
  unfold itemAt
  omega

/-- Items of chunks that lie apart lie apart. -/
theorem WellSized.itemAt_apart_of_apart (h : pool.WellSized) {chunk chunk' pos pos' : ℕ}
    (hapart : Apart pool.allocSize chunk chunk') (hpos : pos < pool.totalAllocItem)
    (hpos' : pos' < pool.totalAllocItem) :
    Apart pool.itemSize (pool.itemAt chunk pos) (pool.itemAt chunk' pos') := by
  have hle := h.itemAt_le chunk hpos
  have hle' := h.itemAt_le chunk' hpos'
  have hstart : chunk ≤ pool.itemAt chunk pos := by unfold itemAt; omega
  have hstart' : chunk' ≤ pool.itemAt chunk' pos' := by unfold itemAt; omega
  unfold Apart at *
  omega

/-- The first words of an item and of a chunk lie apart when the chunk is the
item's own or lies apart from it. -/
theorem WellSized.itemAt_apart_chunk (h : pool.WellSized) {chunk chunk' pos : ℕ}
    (hapart : chunk = chunk' ∨ Apart pool.allocSize chunk chunk')
    (hpos : pos < pool.totalAllocItem) : Apart 8 (pool.itemAt chunk pos) chunk' := by
  have hle := h.itemAt_le chunk hpos
  have hstart : chunk + wordSize ≤ pool.itemAt chunk pos := by unfold itemAt; omega
  have hword := h.word_le
  have hitems := h.items_le
  unfold wordSize at *
  rcases hapart with rfl | hapart
  · right
    omega
  · unfold Apart at *
    omega

namespace Holds

/-- The order of the live items does not matter. -/
theorem perm (h : pool.Holds m older free live) (hperm : live.Perm live') :
    pool.Holds m older free live' :=
  { h with
    items := (List.Perm.append_left free hperm).symm.trans h.items
    count := by rw [h.count, hperm.length_eq] }

/-- The items of a pool lie apart. -/
theorem apart (h : pool.Holds m older free live) :
    (free ++ live).Pairwise (Apart pool.itemSize) := by
  have hchunks := List.pairwise_cons.mp h.chunk_apart
  have hcarved : (pool.carved older).Pairwise (Apart pool.itemSize) := by
    unfold carved
    rw [List.pairwise_append]
    refine ⟨?_, ?_, ?_⟩
    · rw [List.pairwise_map]
      exact List.pairwise_lt_range.imp fun hlt => itemAt_apart pool _ hlt
    · rw [List.pairwise_flatMap]
      refine ⟨?_, ?_⟩
      · intro chunk _
        rw [List.pairwise_map]
        exact List.pairwise_lt_range.imp fun hlt => itemAt_apart pool _ hlt
      · apply hchunks.2.imp
        intro chunk chunk' hapart a ha b hb
        obtain ⟨pos, hpos, rfl⟩ := List.mem_map.mp ha
        obtain ⟨pos', hpos', rfl⟩ := List.mem_map.mp hb
        exact h.sized.itemAt_apart_of_apart hapart (List.mem_range.mp hpos)
          (List.mem_range.mp hpos')
    · intro a ha b hb
      obtain ⟨pos, hpos, rfl⟩ := List.mem_map.mp ha
      obtain ⟨chunk, hchunk, hb⟩ := List.mem_flatMap.mp hb
      obtain ⟨pos', hpos', rfl⟩ := List.mem_map.mp hb
      have hle := h.pos_le
      have hlt := List.mem_range.mp hpos
      exact h.sized.itemAt_apart_of_apart (hchunks.1 chunk hchunk) (by omega)
        (List.mem_range.mp hpos')
  exact (h.items.pairwise_iff fun hab => hab.symm).mpr hcarved

/-- No item is counted twice. -/
theorem nodup (h : pool.Holds m older free live) : (free ++ live).Nodup := by
  have hword := h.sized.word_le
  exact h.apart.imp fun hab => hab.ne (by unfold wordSize at hword; omega)

/-- Where a free or live item lies. -/
theorem location (h : pool.Holds m older free live) {a : ℕ} (ha : a ∈ free ++ live) :
    ∃ chunk ∈ pool.allocPtr :: older, ∃ pos < pool.totalAllocItem, a = pool.itemAt chunk pos :=
  mem_carved h.pos_le (h.items.mem_iff.mp ha)

/-- An item is no null pointer and ends inside the address space. -/
theorem item_bounds (h : pool.Holds m older free live) {a : ℕ} (ha : a ∈ free ++ live) :
    a ≠ 0 ∧ a + pool.itemSize ≤ 2 ^ 64 := by
  obtain ⟨chunk, hchunk, pos, hpos, rfl⟩ := h.location ha
  have hle := h.sized.itemAt_le chunk hpos
  have hchunk := h.chunk_le chunk hchunk
  refine ⟨?_, by omega⟩
  unfold itemAt wordSize
  omega

/-- The first word of an item lies apart from the links of the chunks. -/
theorem item_apart_chunk (h : pool.Holds m older free live) {a chunk : ℕ}
    (ha : a ∈ free ++ live) (hchunk : chunk ∈ pool.allocPtr :: older) : Apart 8 a chunk := by
  obtain ⟨own, hown, pos, hpos, rfl⟩ := h.location ha
  apply h.sized.itemAt_apart_chunk _ hpos
  by_cases heq : own = chunk
  · exact Or.inl heq
  · right
    exact h.chunk_apart.forall hown hchunk heq

/-- The first words of two different items lie apart. -/
theorem item_apart (h : pool.Holds m older free live) {a b : ℕ} (ha : a ∈ free ++ live)
    (hb : b ∈ free ++ live) (hne : a ≠ b) : Apart 8 a b :=
  (h.apart.forall ha hb hne).mono h.sized.word_le

/-- A holder may write to the first word of a live item. -/
theorem store (h : pool.Holds m older free live) {a : ℕ} (ha : a ∈ live) (v : ℕ) :
    pool.Holds (store m a v) older free live :=
  { h with
    chunk_chain := h.chunk_chain.store_of_apart fun chunk hchunk =>
      h.item_apart_chunk (List.mem_append_right _ ha) hchunk
    free_chain := by
      apply h.free_chain.store_of_apart
      intro b hb
      apply h.item_apart (List.mem_append_right _ ha) (List.mem_append_left _ hb)
      rintro rfl
      exact (List.nodup_append.mp h.nodup).2.2 _ hb _ ha rfl }

/-- Carving out the next item of the current chunk. -/
theorem carve (h : pool.Holds m older free live) (hpos : pool.allocPoolPos < pool.totalAllocItem) :
    pool.carve.1.Holds m older free (pool.carve.2 :: live) where
  sized := ⟨h.sized.word_le, h.sized.items_le, h.sized.item_pos⟩
  chunk_chain := h.chunk_chain
  chunk_le := h.chunk_le
  chunk_apart := h.chunk_apart
  pos_le := hpos
  free_chain := h.free_chain
  items := by
    have hcarved : pool.carve.1.carved older =
        (List.range pool.allocPoolPos).map (pool.itemAt pool.allocPtr) ++ pool.carve.2 ::
          older.flatMap fun chunk => (List.range pool.totalAllocItem).map (pool.itemAt chunk) := by
      simp only [Mempool.carve, mempoolIncRefcount, carved, List.range_succ, List.map_append,
        List.map_cons, List.map_nil, List.append_assoc, List.singleton_append]
      rfl
    rw [hcarved]
    exact (List.perm_middle.trans (h.items.cons _)).trans List.perm_middle.symm
  count := by
    simp only [Mempool.carve, mempoolIncRefcount, h.count, List.length_cons]
    unfold wrapInt
    push_cast
    rw [Int.bmod_add_bmod]

/-- Linking in a new chunk when the current one is used up. -/
theorem extend (h : pool.Holds m older free live) (hpos : pool.allocPoolPos = pool.totalAllocItem)
    {chunk : ℕ} (hfresh : pool.Fresh m chunk) :
    Mempool.Holds { pool with allocPtr := chunk, allocPoolPos := 0 }
      (WordMemory.store m chunk pool.allocPtr) (pool.allocPtr :: older) free live := by
  obtain ⟨hne, hle, hchunks⟩ := hfresh
  have hapart := hchunks _ h.chunk_chain
  have hword := h.sized.word_le
  have hitems := h.sized.items_le
  have hpos' := h.sized.item_pos
  have hsize : 8 ≤ pool.allocSize := by
    unfold wordSize at hitems
    omega
  have hlt : pool.allocPtr < 2 ^ 64 := by
    have := h.chunk_le pool.allocPtr (by simp)
    omega
  exact
    { sized := ⟨h.sized.word_le, h.sized.items_le, h.sized.item_pos⟩
      chunk_chain := h.chunk_chain.push hlt hne fun other hother => (hapart other hother).mono hsize
      chunk_le := by
        intro other hother
        rcases List.mem_cons.mp hother with rfl | hother
        · exact hle
        · exact h.chunk_le other hother
      chunk_apart := List.pairwise_cons.mpr ⟨hapart, h.chunk_apart⟩
      pos_le := Nat.zero_le _
      free_chain := by
        apply h.free_chain.store_of_apart
        intro a ha
        obtain ⟨own, hown, pos, hpos, rfl⟩ := h.location (List.mem_append_left _ ha)
        exact (h.sized.itemAt_apart_chunk (Or.inr (hapart own hown).symm) hpos).symm
      items := by
        have hcarved : carved { pool with allocPtr := chunk, allocPoolPos := 0 }
            (pool.allocPtr :: older) = pool.carved older := by
          simp only [carved, List.range_zero, List.map_nil, List.nil_append, List.flatMap_cons,
            hpos]
          rfl
        rw [hcarved]
        exact h.items
      count := h.count }

/-- A new chunk is linked in without touching the items. -/
theorem load_extend (h : pool.Holds m older free live) {chunk : ℕ} (hfresh : pool.Fresh m chunk)
    {a : ℕ} (ha : a ∈ free ++ live) :
    load (WordMemory.store m chunk pool.allocPtr) a = load m a := by
  apply load_store_of_apart
  obtain ⟨own, hown, pos, hpos, rfl⟩ := h.location ha
  have hapart := hfresh.2.2 _ h.chunk_chain own hown
  exact (h.sized.itemAt_apart_chunk (Or.inr hapart.symm) hpos).symm

/-- An allocation makes one more item live and leaves the words of the others alone. -/
theorem alloc (h : pool.Holds m older free live) {malloc : Option ℕ}
    (hfresh : ∀ chunk ∈ malloc, pool.Fresh m chunk) {pool' : Mempool} {m' : M} {a : ℕ}
    (halloc : mempoolAlloc malloc pool m = (pool', m', some a)) :
    (∃ older' free', pool'.Holds m' older' free' (a :: live)) ∧
      ∀ b ∈ live, load m' b = load m b := by
  unfold mempoolAlloc at halloc
  by_cases hreuse : pool.reusePtr ≠ 0
  · rw [if_pos hreuse] at halloc
    simp only [Prod.mk.injEq, Option.some.injEq] at halloc
    obtain ⟨rfl, rfl, rfl⟩ := halloc
    refine ⟨?_, fun b _ => rfl⟩
    cases free with
    | nil => exact absurd h.free_chain hreuse
    | cons b free =>
      obtain ⟨hb, -, hrest⟩ := h.free_chain
      refine ⟨older, free, ⟨h.sized.word_le, h.sized.items_le, h.sized.item_pos⟩, h.chunk_chain,
        h.chunk_le, h.chunk_apart, h.pos_le, hb ▸ hrest, ?_, ?_⟩
      · rw [hb]
        exact List.perm_middle.trans h.items
      · simp only [mempoolIncRefcount, h.count, List.length_cons]
        unfold wrapInt
        push_cast
        rw [Int.bmod_add_bmod]
  · rw [if_neg hreuse] at halloc
    by_cases hpos : pool.allocPoolPos = pool.totalAllocItem
    · rw [if_pos hpos] at halloc
      cases malloc with
      | none => simp at halloc
      | some chunk =>
        have hchunk := hfresh chunk rfl
        simp only [Prod.mk.injEq, Option.some.injEq] at halloc
        obtain ⟨rfl, rfl, rfl⟩ := halloc
        exact ⟨⟨_, _, (h.extend hpos hchunk).carve h.sized.item_pos⟩,
          fun b hb => h.load_extend hchunk (List.mem_append_right _ hb)⟩
    · rw [if_neg hpos] at halloc
      have hle := h.pos_le
      simp only [Prod.mk.injEq, Option.some.injEq] at halloc
      obtain ⟨rfl, rfl, rfl⟩ := halloc
      exact ⟨⟨_, _, h.carve (by omega)⟩, fun b _ => rfl⟩

/-- The item that is allocated was not live. -/
theorem notMem_of_cons {a : ℕ} (h : pool.Holds m older free (a :: live)) : a ∉ live :=
  (List.nodup_cons.mp (List.nodup_append.mp h.nodup).2.1).1

/-- Freeing a live item makes it the first free one. -/
theorem mempoolFree {a : ℕ} (h : pool.Holds m older free (a :: live)) :
    (ThriftProxy.mempoolFree pool m a).1.Holds (ThriftProxy.mempoolFree pool m a).2 older
      (a :: free) live where
  sized := ⟨h.sized.word_le, h.sized.items_le, h.sized.item_pos⟩
  chunk_chain := h.chunk_chain.store_of_apart fun chunk hchunk =>
    h.item_apart_chunk (by simp) hchunk
  chunk_le := h.chunk_le
  chunk_apart := h.chunk_apart
  pos_le := h.pos_le
  free_chain := by
    have hlt : pool.reusePtr < 2 ^ 64 := by
      apply h.free_chain.first_lt _ (by omega)
      intro b hb
      have := h.item_bounds (List.mem_append_left _ hb)
      have hword := h.sized.word_le
      unfold wordSize at hword
      omega
    apply h.free_chain.push hlt (h.item_bounds (a := a) (by simp)).1
    intro b hb
    apply h.item_apart (by simp) (List.mem_append_left _ hb)
    rintro rfl
    exact (List.nodup_append.mp h.nodup).2.2 _ hb _ (by simp) rfl
  items := List.perm_middle.symm.trans h.items
  count := by
    simp only [ThriftProxy.mempoolFree, h.count, List.length_cons]
    unfold wrapInt
    push_cast
    rw [Int.bmod_sub_bmod]
    congr 1
    omega

/-- Freeing an item leaves the words of the other live items alone. -/
theorem load_mempoolFree {a b : ℕ} (h : pool.Holds m older free (a :: live)) (hb : b ∈ live) :
    load (ThriftProxy.mempoolFree pool m a).2 b = load m b := by
  apply load_store_of_apart
  apply h.item_apart (by simp) (by simp [hb])
  rintro rfl
  exact h.notMem_of_cons hb

end Holds

end Mempool

/-! ## A new pool -/

/-- Rounding up does not make a size smaller. -/
theorem le_roundUp (size : ℕ) {unit : ℕ} (h : 0 < unit) : size ≤ roundUp size unit := by
  have hlt := Nat.mod_lt size h
  unfold roundUp
  split <;> omega

/-- A chunk has room for a hundred items and the link. -/
theorem le_mempoolAllocSize {pagesize : ℕ} (h : 0 < pagesize) (itemSize allocSize : ℕ) :
    itemSize * defaultAllocSize + wordSize ≤ mempoolAllocSize pagesize itemSize allocSize := by
  unfold mempoolAllocSize
  refine le_trans ?_ (le_roundUp _ h)
  split <;> split <;> omega

section

variable {M : Type} [WordMemory M] {pagesize chunk : ℕ} (itemSize allocSize : ℕ) (m : M)

/-- A new pool has neither free nor live items. -/
theorem holds_mempoolCreate (hpage : 0 < pagesize) (hne : chunk ≠ 0)
    (hle : chunk + mempoolAllocSize pagesize (mempoolItemSize itemSize) allocSize ≤ 2 ^ 64) :
    (mempoolCreate pagesize itemSize allocSize chunk m).1.Holds
      (mempoolCreate pagesize itemSize allocSize chunk m).2 [] [] [] := by
  have hitem : wordSize ≤ mempoolItemSize itemSize :=
    (le_max_right itemSize wordSize).trans (le_roundUp _ (by decide))
  have halloc := le_mempoolAllocSize hpage (mempoolItemSize itemSize) allocSize
  have hpos : 0 < mempoolItemSize itemSize := lt_of_lt_of_le (by decide) hitem
  refine ⟨⟨hitem, ?_, ?_⟩, ?_, ?_, ?_, ?_, ?_, ?_, ?_⟩
  · simp only [mempoolCreate]
    have := Nat.mul_div_le (mempoolAllocSize pagesize (mempoolItemSize itemSize) allocSize -
      wordSize) (mempoolItemSize itemSize)
    omega
  · simp only [mempoolCreate]
    apply Nat.div_pos _ hpos
    unfold defaultAllocSize at halloc
    omega
  · refine ⟨rfl, hne, ?_⟩
    exact load_store_self m chunk 0 (by omega)
  · intro other hother
    rw [List.mem_singleton] at hother
    rw [hother]
    exact hle
  · exact List.pairwise_singleton _ _
  · exact Nat.zero_le _
  · exact rfl
  · exact List.Perm.refl _
  · exact (wrapInt_eq_self (x := 0) (by decide) (by decide)).symm

end

end ThriftProxy
