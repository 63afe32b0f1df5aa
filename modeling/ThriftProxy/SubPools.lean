import ThriftProxy.VarMempoolSemantics

/-!
# Memory pools that share a memory

Sub-pools registered under different sizes carve their items out of chunks that
lie apart, so each keeps the invariant of a memory pool of its own. An operation
on one of them stays inside its chunks and leaves the others alone.
-/

namespace ThriftProxy

open Machine WordMemory

/-! ## One sub-pool -/

namespace Mempool.Holds

variable {pool : Mempool} {m m' : ByteMemory} {older free live : List ℕ}

/-- A pool is left alone by what leaves its chunks alone. -/
theorem congr_chunks (h : pool.Holds m older free live)
    (hsame : ∀ chunk ∈ pool.allocPtr :: older, ∀ x, chunk ≤ x → x < chunk + pool.allocSize →
      m' x = m x) : pool.Holds m' older free live := by
  have hitems := h.sized.items_le
  have hword := h.sized.word_le
  have hpos := h.sized.item_pos
  unfold wordSize at hitems hword
  apply h.congr
  · intro chunk hchunk
    apply ByteMemory.load_congr
    intro x hlow hhigh
    exact hsame chunk hchunk x hlow (by omega)
  · intro a ha
    obtain ⟨chunk, hchunk, hstart, hend⟩ := h.inside (List.mem_append_left _ ha)
    apply ByteMemory.load_congr
    intro x hlow hhigh
    exact hsame chunk hchunk x (by omega) (by omega)

end Mempool.Holds

/-- An allocation that does not need a chunk does not depend on `malloc`. -/
theorem mempoolAlloc_of_not_callsMalloc {M : Type} [WordMemory M] {pool : Mempool}
    (h : ¬ pool.CallsMalloc) (malloc malloc' : Option ℕ) (m : M) :
    mempoolAlloc malloc pool m = mempoolAlloc malloc' pool m := by
  unfold mempoolAlloc
  by_cases hreuse : pool.reusePtr ≠ 0
  · rw [if_pos hreuse, if_pos hreuse]
  · have hpos : ¬ pool.allocPoolPos = pool.totalAllocItem := fun hpos =>
      h ⟨not_not.mp hreuse, hpos⟩
    rw [if_neg hreuse, if_neg hreuse, if_neg hpos, if_neg hpos]

/-- An allocation leaves the chunk size alone. -/
theorem mempoolAlloc_allocSize {M : Type} [WordMemory M] {malloc : Option ℕ}
    {pool pool' : Mempool} {m m' : M} {r : Option ℕ}
    (h : mempoolAlloc malloc pool m = (pool', m', r)) : pool'.allocSize = pool.allocSize := by
  obtain ⟨-, -, -, hpool⟩ | ⟨-, -, -, -, hpool⟩ | ⟨_, -, -, -, -, hpool⟩ | ⟨-, -, -, hpool⟩ :=
    mempoolAlloc_cases h
  all_goals simp only [hpool, mempoolIncRefcount, Mempool.carve]

/-! ## Sub-pools in one memory -/

/-- Sub-pools by the size they are registered under, with the older chunks, the
free items and the live items of each. -/
structure SubPools (m : ByteMemory) (pools : ℕ → Option Mempool) (older free live : ℕ → List ℕ)
    (chunks : List (ℕ × ℕ)) : Prop where
  /-- Each sub-pool is a memory pool of its own. -/
  holds : ∀ k pool, pools k = some pool → pool.Holds m (older k) (free k) (live k)
  /-- The items of a sub-pool are of the size it is registered under. -/
  itemSize_eq : ∀ k pool, pools k = some pool → pool.itemSize = mempoolItemSize k
  /-- The chunks come from `malloc`. -/
  chunk_mem : ∀ k pool, pools k = some pool → ∀ c ∈ pool.allocPtr :: older k,
    (c, pool.allocSize) ∈ chunks
  /-- The chunks of two sub-pools lie apart. -/
  apart : ∀ j k pool pool', j ≠ k → pools j = some pool → pools k = some pool' →
    ∀ c ∈ pool.allocPtr :: older j, ∀ c' ∈ pool'.allocPtr :: older k,
      BlocksApart (c, pool.allocSize) (c', pool'.allocSize)

/-- Blocks lie apart symmetrically. -/
theorem BlocksApart.symm {a b : ℕ × ℕ} (h : BlocksApart a b) : BlocksApart b a := Or.symm h

namespace SubPools

variable {m m' : ByteMemory} {pools pools' : ℕ → Option Mempool} {older free live : ℕ → List ℕ}
  {chunks chunks' : List (ℕ × ℕ)}

/-- The order of the live items does not matter. -/
theorem perm (h : SubPools m pools older free live chunks) {live' : ℕ → List ℕ}
    (hperm : ∀ k, (live k).Perm (live' k)) : SubPools m pools older free live' chunks :=
  { h with holds := fun k pool hpool => (h.holds k pool hpool).perm (hperm k) }

/-- What an operation on one sub-pool may do: it stays inside the chunks of its
sub-pool, which are those it had and blocks apart from all chunks. -/
theorem change (h : SubPools m pools older free live chunks) {k : ℕ} {pool' : Mempool}
    {older' free' live' : List ℕ} (hpool : pools' k = some pool')
    (hother : ∀ j, j ≠ k → pools' j = pools j)
    (hholds : pool'.Holds m' older' free' live') (hsize : pool'.itemSize = mempoolItemSize k)
    (hchunks : ∀ block ∈ chunks, block ∈ chunks')
    (hmem : ∀ c ∈ pool'.allocPtr :: older', (c, pool'.allocSize) ∈ chunks')
    (hown : ∀ c ∈ pool'.allocPtr :: older',
      (∃ pool, pools k = some pool ∧ c ∈ pool.allocPtr :: older k ∧
        pool.allocSize = pool'.allocSize) ∨
      ∀ block ∈ chunks, BlocksApart (c, pool'.allocSize) block)
    (hframe : ∀ x, (∀ c ∈ pool'.allocPtr :: older', x < c ∨ c + pool'.allocSize ≤ x) →
      m' x = m x) :
    SubPools m' pools' (Function.update older k older') (Function.update free k free')
      (Function.update live k live') chunks' := by
  -- the chunks of another sub-pool lie apart from those of the changed one
  have hapart : ∀ j pool, j ≠ k → pools j = some pool → ∀ c ∈ pool.allocPtr :: older j,
      ∀ c' ∈ pool'.allocPtr :: older', BlocksApart (c, pool.allocSize) (c', pool'.allocSize) := by
    intro j pool hj hpoolj c hc c' hc'
    obtain ⟨old, hold, hc'old, hsame⟩ | hnew := hown c' hc'
    · rw [← hsame]
      exact h.apart j k pool old hj hpoolj hold c hc c' hc'old
    · exact (hnew _ (h.chunk_mem j pool hpoolj c hc)).symm
  refine ⟨?_, ?_, ?_, ?_⟩
  · intro j pool hpoolj
    by_cases hj : j = k
    · subst hj
      obtain rfl := Option.some.inj (hpool.symm.trans hpoolj)
      simpa only [Function.update_self] using hholds
    · rw [hother j hj] at hpoolj
      simp only [Function.update_of_ne hj]
      apply (h.holds j pool hpoolj).congr_chunks
      intro c hc x hlow hhigh
      apply hframe
      intro c' hc'
      have hblocks := hapart j pool hj hpoolj c hc c' hc'
      unfold BlocksApart at hblocks
      simp only at hblocks
      omega
  · intro j pool hpoolj
    by_cases hj : j = k
    · subst hj
      obtain rfl := Option.some.inj (hpool.symm.trans hpoolj)
      exact hsize
    · exact h.itemSize_eq j pool (hother j hj ▸ hpoolj)
  · intro j pool hpoolj c hc
    by_cases hj : j = k
    · subst hj
      obtain rfl := Option.some.inj (hpool.symm.trans hpoolj)
      rw [Function.update_self] at hc
      exact hmem c hc
    · rw [Function.update_of_ne hj] at hc
      exact hchunks _ (h.chunk_mem j pool (hother j hj ▸ hpoolj) c hc)
  · intro i j pool pool₂ hij hpooli hpoolj c hc c' hc'
    by_cases hi : i = k
    · subst hi
      have hj : j ≠ i := Ne.symm hij
      obtain rfl := Option.some.inj (hpool.symm.trans hpooli)
      rw [Function.update_self] at hc
      rw [Function.update_of_ne hj] at hc'
      exact (hapart j pool₂ hj (hother j hj ▸ hpoolj) c' hc' c hc).symm
    · rw [Function.update_of_ne hi] at hc
      by_cases hj : j = k
      · subst hj
        obtain rfl := Option.some.inj (hpool.symm.trans hpoolj)
        rw [Function.update_self] at hc'
        exact hapart i pool hi (hother i hi ▸ hpooli) c hc c' hc'
      · rw [Function.update_of_ne hj] at hc'
        exact h.apart i j pool pool₂ hij (hother i hi ▸ hpooli) (hother j hj ▸ hpoolj) c hc c' hc'

/-- A block that `malloc` returns is fresh to a sub-pool. -/
theorem fresh (h : SubPools m pools older free live chunks) {k : ℕ} {pool : Mempool}
    (hpool : pools k = some pool) {block : ℕ}
    (hblock : VarMallocBlock chunks (block, pool.allocSize)) : pool.Fresh m block := by
  obtain ⟨hne, -, hle, hapart⟩ := hblock
  refine ⟨hne, hle, ?_⟩
  intro own hchain c hc
  rw [hchain.unique (h.holds k pool hpool).chunk_chain] at hc
  exact hapart _ (h.chunk_mem k pool hpool c hc)

/-- An allocation from a sub-pool. -/
theorem alloc (h : SubPools m pools older free live chunks) {k : ℕ} {pool pool' : Mempool}
    (hpool : pools k = some pool) {refill : Option ℕ} {p : ℕ}
    (halloc : mempoolAlloc refill pool m = (pool', m', some p))
    (hblocks : pool.CallsMalloc → ∀ c ∈ refill, VarMallocBlock chunks (c, pool.allocSize))
    (hpool' : pools' k = some pool') (hother : ∀ j, j ≠ k → pools' j = pools j) :
    ∃ older' free', SubPools m' pools' older' free' (Function.update live k (p :: live k))
      ((if pool.CallsMalloc then refill.toList.map fun c => (c, pool.allocSize) else []) ++
        chunks) := by
  -- a block that `malloc` is not asked for does not matter
  obtain ⟨malloc, hmalloc, hsame⟩ : ∃ malloc : Option ℕ,
      (∀ c ∈ malloc, pool.CallsMalloc ∧ VarMallocBlock chunks (c, pool.allocSize)) ∧
      (mempoolAlloc malloc pool m = (pool', m', some p) ∧
        (pool.CallsMalloc → malloc = refill)) := by
    by_cases hcalls : pool.CallsMalloc
    · exact ⟨refill, fun c hc => ⟨hcalls, hblocks hcalls c hc⟩, halloc, fun _ => rfl⟩
    · refine ⟨none, fun c hc => (by cases hc), ?_, fun hcalls' => absurd hcalls' hcalls⟩
      rw [← halloc, mempoolAlloc_of_not_callsMalloc hcalls]
  obtain ⟨halloc, hrefill⟩ := hsame
  have hholds := h.holds k pool hpool
  have hfresh : ∀ c ∈ malloc, pool.Fresh m c := fun c hc => h.fresh hpool (hmalloc c hc).2
  obtain ⟨⟨older', free', hholds'⟩, -⟩ := hholds.alloc hfresh halloc
  have hlinked := hholds.chunks_alloc hfresh halloc rfl hholds'.chunk_chain
  have hsize := mempoolAlloc_allocSize halloc
  have hwhere : ∀ c ∈ pool'.allocPtr :: older',
      c ∈ pool.allocPtr :: older k ∨ pool.CallsMalloc ∧ c ∈ malloc := by
    intro c hc
    rw [hlinked] at hc
    split at hc
    · rename_i hcalls
      obtain hnew | hold := List.mem_append.mp hc
      · exact .inr ⟨hcalls, Option.mem_toList.mp hnew⟩
      · exact .inl hold
    · exact .inl hc
  refine ⟨_, _, h.change hpool' hother hholds' ?_ (fun b hb => List.mem_append_right _ hb) ?_ ?_ ?_⟩
  · exact (mempoolAlloc_itemSize halloc).trans (h.itemSize_eq k pool hpool)
  · intro c hc
    rw [hsize]
    obtain hold | ⟨hcalls, hnew⟩ := hwhere c hc
    · exact List.mem_append_right _ (h.chunk_mem k pool hpool c hold)
    · apply List.mem_append_left
      rw [if_pos hcalls, ← hrefill hcalls]
      exact List.mem_map.mpr ⟨c, Option.mem_toList.mpr hnew, rfl⟩
  · intro c hc
    obtain hold | ⟨hcalls, hnew⟩ := hwhere c hc
    · exact .inl ⟨pool, hpool, hold, hsize.symm⟩
    · rw [hsize]
      exact .inr (hmalloc c hnew).2.2.2.2
  · intro x hx
    obtain ⟨-, hmem, -⟩ | ⟨-, -, hmem, -⟩ | ⟨chunk, hcalls, hnew, hmem, -, -⟩ | ⟨-, hmem, -⟩ :=
      mempoolAlloc_cases halloc
    · rw [hmem]
    · rw [hmem]
    · have hin : chunk ∈ pool'.allocPtr :: older' := by
        rw [hlinked, if_pos hcalls, hnew]
        simp
      have hout := hx chunk hin
      have hitems := hholds.sized.items_le
      rw [hsize] at hout
      unfold wordSize at hitems
      rw [hmem]
      exact ByteMemory.store_apply_of_notMem (by omega)
    · rw [hmem]

/-- A new sub-pool with its first chunk. -/
theorem create (h : SubPools m pools older free live chunks) {k pagesize allocSize chunk : ℕ}
    (hpage : 0 < pagesize)
    (hblock : VarMallocBlock chunks
      (chunk, mempoolAllocSize pagesize (mempoolItemSize k) allocSize))
    (hlive : live k = [])
    (hpool' : pools' k = some (mempoolCreate pagesize k allocSize chunk m).1)
    (hother : ∀ j, j ≠ k → pools' j = pools j) :
    ∃ older' free', SubPools (mempoolCreate pagesize k allocSize chunk m).2 pools' older' free'
      live ((chunk, mempoolAllocSize pagesize (mempoolItemSize k) allocSize) :: chunks) := by
  obtain ⟨hne, -, hle, hapart⟩ := hblock
  have hholds := holds_mempoolCreate k allocSize m hpage hne hle
  have hmore : ∀ block ∈ chunks,
      block ∈ (chunk, mempoolAllocSize pagesize (mempoolItemSize k) allocSize) :: chunks :=
    fun b hb => List.mem_cons_of_mem _ hb
  have hchange := h.change hpool' hother hholds rfl hmore ?_ ?_ ?_
  · have hsame : Function.update live k [] = live := by
      rw [← hlive]
      exact Function.update_eq_self k live
    rw [hsame] at hchange
    exact ⟨_, _, hchange⟩
  · intro c hc
    obtain rfl := List.mem_singleton.mp hc
    exact List.mem_cons_self
  · intro c hc
    obtain rfl := List.mem_singleton.mp hc
    exact .inr hapart
  · intro x hx
    have hout := hx chunk List.mem_cons_self
    have hsize := le_mempoolAllocSize hpage (mempoolItemSize k) allocSize
    simp only [mempoolCreate] at hout
    unfold wordSize at hsize
    exact ByteMemory.store_apply_of_notMem (by omega)

/-- Freeing a live item of a sub-pool. -/
theorem free_item (h : SubPools m pools older free live chunks) {k : ℕ} {pool : Mempool}
    (hpool : pools k = some pool) {p : ℕ} {live' : List ℕ} (hlive : (live k).Perm (p :: live'))
    (hpool' : pools' k = some (mempoolFree pool m p).1)
    (hother : ∀ j, j ≠ k → pools' j = pools j) :
    SubPools (mempoolFree pool m p).2 pools' (Function.update older k (older k))
      (Function.update free k (p :: free k)) (Function.update live k live') chunks := by
  have hholds := (h.holds k pool hpool).perm hlive
  refine h.change hpool' hother hholds.mempoolFree (h.itemSize_eq k pool hpool)
    (fun b hb => hb) (h.chunk_mem k pool hpool) (fun c hc => .inl ⟨pool, hpool, hc, rfl⟩) ?_
  intro x hx
  obtain ⟨chunk, hchunk, hstart, hend⟩ := hholds.inside (a := p) (by simp)
  have hout := hx chunk hchunk
  have hword := hholds.sized.word_le
  simp only [mempoolFree] at hout
  unfold wordSize at hword hstart
  exact ByteMemory.store_apply_of_notMem (by omega)

/-- Writing inside a live item of a sub-pool. -/
theorem write (h : SubPools m pools older free live chunks) {k : ℕ} {pool : Mempool}
    (hpool : pools k = some pool) {p : ℕ} (hp : p ∈ live k)
    (hsame : ∀ x, x < p ∨ p + pool.itemSize ≤ x → m' x = m x) :
    SubPools m' pools older free live chunks := by
  have hholds := h.holds k pool hpool
  have hother : ∀ j, j ≠ k → pools j = pools j := fun _ _ => rfl
  have hchange := h.change hpool hother (hholds.congr_item hp hsame)
    (h.itemSize_eq k pool hpool) (fun b hb => hb) (h.chunk_mem k pool hpool)
    (fun c hc => .inl ⟨pool, hpool, hc, rfl⟩) ?_
  · simpa only [Function.update_eq_self] using hchange
  · intro x hx
    obtain ⟨chunk, hchunk, hstart, hend⟩ := hholds.inside (List.mem_append_right _ hp)
    have hout := hx chunk hchunk
    unfold wordSize at hstart
    exact hsame x (by omega)

end SubPools

end ThriftProxy
