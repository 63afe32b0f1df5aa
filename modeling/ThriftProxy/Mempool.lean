import ThriftProxy.Lib.Memory
import ThriftProxy.Lib.WordMemory

/-!
# The memory pool

`mempool.cpp`: items of one size, carved out of large chunks and recycled
through a free list that is threaded through the first words of the free items.
The outcome of each `malloc` is given by the environment: a block, or none.
-/

namespace ThriftProxy

open Machine WordMemory

/-- `WORD_SIZE`. -/
def wordSize : ℕ := 8

/-- `DEFAULT_ALLOC_SIZE`. -/
def defaultAllocSize : ℕ := 100

/-- `mempool_t`. -/
structure Mempool where
  /-- `item_size`. -/
  itemSize : ℕ
  /-- `alloc_size`, the size of a chunk. -/
  allocSize : ℕ
  /-- `total_alloc_item`, the number of items in a chunk. -/
  totalAllocItem : ℕ
  /-- `reuse_ptr`, the first free item. -/
  reusePtr : ℕ
  /-- `alloc_ptr`, the chunk that items are carved out of. -/
  allocPtr : ℕ
  /-- `alloc_pool_pos`, the number of items carved out of it. -/
  allocPoolPos : ℕ
  /-- `ref_count`. -/
  refCount : ℤ
  deriving DecidableEq

/-- A size rounded up to a multiple of a unit. -/
def roundUp (size unit : ℕ) : ℕ :=
  if size % unit ≠ 0 then size + unit - size % unit else size

/-- `item_size` of a pool for items of a given size. -/
def mempoolItemSize (itemSize : ℕ) : ℕ := roundUp (max itemSize wordSize) wordSize

/-- `alloc_size` of a pool whose rounded item size is given. -/
def mempoolAllocSize (pagesize itemSize allocSize : ℕ) : ℕ :=
  let least := itemSize * defaultAllocSize + wordSize
  let allocSize := if allocSize ≤ least then least else allocSize
  let allocSize :=
    if allocSize ≤ defaultAllocSize * pagesize then defaultAllocSize * pagesize else allocSize
  roundUp allocSize pagesize

section

variable {M : Type} [WordMemory M]

/-- `mempool_create`, whose `malloc` has returned a chunk. Sizes are assumed to
stay within `size_t`. -/
def mempoolCreate (pagesize itemSize allocSize chunk : ℕ) (m : M) : Mempool × M :=
  let itemSize := mempoolItemSize itemSize
  let allocSize := mempoolAllocSize pagesize itemSize allocSize
  ({ itemSize := itemSize, allocSize := allocSize,
     totalAllocItem := (allocSize - wordSize) / itemSize,
     reusePtr := 0, allocPtr := chunk, allocPoolPos := 0, refCount := 0 }, store m chunk 0)

/-- `mempool_inc_refcount`. -/
def mempoolIncRefcount (pool : Mempool) : Mempool :=
  { pool with refCount := wrapInt (pool.refCount + 1) }

/-- The item at a position of a chunk, behind the link word of the chunk. -/
def Mempool.itemAt (pool : Mempool) (chunk pos : ℕ) : ℕ := chunk + wordSize + pool.itemSize * pos

/-- The next item carved out of the current chunk. -/
def Mempool.carve (pool : Mempool) : Mempool × ℕ :=
  (mempoolIncRefcount { pool with allocPoolPos := pool.allocPoolPos + 1 },
    pool.itemAt pool.allocPtr pool.allocPoolPos)

/-- `mempool_alloc`. -/
def mempoolAlloc (malloc : Option ℕ) (pool : Mempool) (m : M) : Mempool × M × Option ℕ :=
  if pool.reusePtr ≠ 0 then
    (mempoolIncRefcount { pool with reusePtr := load m pool.reusePtr }, m, some pool.reusePtr)
  else if pool.allocPoolPos = pool.totalAllocItem then
    match malloc with
    | none => (pool, m, none)
    | some chunk =>
      let next := { pool with allocPtr := chunk, allocPoolPos := 0 }.carve
      (next.1, store m chunk pool.allocPtr, some next.2)
  else
    (pool.carve.1, m, some pool.carve.2)

/-- `mempool_calloc`: only the first word is zeroed, since the size given to
`memset` is that of the member `item_size`. -/
def mempoolCalloc (malloc : Option ℕ) (pool : Mempool) (m : M) : Mempool × M × Option ℕ :=
  match mempoolAlloc malloc pool m with
  | (pool, m, some p) => (pool, store m p 0, some p)
  | (pool, m, none) => (pool, m, none)

/-- `mempool_free`. -/
def mempoolFree (pool : Mempool) (m : M) (data : ℕ) : Mempool × M :=
  ({ pool with reusePtr := data, refCount := wrapInt (pool.refCount - 1) },
    store m data pool.reusePtr)

end

/-- No item is left, and the system has no memory for another chunk. -/
def Mempool.Exhausted (pool : Mempool) (malloc : Option ℕ) : Prop :=
  pool.reusePtr = 0 ∧ pool.allocPoolPos = pool.totalAllocItem ∧ malloc = none

instance (pool : Mempool) (malloc : Option ℕ) : Decidable (pool.Exhausted malloc) := by
  unfold Mempool.Exhausted; infer_instance

/-- An allocation fails exactly when the pool is exhausted, and then changes nothing. -/
theorem mempoolAlloc_of_exhausted {M : Type} [WordMemory M] {malloc : Option ℕ}
    {pool : Mempool} (m : M) (h : pool.Exhausted malloc) :
    mempoolAlloc malloc pool m = (pool, m, none) := by
  obtain ⟨hreuse, hpos, rfl⟩ := h
  simp [mempoolAlloc, hreuse, hpos]

/-- A pool that is not exhausted has an item. -/
theorem exists_mempoolAlloc {M : Type} [WordMemory M] {malloc : Option ℕ} {pool : Mempool}
    (m : M) (h : ¬ pool.Exhausted malloc) : ∃ pool' m' p,
      mempoolAlloc malloc pool m = (pool', m', some p) := by
  unfold mempoolAlloc
  by_cases hreuse : pool.reusePtr ≠ 0
  · rw [if_pos hreuse]
    exact ⟨_, _, _, rfl⟩
  · rw [if_neg hreuse]
    by_cases hpos : pool.allocPoolPos = pool.totalAllocItem
    · rw [if_pos hpos]
      cases malloc with
      | none => exact absurd ⟨not_not.mp hreuse, hpos, rfl⟩ h
      | some chunk => exact ⟨_, _, _, rfl⟩
    · rw [if_neg hpos]
      exact ⟨_, _, _, rfl⟩

end ThriftProxy
