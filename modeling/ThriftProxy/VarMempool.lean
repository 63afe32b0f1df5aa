import ThriftProxy.MempoolSafety

/-!
# The pool of items of any size

The second half of `mempool.cpp`: a hash table of memory pools by item size. A
request is rounded, served by the sub-pool registered under the rounded size,
and a sub-pool is made for a size that has none; a block is returned with the
size it was requested with. The table's own records are apart from the chunks of
the sub-pools and are modelled as values.
-/

namespace ThriftProxy

open Machine WordMemory Transition

/-! ## The table -/

/-- `variable_mempool_entry_t`, as a node of a bucket's list. -/
structure VarEntry where
  /-- `item_size`, the size under which the sub-pool is registered. -/
  itemSize : ℕ
  /-- `pool`. -/
  pool : Mempool

/-- A slot of `mempool_table`. -/
inductive VarBucket
  /-- NULL. -/
  | null
  /-- A list head and the nodes behind it, in order. -/
  | nodes (entries : List VarEntry)
  /-- A list head that was given back to `free` and is still referred to. -/
  | dangling

/-- `variable_mempool_t`. -/
structure VarMempool where
  /-- `table_size`. -/
  tableSize : ℕ
  /-- `multiple`, an `int`. -/
  multiple : ℤ
  /-- `mempool_table`. -/
  mempoolTable : ℕ → VarBucket

/-- An access through a pointer to memory that was given back. -/
inductive VarFault
  | dangling

/-- What the environment supplies to `var_mempool_alloc`: whether each `calloc`
succeeds, and the blocks that the calls of `malloc` return. -/
structure VarEnv where
  /-- `calloc` of the new sub-pool's record. -/
  record : Bool
  /-- `malloc` of the new sub-pool's first chunk. -/
  chunk : Option ℕ
  /-- `calloc` of a list head. -/
  head : Bool
  /-- `calloc` of a node. -/
  node : Bool
  /-- `malloc` of `mempool_alloc`. -/
  refill : Option ℕ

namespace VarMempool

/-- `var_mempool_create` with both `calloc`s succeeding. -/
def create (tableSize multiple : ℕ) : Option VarMempool :=
  if tableSize = 0 ∨ multiple = 0 then none
  else some { tableSize := tableSize, multiple := wrapInt multiple, mempoolTable := fun _ => .null }

/-- The slot of a size. -/
def slot (v : VarMempool) (itemSize : ℕ) : ℕ := itemSize % v.tableSize

/-- The table with one slot replaced. -/
def setSlot (v : VarMempool) (i : ℕ) (b : VarBucket) : VarMempool :=
  { v with mempoolTable := Function.update v.mempoolTable i b }

/-- `var_mempool_get`. -/
def get (v : VarMempool) (itemSize : ℕ) : Except VarFault (Option Mempool) :=
  if itemSize = 0 then .ok none
  else match v.mempoolTable (v.slot itemSize) with
    | .null => .ok none
    | .nodes entries =>
      .ok ((entries.find? fun entry => entry.itemSize == itemSize).map VarEntry.pool)
    | .dangling => .error .dangling

/-- The first node of a size, with its pool replaced. -/
def replaceFirst (itemSize : ℕ) (pool : Mempool) : List VarEntry → List VarEntry
  | [] => []
  | entry :: entries =>
    if entry.itemSize == itemSize then { entry with pool := pool } :: entries
    else entry :: replaceFirst itemSize pool entries

/-- `var_mempool_put` of a pointer to a sub-pool, with the pointer that it returns.
When the node cannot be allocated, the list head is freed and stays in the table. -/
def varMempoolPut (v : VarMempool) (itemSize : ℕ) (subPool : Option Mempool) (head node : Bool) :
    Except VarFault (VarMempool × Option Mempool) :=
  match subPool with
  | none => .ok (v, none)
  | some pool =>
    match v.mempoolTable (v.slot itemSize) with
    | .null =>
      if head then
        if node then .ok (v.setSlot (v.slot itemSize) (.nodes [⟨itemSize, pool⟩]), some pool)
        else .ok (v.setSlot (v.slot itemSize) .dangling, none)
      else .ok (v, none)
    | .nodes entries =>
      if entries.any fun entry => entry.itemSize == itemSize then
        .ok (v.setSlot (v.slot itemSize) (.nodes (replaceFirst itemSize pool entries)), some pool)
      else if node then
        .ok (v.setSlot (v.slot itemSize) (.nodes (⟨itemSize, pool⟩ :: entries)), some pool)
      else .ok (v.setSlot (v.slot itemSize) .dangling, none)
    | .dangling => .error .dangling

/-- `var_mempool_put` of a sub-pool for `var_mempool_alloc`, which does not look at the
pointer returned. -/
def put (v : VarMempool) (itemSize : ℕ) (pool : Mempool) (head node : Bool) :
    Except VarFault VarMempool :=
  (v.varMempoolPut itemSize (some pool) head node).map Prod.fst

/-- The table after an operation on the sub-pool registered under a size, which
changes the sub-pool's record in place. A sub-pool that could not be registered
is out of reach. -/
def update (v : VarMempool) (itemSize : ℕ) (pool : Mempool) : VarMempool :=
  match v.mempoolTable (v.slot itemSize) with
  | .nodes entries => v.setSlot (v.slot itemSize) (.nodes (replaceFirst itemSize pool entries))
  | _ => v

end VarMempool

/-! ## The operations -/

/-- The size that `var_mempool_alloc` looks up, in `unsigned int` arithmetic. -/
def varItemSize (itemSize : ℕ) : ℕ :=
  if itemSize % wordSize ≠ 0 then (itemSize + (itemSize - itemSize % wordSize)) % 2 ^ 32
  else itemSize

/-- An `int` passed as a `size_t`. -/
def sizeOfInt (x : ℤ) : ℕ := (x % 2 ^ 64).toNat

/-- A page size as the system has it: a power of two that fits into an `int`. From `2 ^ 25`
on, the product of `DEFAULT_ALLOC_SIZE` and an `int` page size would overflow; it is taken
as a `size_t` here. No system has such pages. -/
def PageSize (pagesize : ℕ) : Prop := ∃ k, 4 ≤ k ∧ k ≤ 30 ∧ pagesize = 2 ^ k

/-- `alloc_size` of a sub-pool, in `size_t` arithmetic. Only rounding up to whole
pages can exceed the range. -/
def subAllocSize (pagesize itemSize : ℕ) (multiple : ℤ) : ℕ :=
  mempoolAllocSize pagesize (mempoolItemSize itemSize) (sizeOfInt multiple) % 2 ^ 64

section

variable {M : Type} [WordMemory M]

/-- `mempool_create` of a sub-pool, in `size_t` arithmetic. -/
def subMempoolCreate (pagesize itemSize : ℕ) (multiple : ℤ) (chunk : ℕ) (m : M) : Mempool × M :=
  let allocSize := subAllocSize pagesize itemSize multiple
  let itemSize := mempoolItemSize itemSize
  ({ itemSize := itemSize, allocSize := allocSize,
     totalAllocItem := (allocSize + 2 ^ 64 - wordSize) % 2 ^ 64 / itemSize,
     reusePtr := 0, allocPtr := chunk, allocPoolPos := 0, refCount := 0 }, store m chunk 0)

/-- The sub-pool that serves a request for a rounded size: the one registered,
or a new one, which is NULL when there is no memory for it. -/
def varSubPool (env : VarEnv) (pagesize : ℕ) (v : VarMempool) (m : M) (itemSize : ℕ) :
    Except VarFault (VarMempool × M × Option Mempool) := do
  match ← v.get itemSize with
  | some pool => .ok (v, m, some pool)
  | none =>
    match (if env.record then env.chunk else none) with
    | none => .ok (v, m, none)
    | some chunk =>
      let created := subMempoolCreate pagesize itemSize v.multiple chunk m
      let v ← v.put itemSize created.1 env.head env.node
      .ok (v, created.2, some created.1)

/-- `var_mempool_alloc`. -/
def varMempoolAlloc (env : VarEnv) (pagesize : ℕ) (v : VarMempool) (m : M) (itemSize : ℕ) :
    Except VarFault (VarMempool × M × Option ℕ) := do
  let itemSize := varItemSize itemSize
  match ← varSubPool env pagesize v m itemSize with
  | (v, m, none) => .ok (v, m, none)
  | (v, m, some pool) =>
    let (pool, m, p) := mempoolAlloc env.refill pool m
    .ok (v.update itemSize pool, m, p)

/-- `var_mempool_free`. -/
def varMempoolFree (v : VarMempool) (m : M) (data dataSize : ℕ) :
    Except VarFault (VarMempool × M × ℤ) := do
  match ← v.get dataSize with
  | some pool =>
    let (pool, m) := mempoolFree pool m data
    .ok (v.update dataSize pool, m, 0)
  | none => .ok (v, m, -1)

end

/-- `var_mempool_calloc`: four bytes are zeroed, since the size given to `memset`
is that of the parameter `item_size`. -/
def varMempoolCalloc (env : VarEnv) (pagesize : ℕ) (v : VarMempool) (m : ByteMemory)
    (itemSize : ℕ) : Except VarFault (VarMempool × ByteMemory × Option ℕ) := do
  match ← varMempoolAlloc env pagesize v m itemSize with
  | (v, m, some p) => .ok (v, m.clear p 4, some p)
  | (v, m, none) => .ok (v, m, none)

/-! ## Runs -/

/-- A block handed out. -/
structure VarBlock where
  /-- Where it starts. -/
  address : ℕ
  /-- The size it was requested with. -/
  size : ℕ
  deriving DecidableEq

/-- The pool in memory, with the blocks handed out and those got from `malloc`. -/
structure VarState where
  /-- The pool. -/
  var : VarMempool
  /-- The memory. -/
  mem : ByteMemory
  /-- The live blocks. -/
  live : List VarBlock
  /-- The address and size of every block that `malloc` has returned. -/
  chunks : List (ℕ × ℕ)

/-- A call on the pool, or a byte written by a holder. -/
inductive VarOp
  | alloc (env : VarEnv) (itemSize : ℕ)
  | calloc (env : VarEnv) (itemSize : ℕ)
  | free (data dataSize : ℕ)
  | write (address : ℕ) (byte : UInt8)

/-- Two blocks with their sizes do not overlap. -/
def BlocksApart (a b : ℕ × ℕ) : Prop := a.1 + a.2 ≤ b.1 ∨ b.1 + b.2 ≤ a.1

instance (a b : ℕ × ℕ) : Decidable (BlocksApart a b) := by unfold BlocksApart; infer_instance

/-- A block as `malloc` returns it: aligned, inside the address space and apart
from the blocks that are in use. -/
def VarMallocBlock (inUse : List (ℕ × ℕ)) (block : ℕ × ℕ) : Prop :=
  block.1 ≠ 0 ∧ wordSize ∣ block.1 ∧ block.1 + block.2 ≤ 2 ^ 64 ∧
    ∀ other ∈ inUse, BlocksApart block other

instance (inUse : List (ℕ × ℕ)) (block : ℕ × ℕ) : Decidable (VarMallocBlock inUse block) := by
  unfold VarMallocBlock
  infer_instance

namespace VarState

/-- The blocks that a request for a rounded size gets from `malloc`: the first
chunk of a new sub-pool, or another chunk when the sub-pool has no item left. -/
def mallocs (pagesize : ℕ) (s : VarState) (env : VarEnv) (itemSize : ℕ) : List (ℕ × ℕ) :=
  match s.var.get itemSize with
  | .ok (some pool) =>
    if pool.CallsMalloc then env.refill.toList.map fun chunk => (chunk, pool.allocSize) else []
  | .ok none =>
    if env.record then
      env.chunk.toList.map fun chunk => (chunk, subAllocSize pagesize itemSize s.var.multiple)
    else []
  | .error _ => []

/-- The state after one operation. A size is an `unsigned int`; only live blocks
are freed, with the size they were requested with, and only bytes inside them are
written. -/
def step (pagesize : ℕ) (s : VarState) : VarOp → Option VarState
  | .alloc env itemSize =>
    let blocks := s.mallocs pagesize env (varItemSize itemSize)
    if itemSize < 2 ^ 32 ∧ ∀ block ∈ blocks, VarMallocBlock s.chunks block then
      match varMempoolAlloc env pagesize s.var s.mem itemSize with
      | .ok (v, m, some p) =>
        some { var := v, mem := m, live := ⟨p, itemSize⟩ :: s.live, chunks := blocks ++ s.chunks }
      | .ok (v, m, none) => some { s with var := v, mem := m, chunks := blocks ++ s.chunks }
      | .error _ => none
    else none
  | .calloc env itemSize =>
    let blocks := s.mallocs pagesize env (varItemSize itemSize)
    if itemSize < 2 ^ 32 ∧ ∀ block ∈ blocks, VarMallocBlock s.chunks block then
      match varMempoolCalloc env pagesize s.var s.mem itemSize with
      | .ok (v, m, some p) =>
        some { var := v, mem := m, live := ⟨p, itemSize⟩ :: s.live, chunks := blocks ++ s.chunks }
      | .ok (v, m, none) => some { s with var := v, mem := m, chunks := blocks ++ s.chunks }
      | .error _ => none
    else none
  | .free data dataSize =>
    if ⟨data, dataSize⟩ ∈ s.live then
      match varMempoolFree s.var s.mem data dataSize with
      | .ok (v, m, _) => some { s with var := v, mem := m, live := s.live.erase ⟨data, dataSize⟩ }
      | .error _ => none
    else none
  | .write address byte =>
    if ∃ b ∈ s.live, b.address ≤ address ∧ address < b.address + b.size then
      some { s with mem := s.mem.poke address byte }
    else none

/-- The transition relation of the pool and the holders of its blocks. -/
def Step (pagesize : ℕ) (s : VarState) (op : VarOp) (s' : VarState) : Prop :=
  s.step pagesize op = some s'

end VarState

end ThriftProxy
