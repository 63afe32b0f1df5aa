import ThriftProxy.MempoolSemantics
import ThriftProxy.Lib.ByteMemory
import ThriftProxy.Lib.Transition

/-!
# Allocator safety

Runs of a memory pool in byte-addressed memory: allocations that may find no
memory, frees of live items, and holders that write any bytes inside their live
items. Whatever they do, items stay inside their chunks, apart from each other
and from the links, and when none is live, `mempool_destroy` frees every chunk
exactly once.
-/

namespace ThriftProxy

open Machine WordMemory Transition

/-! ## Destruction -/

/-- The loop of `mempool_destroy` from a chunk on: the chunks it frees, in order. -/
def freeChunks {M : Type} [WordMemory M] : ℕ → M → ℕ → Option (List ℕ)
  | 0, _, _ => none
  | fuel + 1, m, allocPtr =>
    if allocPtr = 0 then some []
    else (freeChunks fuel m (load m allocPtr)).map fun freed => allocPtr :: freed

/-- `mempool_destroy`: the chunks it frees. A pool with live items is left alone. -/
def mempoolDestroy {M : Type} [WordMemory M] (fuel : ℕ) (pool : Mempool) (m : M) :
    Option (List ℕ) :=
  if pool.refCount ≤ 0 then freeChunks fuel m pool.allocPtr else some []

/-- The loop frees the blocks of the chain it walks. -/
theorem freeChunks_eq {M : Type} [WordMemory M] {m : M} {p : ℕ} {chunks : List ℕ}
    (h : Chain m p chunks) {fuel : ℕ} (hfuel : chunks.length < fuel) :
    freeChunks fuel m p = some chunks := by
  induction chunks generalizing p fuel with
  | nil =>
    obtain ⟨fuel, rfl⟩ : ∃ f, fuel = f + 1 := ⟨fuel - 1, by simp at hfuel; omega⟩
    have hp : p = 0 := h
    simp [freeChunks, hp]
  | cons a chunks ih =>
    obtain ⟨rfl, hne, hrest⟩ := h
    obtain ⟨fuel, rfl⟩ : ∃ f, fuel = f + 1 := ⟨fuel - 1, by simp at hfuel; omega⟩
    have hloop := ih hrest (by simpa using hfuel)
    simp [freeChunks, hne, hloop]

/-! ## Items, links and bytes -/

/-- `mempool_alloc` calls `malloc`. -/
def Mempool.CallsMalloc (pool : Mempool) : Prop :=
  pool.reusePtr = 0 ∧ pool.allocPoolPos = pool.totalAllocItem

instance (pool : Mempool) : Decidable pool.CallsMalloc := by
  unfold Mempool.CallsMalloc
  infer_instance

/-- What an allocation has done: it has reused a free item, found no memory,
carved the first item out of a new chunk, or carved the next item out of the
current one. -/
theorem mempoolAlloc_cases {M : Type} [WordMemory M] {malloc : Option ℕ} {pool pool' : Mempool}
    {m m' : M} {r : Option ℕ} (h : mempoolAlloc malloc pool m = (pool', m', r)) :
    (¬ pool.CallsMalloc ∧ m' = m ∧ r = some pool.reusePtr ∧
      pool' = mempoolIncRefcount { pool with reusePtr := load m pool.reusePtr }) ∨
    (pool.CallsMalloc ∧ malloc = none ∧ m' = m ∧ r = none ∧ pool' = pool) ∨
    (∃ chunk, pool.CallsMalloc ∧ malloc = some chunk ∧ m' = store m chunk pool.allocPtr ∧
      r = some ({ pool with allocPtr := chunk, allocPoolPos := 0 } : Mempool).carve.2 ∧
      pool' = ({ pool with allocPtr := chunk, allocPoolPos := 0 } : Mempool).carve.1) ∨
    (¬ pool.CallsMalloc ∧ m' = m ∧ r = some pool.carve.2 ∧ pool' = pool.carve.1) := by
  unfold mempoolAlloc at h
  by_cases hreuse : pool.reusePtr ≠ 0
  · rw [if_pos hreuse] at h
    simp only [Prod.mk.injEq] at h
    obtain ⟨rfl, rfl, rfl⟩ := h
    exact Or.inl ⟨fun hcalls => hreuse hcalls.1, rfl, rfl, rfl⟩
  · rw [if_neg hreuse] at h
    by_cases hpos : pool.allocPoolPos = pool.totalAllocItem
    · rw [if_pos hpos] at h
      have hcalls : pool.CallsMalloc := ⟨not_not.mp hreuse, hpos⟩
      cases malloc with
      | none =>
        simp only [Prod.mk.injEq] at h
        obtain ⟨rfl, rfl, rfl⟩ := h
        exact Or.inr (Or.inl ⟨hcalls, rfl, rfl, rfl, rfl⟩)
      | some chunk =>
        simp only [Prod.mk.injEq] at h
        obtain ⟨rfl, rfl, rfl⟩ := h
        exact Or.inr (Or.inr (Or.inl ⟨chunk, hcalls, rfl, rfl, rfl, rfl⟩))
    · rw [if_neg hpos] at h
      simp only [Prod.mk.injEq] at h
      obtain ⟨rfl, rfl, rfl⟩ := h
      exact Or.inr (Or.inr (Or.inr ⟨fun hcalls => hpos hcalls.2, rfl, rfl, rfl⟩))

/-- An allocation leaves the item size alone. -/
theorem mempoolAlloc_itemSize {M : Type} [WordMemory M] {malloc : Option ℕ}
    {pool pool' : Mempool} {m m' : M} {r : Option ℕ}
    (h : mempoolAlloc malloc pool m = (pool', m', r)) : pool'.itemSize = pool.itemSize := by
  obtain ⟨-, -, -, hpool⟩ | ⟨-, -, -, -, hpool⟩ | ⟨_, -, -, -, -, hpool⟩ | ⟨-, -, -, hpool⟩ :=
    mempoolAlloc_cases h
  all_goals simp only [hpool, mempoolIncRefcount, Mempool.carve]

/-- A failed allocation leaves the pool and the memory alone. -/
theorem mempoolAlloc_none {M : Type} [WordMemory M] {malloc : Option ℕ} {pool pool' : Mempool}
    {m m' : M} (h : mempoolAlloc malloc pool m = (pool', m', none)) : pool' = pool ∧ m' = m := by
  obtain ⟨-, -, hsome, -⟩ | ⟨-, -, hmem, -, hpool⟩ | ⟨_, -, -, -, hsome, -⟩ | ⟨-, -, hsome, -⟩ :=
    mempoolAlloc_cases h
  · cases hsome
  · exact ⟨hpool, hmem⟩
  · cases hsome
  · cases hsome

namespace Mempool.Holds

variable {M : Type} [WordMemory M] {pool : Mempool} {m m' : M} {older free live : List ℕ}

/-- What leaves the links of the chunks and of the free items alone keeps the pool. -/
theorem congr (h : pool.Holds m older free live)
    (hchunks : ∀ chunk ∈ pool.allocPtr :: older, load m' chunk = load m chunk)
    (hfree : ∀ a ∈ free, load m' a = load m a) : pool.Holds m' older free live :=
  { h with
    chunk_chain := h.chunk_chain.congr hchunks
    free_chain := h.free_chain.congr hfree }

/-- An item lies inside its chunk, behind the chunk's link. -/
theorem inside (h : pool.Holds m older free live) {a : ℕ} (ha : a ∈ free ++ live) :
    ∃ chunk ∈ pool.allocPtr :: older,
      chunk + wordSize ≤ a ∧ a + pool.itemSize ≤ chunk + pool.allocSize := by
  obtain ⟨chunk, hchunk, pos, hpos, rfl⟩ := h.location ha
  refine ⟨chunk, hchunk, ?_, h.sized.itemAt_le chunk hpos⟩
  unfold itemAt
  omega

/-- An item is disjoint from the links of all chunks. -/
theorem off_links (h : pool.Holds m older free live) {a chunk : ℕ} (ha : a ∈ free ++ live)
    (hchunk : chunk ∈ pool.allocPtr :: older) :
    chunk + wordSize ≤ a ∨ a + pool.itemSize ≤ chunk := by
  obtain ⟨own, hown, hstart, hend⟩ := h.inside ha
  by_cases heq : own = chunk
  · exact Or.inl (heq ▸ hstart)
  · have hapart := h.chunk_apart.forall hown hchunk heq
    have hitems := h.sized.items_le
    unfold Apart at hapart
    omega

/-- The chunks lie at different addresses. -/
theorem chunks_nodup (h : pool.Holds m older free live) : (pool.allocPtr :: older).Nodup := by
  have hitems := h.sized.items_le
  exact h.chunk_apart.imp fun hab => hab.ne (by unfold wordSize at hitems; omega)

/-- The chain of chunks after an allocation that returns an item. -/
theorem chunks_alloc (h : pool.Holds m older free live) {malloc r : Option ℕ}
    (hfresh : ∀ block ∈ malloc, pool.Fresh m block) {pool' : Mempool}
    (halloc : mempoolAlloc malloc pool m = (pool', m', r)) (hsome : r.isSome)
    {chunks : List ℕ} (hchain : Chain m' pool'.allocPtr chunks) :
    chunks = if pool.CallsMalloc then malloc.toList ++ pool.allocPtr :: older
      else pool.allocPtr :: older := by
  obtain ⟨hcalls, hmem, -, hpool⟩ | ⟨-, -, -, hnone, -⟩ | ⟨chunk, hcalls, hmalloc, hmem, -, hpool⟩ |
    ⟨hcalls, hmem, -, hpool⟩ := mempoolAlloc_cases halloc
  · rw [hmem, hpool] at hchain
    rw [if_neg hcalls]
    exact hchain.unique h.chunk_chain
  · rw [hnone] at hsome
    cases hsome
  · rw [hmem, hpool] at hchain
    rw [if_pos hcalls, hmalloc]
    exact hchain.unique (h.extend hcalls.2 (hfresh chunk hmalloc)).chunk_chain
  · rw [hmem, hpool] at hchain
    rw [if_neg hcalls]
    exact hchain.unique h.chunk_chain

/-- A holder may write any bytes inside a live item. -/
theorem congr_item {m m' : ByteMemory} (h : pool.Holds m older free live) {a : ℕ} (ha : a ∈ live)
    (hsame : ∀ x, x < a ∨ a + pool.itemSize ≤ x → m' x = m x) :
    pool.Holds m' older free live := by
  have hword := h.sized.word_le
  have hmem : a ∈ free ++ live := List.mem_append_right _ ha
  unfold wordSize at hword
  apply h.congr
  · intro chunk hchunk
    have hlink := h.off_links hmem hchunk
    unfold wordSize at hlink
    apply ByteMemory.load_congr
    intro x hlow hhigh
    exact hsame x (by omega)
  · intro c hc
    have hne : a ≠ c := by
      rintro rfl
      exact (List.nodup_append.mp h.nodup).2.2 _ hc _ ha rfl
    have hapart := h.apart.forall hmem (List.mem_append_left _ hc) hne
    unfold Apart at hapart
    apply ByteMemory.load_congr
    intro x hlow hhigh
    exact hsame x (by omega)

/-- A holder may write any byte inside a live item. -/
theorem poke {m : ByteMemory} (h : pool.Holds m older free live) {a x : ℕ} (ha : a ∈ live)
    (hstart : a ≤ x) (hend : x < a + pool.itemSize) (b : UInt8) :
    pool.Holds (m.poke x b) older free live := by
  refine h.congr_item ha ?_
  intro other hother
  exact Function.update_of_ne (by omega) _ _

end Mempool.Holds

/-! ## Runs -/

/-- A pool in memory, with the items handed out and the blocks got from `malloc`. -/
structure MempoolState where
  /-- The pool. -/
  pool : Mempool
  /-- The memory. -/
  mem : ByteMemory
  /-- The live items. -/
  live : List ℕ
  /-- The blocks that `malloc` has returned to the pool. -/
  chunks : List ℕ

/-- A call on the pool, with the block that `malloc` returns if it is called, or
a byte written by a holder. -/
inductive MempoolOp
  | alloc (malloc : Option ℕ)
  | free (data : ℕ)
  | write (address : ℕ) (byte : UInt8)

/-- A block as `malloc` returns it: aligned, inside the address space and apart
from the blocks that are in use. -/
def MallocBlock (size : ℕ) (inUse : List ℕ) (block : ℕ) : Prop :=
  block ≠ 0 ∧ wordSize ∣ block ∧ block + size ≤ 2 ^ 64 ∧ ∀ other ∈ inUse, Apart size block other

instance (size : ℕ) (inUse : List ℕ) (block : ℕ) : Decidable (MallocBlock size inUse block) := by
  unfold MallocBlock
  infer_instance

namespace MempoolState

/-- `mempool_create`. It fails when `calloc` or `malloc` does. -/
def create (pagesize itemSize allocSize : ℕ) (mem : ByteMemory) (calloc : Bool)
    (malloc : Option ℕ) : Option MempoolState :=
  if calloc then
    malloc.map fun chunk =>
      let created := mempoolCreate pagesize itemSize allocSize chunk mem
      { pool := created.1, mem := created.2, live := [], chunks := [chunk] }
  else none

/-- The state after one operation. Only live items are freed and written to. -/
def step (s : MempoolState) : MempoolOp → Option MempoolState
  | .alloc malloc =>
    if ∀ block ∈ malloc, MallocBlock s.pool.allocSize s.chunks block then
      let chunks := if s.pool.CallsMalloc then malloc.toList ++ s.chunks else s.chunks
      match mempoolAlloc malloc s.pool s.mem with
      | (pool, mem, some p) =>
        some { pool := pool, mem := mem, live := p :: s.live, chunks := chunks }
      | (pool, mem, none) => some { s with pool := pool, mem := mem }
    else none
  | .free data =>
    if data ∈ s.live then
      let freed := mempoolFree s.pool s.mem data
      some { s with pool := freed.1, mem := freed.2, live := s.live.erase data }
    else none
  | .write address byte =>
    if ∃ a ∈ s.live, a ≤ address ∧ address < a + s.pool.itemSize then
      some { s with mem := s.mem.poke address byte }
    else none

/-- The transition relation of a pool and the holders of its items. -/
def Step (s : MempoolState) (op : MempoolOp) (s' : MempoolState) : Prop := s.step op = some s'

/-- What the pool promises in every state. -/
structure Safe (s : MempoolState) : Prop where
  /-- A live item lies inside a chunk, behind the chunk's link. -/
  inside : ∀ a ∈ s.live, ∃ chunk ∈ s.chunks,
    chunk + wordSize ≤ a ∧ a + s.pool.itemSize ≤ chunk + s.pool.allocSize
  /-- A live item is aligned. -/
  aligned : ∀ a ∈ s.live, wordSize ∣ a
  /-- The live items are disjoint. -/
  disjoint : s.live.Pairwise (Apart s.pool.itemSize)
  /-- The live items are disjoint from the links of all chunks. -/
  off_links : ∀ a ∈ s.live, ∀ chunk ∈ s.chunks,
    chunk + wordSize ≤ a ∨ a + s.pool.itemSize ≤ chunk
  /-- A failed allocation changes nothing. -/
  failed : ∀ malloc pool mem, mempoolAlloc malloc s.pool s.mem = (pool, mem, none) →
    pool = s.pool ∧ mem = s.mem
  /-- The live items are counted. -/
  count : s.live.length < 2 ^ 31 → s.pool.refCount = s.live.length
  /-- With no live item, destroying the pool frees every chunk once. -/
  destroyed : s.live = [] → s.chunks.Nodup ∧ ∃ freed, freed.Perm s.chunks ∧
    ∀ fuel, s.chunks.length < fuel → mempoolDestroy fuel s.pool s.mem = some freed

/-- The invariant: the blocks got from `malloc` are the chunks of the pool, and
all addresses are aligned. -/
structure Kept (itemSize : ℕ) (s : MempoolState) : Prop where
  /-- The pool's chunks are the blocks got from `malloc`. -/
  holds : ∃ older free, s.pool.Holds s.mem older free s.live ∧
    s.chunks = s.pool.allocPtr :: older
  /-- The chunks are aligned. -/
  chunk_aligned : ∀ chunk ∈ s.chunks, wordSize ∣ chunk
  /-- The items have the rounded size. -/
  item_size : s.pool.itemSize = mempoolItemSize itemSize

/-- A size rounded up to a multiple of a unit is one. -/
theorem dvd_roundUp (size unit : ℕ) : unit ∣ roundUp size unit := by
  unfold roundUp
  have hsplit := Nat.div_add_mod size unit
  split
  · refine ⟨size / unit + 1, ?_⟩
    rw [Nat.mul_add, Nat.mul_one]
    omega
  · rename_i hmod
    exact Nat.dvd_of_mod_eq_zero (not_not.mp hmod)

/-- The rounded item size holds the item and is a multiple of the word size. -/
theorem mempoolItemSize_spec (itemSize : ℕ) :
    itemSize ≤ mempoolItemSize itemSize ∧ wordSize ∣ mempoolItemSize itemSize :=
  ⟨(le_max_left itemSize wordSize).trans (le_roundUp _ (by decide)), dvd_roundUp _ _⟩

namespace Kept

variable {itemSize : ℕ}

/-- What `malloc` returns is fresh to the pool. -/
theorem fresh {s : MempoolState} (h : s.Kept itemSize) {block : ℕ}
    (hblock : MallocBlock s.pool.allocSize s.chunks block) : s.pool.Fresh s.mem block := by
  obtain ⟨older, free, hholds, hchunks⟩ := h.holds
  obtain ⟨hne, -, hle, hapart⟩ := hblock
  refine ⟨hne, hle, ?_⟩
  intro chunks hchain other hother
  rw [hchain.unique hholds.chunk_chain, ← hchunks] at hother
  exact hapart other hother

/-- An allocation keeps the invariant. -/
theorem alloc {s : MempoolState} (h : s.Kept itemSize) {malloc : Option ℕ} {pool : Mempool}
    {mem : ByteMemory} {a : ℕ}
    (hmalloc : ∀ block ∈ malloc, MallocBlock s.pool.allocSize s.chunks block)
    (halloc : mempoolAlloc malloc s.pool s.mem = (pool, mem, some a)) :
    Kept itemSize
      { pool := pool, mem := mem, live := a :: s.live
        chunks := if s.pool.CallsMalloc then malloc.toList ++ s.chunks else s.chunks } := by
  obtain ⟨older, free, hholds, hchunks⟩ := h.holds
  have hfresh : ∀ block ∈ malloc, s.pool.Fresh s.mem block :=
    fun block hblock => h.fresh (hmalloc block hblock)
  obtain ⟨⟨older', free', hholds'⟩, -⟩ := hholds.alloc hfresh halloc
  have hsize : pool.itemSize = mempoolItemSize itemSize :=
    (mempoolAlloc_itemSize halloc).trans h.item_size
  have hlinked := hholds.chunks_alloc hfresh halloc (by simp) hholds'.chunk_chain
  rw [← hchunks] at hlinked
  refine ⟨⟨older', free', hholds', hlinked.symm⟩, ?_, hsize⟩
  intro chunk hchunk
  split at hchunk
  · obtain hnew | hold := List.mem_append.mp hchunk
    · exact (hmalloc chunk (Option.mem_toList.mp hnew)).2.1
    · exact h.chunk_aligned chunk hold
  · exact h.chunk_aligned chunk hchunk

/-- Freeing a live item keeps the invariant. -/
theorem free {s : MempoolState} (h : s.Kept itemSize) {data : ℕ} (hdata : data ∈ s.live) :
    Kept itemSize
      { s with
        pool := (mempoolFree s.pool s.mem data).1, mem := (mempoolFree s.pool s.mem data).2
        live := s.live.erase data } := by
  obtain ⟨older, free, hholds, hchunks⟩ := h.holds
  have hfreed := (hholds.perm (List.perm_cons_erase hdata)).mempoolFree
  exact ⟨⟨older, data :: free, hfreed, hchunks⟩, h.chunk_aligned, h.item_size⟩

/-- Every operation keeps the invariant. -/
theorem step {s s' : MempoolState} {op : MempoolOp} (h : s.Kept itemSize) (hstep : Step s op s') :
    s'.Kept itemSize := by
  unfold Step at hstep
  cases op with
  | alloc malloc =>
    simp only [MempoolState.step] at hstep
    split at hstep
    · rename_i hmalloc
      split at hstep
      · rename_i pool mem p halloc
        obtain rfl := Option.some.inj hstep
        exact h.alloc hmalloc halloc
      · rename_i pool mem halloc
        obtain rfl := Option.some.inj hstep
        obtain ⟨rfl, rfl⟩ := mempoolAlloc_none halloc
        exact h
    · cases hstep
  | free data =>
    simp only [MempoolState.step] at hstep
    split at hstep
    · obtain rfl := Option.some.inj hstep
      exact h.free ‹_›
    · cases hstep
  | write address byte =>
    simp only [MempoolState.step] at hstep
    split at hstep
    · rename_i hinside
      obtain ⟨a, ha, hstart, hend⟩ := hinside
      obtain rfl := Option.some.inj hstep
      obtain ⟨older, free, hholds, hchunks⟩ := h.holds
      exact ⟨⟨older, free, hholds.poke ha hstart hend byte, hchunks⟩, h.chunk_aligned,
        h.item_size⟩
    · cases hstep

/-- The invariant is what the pool promises. -/
theorem safe {s : MempoolState} (h : s.Kept itemSize) : s.Safe := by
  obtain ⟨older, free, hholds, hchunks⟩ := h.holds
  have hlive : ∀ a ∈ s.live, a ∈ free ++ s.live := fun a ha => List.mem_append_right _ ha
  constructor
  · intro a ha
    rw [hchunks]
    exact hholds.inside (hlive a ha)
  · intro a ha
    obtain ⟨chunk, hchunk, pos, -, rfl⟩ := hholds.location (hlive a ha)
    have hitem : wordSize ∣ s.pool.itemSize := by
      rw [h.item_size]
      exact (mempoolItemSize_spec itemSize).2
    have hchunk : wordSize ∣ chunk := h.chunk_aligned chunk (by rw [hchunks]; exact hchunk)
    exact Nat.dvd_add (Nat.dvd_add hchunk (dvd_refl _)) (Dvd.dvd.mul_right hitem pos)
  · exact (List.pairwise_append.mp hholds.apart).2.1
  · intro a ha chunk hchunk
    rw [hchunks] at hchunk
    exact hholds.off_links (hlive a ha) hchunk
  · exact fun malloc pool mem halloc => mempoolAlloc_none halloc
  · intro hlength
    rw [hholds.count, wrapInt_eq_self (by omega) (by omega)]
  · intro hempty
    refine ⟨by rw [hchunks]; exact hholds.chunks_nodup, s.chunks, List.Perm.refl _, ?_⟩
    intro fuel hfuel
    have hcount : s.pool.refCount ≤ 0 := by
      rw [hholds.count, hempty]
      decide
    have hchain : Chain s.mem s.pool.allocPtr s.chunks := by
      rw [hchunks]
      exact hholds.chunk_chain
    rw [mempoolDestroy, if_pos hcount, freeChunks_eq hchain hfuel]

end Kept

/-- A new pool meets the invariant. -/
theorem kept_create {pagesize itemSize allocSize chunk : ℕ} {mem : ByteMemory}
    {s : MempoolState} (hpage : 0 < pagesize)
    (hchunk : MallocBlock (mempoolAllocSize pagesize (mempoolItemSize itemSize) allocSize) [] chunk)
    (hcreate : create pagesize itemSize allocSize mem true (some chunk) = some s) :
    s.Kept itemSize := by
  obtain ⟨hne, hdvd, hle, -⟩ := hchunk
  obtain rfl := Option.some.inj hcreate
  refine ⟨⟨[], [], holds_mempoolCreate itemSize allocSize mem hpage hne hle, rfl⟩, ?_, rfl⟩
  intro other hother
  rw [List.mem_singleton.mp hother]
  exact hdvd

end MempoolState

/-- **Allocator safety.** For every item and chunk size, in every state that
allocations, frees of live items and writes inside live items lead to, the pool
keeps its promises, with items of the rounded size. -/
theorem mempool_safe {pagesize itemSize allocSize : ℕ} {mem : ByteMemory} {calloc : Bool}
    {malloc : Option ℕ} {s₀ s : MempoolState} {ops : List MempoolOp} (hpage : 0 < pagesize)
    (hmalloc : ∀ chunk ∈ malloc,
      MallocBlock (mempoolAllocSize pagesize (mempoolItemSize itemSize) allocSize) [] chunk)
    (hcreate : MempoolState.create pagesize itemSize allocSize mem calloc malloc = some s₀)
    (hrun : Run MempoolState.Step s₀ ops s) :
    s.Safe ∧ s.pool.itemSize = mempoolItemSize itemSize ∧ itemSize ≤ s.pool.itemSize ∧
      wordSize ∣ s.pool.itemSize := by
  have hkept : s₀.Kept itemSize := by
    cases calloc with
    | false => cases hcreate
    | true =>
      cases malloc with
      | none => cases hcreate
      | some chunk => exact MempoolState.kept_create hpage (hmalloc chunk rfl) hcreate
  have hrunKept := hrun.invariant (fun _ _ _ h hstep => h.step hstep) hkept
  refine ⟨hrunKept.safe, hrunKept.item_size, ?_, ?_⟩
  · rw [hrunKept.item_size]
    exact (MempoolState.mempoolItemSize_spec itemSize).1
  · rw [hrunKept.item_size]
    exact (MempoolState.mempoolItemSize_spec itemSize).2

/-- A new pool in zeroed memory, with items of 24 bytes. -/
def smallPool : MempoolState :=
  let created := mempoolCreate 4096 20 0 65536 (fun _ => 0 : ByteMemory)
  { pool := created.1, mem := created.2, live := [], chunks := [65536] }

/-- An item is handed out and written to, another is handed out, the first is
freed and handed out again. -/
def smallPoolOps : List MempoolOp :=
  [.alloc none, .write 65550 7, .alloc none, .free 65544, .alloc none]

/-- The guarantee at a small pool, two of whose items stay in use. -/
theorem mempool_safe_smallPool :
    ∃ s, Run MempoolState.Step smallPool smallPoolOps s ∧ s.live = [65544, 65568] ∧ s.Safe := by
  have hlive : (smallPoolOps.foldlM MempoolState.step smallPool).map MempoolState.live =
      some [65544, 65568] := by decide
  obtain ⟨s, hs, hlive⟩ := Option.map_eq_some_iff.mp hlive
  have hrun : Run MempoolState.Step smallPool smallPoolOps s := run_iff_foldlM.mpr hs
  have hcreate : MempoolState.create 4096 20 0 (fun _ => 0) true (some 65536) = some smallPool :=
    rfl
  exact ⟨s, hrun, hlive, (mempool_safe (by decide) (by decide) hcreate hrun).1⟩

end ThriftProxy
