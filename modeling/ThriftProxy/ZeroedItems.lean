import ThriftProxy.VarMempoolSemantics

/-!
# Items that should be zeroed

`mempool_calloc` and `var_mempool_calloc` give `memset` the size of a member and
of a parameter in place of the item's, so they zero the first eight and the first
four bytes. What lies behind is what the item held before: the bytes its last
holder left there, or those of a chunk as `malloc` returned it.
-/

namespace ThriftProxy

open Machine WordMemory Transition

/-- The bytes of a memory set to zero are zero, and the others are left alone. -/
theorem clear_apply (m : ByteMemory) (a len x : ℕ) :
    m.clear a len x = if a ≤ x ∧ x < a + len then 0 else m x := rfl

/-- Storing a null pointer zeroes eight bytes. -/
theorem store_zero_eq_clear (m : ByteMemory) (a : ℕ) : store m a 0 = m.clear a wordSize := by
  funext x
  change (if a ≤ x ∧ x < a + 8 then (encodeLE 8 0).getD (x - a) 0 else m x) =
    if a ≤ x ∧ x < a + 8 then 0 else m x
  have hnull : encodeLE 8 0 = List.replicate 8 0 := by decide
  rw [hnull, List.getD_eq_getElem?_getD, List.getElem?_getD_replicate_default_eq]

/-- After `memset` of `len` bytes the first `size` bytes are zero exactly when
the bytes behind them were. -/
theorem zero_clear_iff (m : ByteMemory) (p len size : ℕ) :
    (∀ i < size, m.clear p len (p + i) = 0) ↔ ∀ i, len ≤ i → i < size → m (p + i) = 0 := by
  constructor
  · intro h i hlow hi
    have hout : ¬ (p ≤ p + i ∧ p + i < p + len) := by omega
    simpa only [clear_apply, hout, if_false] using h i hi
  · intro h i hi
    rw [clear_apply]
    split
    · rfl
    · exact h i (by omega) hi

/-! ## Items of one size -/

namespace Mempool

/-- The item that an allocation hands out next: the first free one, else the next
of the current chunk, else the first of a new one. -/
def nextItem (pool : Mempool) (malloc : Option ℕ) : Option ℕ :=
  if pool.reusePtr ≠ 0 then some pool.reusePtr
  else if pool.allocPoolPos = pool.totalAllocItem then malloc.map (· + wordSize)
  else some (pool.itemAt pool.allocPtr pool.allocPoolPos)

/-- An allocation returns the next item and changes nothing from there on. -/
theorem mempoolAlloc_nextItem {malloc : Option ℕ} {pool pool' : Mempool} {m m' : ByteMemory}
    {r : Option ℕ} (h : mempoolAlloc malloc pool m = (pool', m', r)) :
    r = pool.nextItem malloc ∧ ∀ p ∈ r, ∀ x, p ≤ x → m' x = m x := by
  unfold mempoolAlloc at h
  unfold nextItem
  by_cases hreuse : pool.reusePtr ≠ 0
  · rw [if_pos hreuse] at h ⊢
    simp only [Prod.mk.injEq] at h
    obtain ⟨-, rfl, rfl⟩ := h
    exact ⟨rfl, fun _ _ _ _ => rfl⟩
  · rw [if_neg hreuse] at h ⊢
    by_cases hpos : pool.allocPoolPos = pool.totalAllocItem
    · rw [if_pos hpos] at h ⊢
      cases malloc with
      | none =>
        simp only [Prod.mk.injEq] at h
        obtain ⟨-, rfl, rfl⟩ := h
        exact ⟨rfl, fun _ hp => by cases hp⟩
      | some chunk =>
        simp only [Prod.mk.injEq] at h
        obtain ⟨-, rfl, rfl⟩ := h
        refine ⟨rfl, ?_⟩
        intro p hp x hx
        obtain rfl := Option.some.inj hp
        -- the link of the new chunk lies in front of its first item
        change m.setWord chunk pool.allocPtr x = m x
        have hout : ¬ (chunk ≤ x ∧ x < chunk + 8) := by
          change chunk + 8 + pool.itemSize * 0 ≤ x at hx
          omega
        simp only [ByteMemory.setWord, hout, if_false]
    · rw [if_neg hpos] at h ⊢
      simp only [Prod.mk.injEq] at h
      obtain ⟨-, rfl, rfl⟩ := h
      exact ⟨rfl, fun _ _ _ _ => rfl⟩

end Mempool

/-- An operation on a pool, `mempool_calloc` among them. -/
inductive CallocOp
  | other (op : MempoolOp)
  | calloc (malloc : Option ℕ)

namespace MempoolState

/-- The state after one operation. -/
def stepCalloc (s : MempoolState) : CallocOp → Option MempoolState
  | .other op => s.step op
  | .calloc malloc =>
    if ∀ block ∈ malloc, MallocBlock s.pool.allocSize s.chunks block then
      let chunks := if s.pool.CallsMalloc then malloc.toList ++ s.chunks else s.chunks
      match mempoolCalloc malloc s.pool s.mem with
      | (pool, mem, some p) =>
        some { pool := pool, mem := mem, live := p :: s.live, chunks := chunks }
      | (pool, mem, none) => some { s with pool := pool, mem := mem }
    else none

/-- The transition relation with `mempool_calloc`. -/
def StepCalloc (s : MempoolState) (op : CallocOp) (s' : MempoolState) : Prop :=
  s.stepCalloc op = some s'

/-- The calls that return zeroed items: the first `size` bytes of an item
returned by `mempool_calloc` are zero. -/
def Zeroes (size : ℕ) (s : MempoolState) : CallocOp → Prop
  | .calloc malloc => ∀ pool mem p, mempoolCalloc malloc s.pool s.mem = (pool, mem, some p) →
    ∀ i < size, mem (p + i) = 0
  | .other _ => True

/-- The calls that find a clean item: the bytes of the next item are zero already
behind its first word. -/
def FindsClean (size : ℕ) (s : MempoolState) : CallocOp → Prop
  | .calloc malloc => ∀ p ∈ s.pool.nextItem malloc,
    ∀ i, wordSize ≤ i → i < size → s.mem (p + i) = 0
  | .other _ => True

/-- A call returns a zeroed item exactly when it finds a clean one. -/
theorem zeroes_iff (size : ℕ) (s : MempoolState) (op : CallocOp) :
    s.Zeroes size op ↔ s.FindsClean size op := by
  cases op with
  | other op => exact Iff.rfl
  | calloc malloc =>
    simp only [Zeroes, FindsClean, mempoolCalloc]
    rcases hresult : mempoolAlloc malloc s.pool s.mem with ⟨pool', m', r⟩
    obtain ⟨rfl, hsame⟩ := Mempool.mempoolAlloc_nextItem hresult
    cases hnext : s.pool.nextItem malloc with
    | none => simp
    | some p =>
      simp only [Prod.mk.injEq, Option.some.injEq, Option.mem_some_iff, forall_eq']
      constructor
      · intro h i hlow hi
        have hzero := (zero_clear_iff m' p wordSize size).mp
          (fun j hj => by rw [← store_zero_eq_clear]; exact h _ _ p ⟨rfl, rfl, rfl⟩ j hj) i hlow hi
        rwa [hsame p hnext _ (by omega)] at hzero
      · rintro h pool mem q ⟨rfl, rfl, rfl⟩ i hi
        rw [store_zero_eq_clear]
        refine (zero_clear_iff m' p wordSize size).mpr ?_ i hi
        intro j hlow hj
        rw [hsame p hnext _ (by omega)]
        exact h j hlow hj

end MempoolState

/-! ## Items of any size -/

namespace VarState

/-- The block that a request for `size` bytes is given next: the next item of the
sub-pool registered under the rounded size, else the first of a new one. -/
def nextBlock (s : VarState) (env : VarEnv) (size : ℕ) : Option ℕ :=
  match s.var.get (varItemSize size) with
  | .ok (some pool) => pool.nextItem env.refill
  | .ok none => if env.record then env.chunk.map (· + wordSize) else none
  | .error _ => none

/-- The calls that return zeroed blocks: the bytes of a block returned by
`var_mempool_calloc` are zero. -/
def Zeroes (pagesize : ℕ) (s : VarState) : VarOp → Prop
  | .calloc env size => ∀ v mem p,
    varMempoolCalloc env pagesize s.var s.mem size = .ok (v, mem, some p) →
      ∀ i < size, mem (p + i) = 0
  | _ => True

/-- The calls that find a clean block: the bytes of the next block are zero
already behind the first four. -/
def FindsClean (s : VarState) : VarOp → Prop
  | .calloc env size => ∀ p ∈ s.nextBlock env size,
    ∀ i, 4 ≤ i → i < size → s.mem (p + i) = 0
  | _ => True

/-- The first item of a new sub-pool. -/
theorem nextItem_subMempoolCreate {pagesize itemSize chunk : ℕ} {multiple : ℤ} {m : ByteMemory}
    (hpage : PageSize pagesize) (hitem : itemSize < 2 ^ 32) (malloc : Option ℕ) :
    (subMempoolCreate pagesize itemSize multiple chunk m).1.nextItem malloc =
      some (chunk + wordSize) := by
  have hcalls := subMempoolCreate_not_callsMalloc multiple chunk m hpage hitem
  have hreuse : ¬ (subMempoolCreate pagesize itemSize multiple chunk m).1.reusePtr ≠ 0 :=
    not_not.mpr rfl
  rw [Mempool.nextItem, if_neg hreuse, if_neg fun hpos => hcalls ⟨rfl, hpos⟩]
  rfl

/-- `var_mempool_alloc` returns the next block and changes nothing from there on. -/
theorem varMempoolAlloc_nextBlock {pagesize size : ℕ} {s : VarState} {env : VarEnv}
    {v : VarMempool} {m : ByteMemory} {r : Option ℕ} (hpage : PageSize pagesize)
    (hsize : size < 2 ^ 32)
    (h : varMempoolAlloc env pagesize s.var s.mem size = .ok (v, m, r)) :
    r = s.nextBlock env size ∧ ∀ p ∈ r, ∀ x, p ≤ x → m x = s.mem x := by
  unfold varMempoolAlloc varSubPool at h
  unfold nextBlock
  cases hget : s.var.get (varItemSize size) with
  | error e => simp [hget, bind, Except.bind] at h
  | ok found =>
    cases found with
    | some pool =>
      simp only [hget, bind, Except.bind, Except.ok.injEq, Prod.mk.injEq] at h
      obtain ⟨-, rfl, rfl⟩ := h
      exact Mempool.mempoolAlloc_nextItem rfl
    | none =>
      simp only [hget, bind, Except.bind] at h
      cases hchunk : (if env.record then env.chunk else none) with
      | none =>
        simp only [hchunk, Except.ok.injEq, Prod.mk.injEq] at h
        obtain ⟨-, -, rfl⟩ := h
        refine ⟨?_, fun p hp => by cases hp⟩
        cases hrecord : env.record with
        | false => rfl
        | true => simp [show env.chunk = none by simpa [hrecord] using hchunk]
      | some chunk =>
        simp only [hchunk] at h
        cases hput : s.var.put (varItemSize size)
            (subMempoolCreate pagesize (varItemSize size) s.var.multiple chunk s.mem).1 env.head
            env.node with
        | error e => simp [hput] at h
        | ok v' =>
          rcases halloc : mempoolAlloc env.refill
            (subMempoolCreate pagesize (varItemSize size) s.var.multiple chunk s.mem).1
            (subMempoolCreate pagesize (varItemSize size) s.var.multiple chunk s.mem).2 with
            ⟨pool, m', r'⟩
          simp only [hput, halloc, Except.ok.injEq, Prod.mk.injEq] at h
          obtain ⟨-, rfl, rfl⟩ := h
          obtain ⟨hnext, hsame⟩ := Mempool.mempoolAlloc_nextItem halloc
          rw [nextItem_subMempoolCreate hpage (varItemSize_lt hsize)] at hnext
          have hfirst : (if env.record then env.chunk.map (· + wordSize) else none) =
              some (chunk + wordSize) := by
            cases hrecord : env.record with
            | false => simp [hrecord] at hchunk
            | true => simp [show env.chunk = some chunk by simpa [hrecord] using hchunk]
          refine ⟨hnext.trans hfirst.symm, ?_⟩
          intro p hp x hx
          rw [hsame p hp x hx]
          obtain rfl : chunk + wordSize = p := Option.some.inj (hnext.symm.trans hp)
          -- the link of the new chunk lies in front of its first item
          change s.mem.setWord chunk 0 x = s.mem x
          have hout : ¬ (chunk ≤ x ∧ x < chunk + 8) := by
            unfold wordSize at hx
            omega
          simp only [ByteMemory.setWord, hout, if_false]

/-- A call that takes place returns a zeroed block exactly when it finds a clean one. -/
theorem zeroes_iff {pagesize : ℕ} {s s' : VarState} {op : VarOp} (hpage : PageSize pagesize)
    (hstep : s.Step pagesize op s') : s.Zeroes pagesize op ↔ s.FindsClean op := by
  cases op with
  | alloc env size => exact Iff.rfl
  | free data size => exact Iff.rfl
  | write address byte => exact Iff.rfl
  | calloc env size =>
    have hsize : size < 2 ^ 32 := by
      by_contra hlarge
      simp only [Step, step] at hstep
      rw [if_neg fun hguard => hlarge hguard.1] at hstep
      cases hstep
    simp only [Zeroes, FindsClean, varMempoolCalloc]
    cases hresult : varMempoolAlloc env pagesize s.var s.mem size with
    | error e =>
      -- a dangling list head stops the run
      simp [Step, step, varMempoolCalloc, hresult, bind, Except.bind] at hstep
    | ok result =>
      obtain ⟨v, m, r⟩ := result
      obtain ⟨rfl, hsame⟩ := varMempoolAlloc_nextBlock hpage hsize hresult
      cases hnext : s.nextBlock env size with
      | none => simp [bind, Except.bind]
      | some p =>
        simp only [bind, Except.bind, Except.ok.injEq, Prod.mk.injEq, Option.some.injEq,
          Option.mem_some_iff, forall_eq']
        constructor
        · intro h i hlow hi
          have hzero := (zero_clear_iff m p 4 size).mp (h _ _ p ⟨rfl, rfl, rfl⟩) i hlow hi
          rwa [hsame p hnext _ (by omega)] at hzero
        · rintro h v' mem q ⟨rfl, rfl, rfl⟩
          refine (zero_clear_iff m p 4 size).mpr ?_
          intro i hlow hi
          rw [hsame p hnext _ (by omega)]
          exact h i hlow hi

end VarState

/-! ## Runs -/

/-- **Zeroed allocation.** In every run of a pool, every item returned by
`mempool_calloc` is zero in its first `itemSize` bytes if and only if every call
finds the next item clean behind its first word; and in every run of a
variable-size pool, every block returned by `var_mempool_calloc` is zero as far as
it was asked for if and only if every call finds the next block clean behind its
first four bytes. -/
theorem calloc_zeroes_iff (itemSize : ℕ) (s : MempoolState) (ops : List CallocOp) {pagesize : ℕ}
    (hpage : PageSize pagesize) (vs : VarState) (vops : List VarOp) :
    (Along MempoolState.StepCalloc (MempoolState.Zeroes itemSize) s ops ↔
      Along MempoolState.StepCalloc (MempoolState.FindsClean itemSize) s ops) ∧
    (Along (VarState.Step pagesize) (VarState.Zeroes pagesize) vs vops ↔
      Along (VarState.Step pagesize) VarState.FindsClean vs vops) := by
  constructor
  · apply along_congr (I := fun _ => True)
    · exact fun _ _ _ _ _ => trivial
    · exact fun s op _ _ _ => s.zeroes_iff itemSize op
    · trivial
  · apply along_congr (I := fun _ => True)
    · exact fun _ _ _ _ _ => trivial
    · exact fun s op _ _ hstep => VarState.zeroes_iff hpage hstep
    · trivial

/-- A holder writes the eleventh byte of an item and frees it, and the item is
handed out again. -/
def recycledOps : List CallocOp :=
  [.other (.alloc none), .other (.write 65554 7), .other (.free 65544), .calloc none]

/-- The recycled item is handed out with the byte its last holder wrote. -/
theorem recycled_not_zeroed :
    ¬ Along MempoolState.StepCalloc (MempoolState.Zeroes 20) smallPool recycledOps := by
  intro h
  obtain ⟨-, hfreshItem⟩ := along_cons.mp h _ rfl
  obtain ⟨-, hwritten⟩ := along_cons.mp hfreshItem _ rfl
  obtain ⟨-, hfreed⟩ := along_cons.mp hwritten _ rfl
  obtain ⟨hzeroed, -⟩ := along_cons.mp hfreed _ rfl
  exact absurd (hzeroed _ _ _ rfl 10 (by decide)) (by decide)

/-- A variable-size pool in zeroed memory, without sub-pools. -/
def emptyVarPool : VarState :=
  { var := { tableSize := 7, multiple := 1, mempoolTable := fun _ => .null }
    mem := fun _ => 0, live := [], chunks := [] }

/-- Every `calloc` succeeds, and `malloc` returns the block at 65536. -/
def firstChunk : VarEnv :=
  { record := true, chunk := some 65536, head := true, node := true, refill := none }

/-- An item and a block come back from holders that wrote to nothing but the bytes that are
zeroed, and are handed out again. -/
theorem calloc_zeroes_recycled :
    Along MempoolState.StepCalloc (MempoolState.Zeroes 20) smallPool
      [.calloc none, .other (.write 65545 7), .other (.free 65544), .calloc none] ∧
    Along (VarState.Step 4096) (VarState.Zeroes 4096) emptyVarPool
      [.calloc firstChunk 24, .write 65546 7, .free 65544 24, .calloc firstChunk 24] := by
  have hpage : PageSize 4096 := ⟨12, by decide, by decide, by decide⟩
  have hiff := calloc_zeroes_iff 20 smallPool
    [.calloc none, .other (.write 65545 7), .other (.free 65544), .calloc none] hpage emptyVarPool
    [.calloc firstChunk 24, .write 65546 7, .free 65544 24, .calloc firstChunk 24]
  constructor
  · refine hiff.1.mpr (along_cons.mpr ?_)
    rintro _ ⟨⟩
    refine ⟨?_, along_cons.mpr ?_⟩
    · rintro p ⟨⟩ i hlow hi
      revert hlow
      revert i
      decide
    rintro _ ⟨⟩
    refine ⟨trivial, along_cons.mpr ?_⟩
    rintro _ ⟨⟩
    refine ⟨trivial, along_cons.mpr ?_⟩
    rintro _ ⟨⟩
    refine ⟨?_, along_nil⟩
    rintro p ⟨⟩ i hlow hi
    revert hlow
    revert i
    decide
  · refine hiff.2.mpr (along_cons.mpr ?_)
    rintro _ ⟨⟩
    refine ⟨?_, along_cons.mpr ?_⟩
    · exact fun _ _ _ _ _ => rfl
    rintro _ ⟨⟩
    refine ⟨trivial, along_cons.mpr ?_⟩
    rintro _ ⟨⟩
    refine ⟨trivial, along_cons.mpr ?_⟩
    rintro _ ⟨⟩
    refine ⟨?_, along_nil⟩
    rintro p ⟨⟩ i hlow hi
    revert hlow
    revert i
    decide

end ThriftProxy
