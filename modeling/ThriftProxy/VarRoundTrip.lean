import ThriftProxy.SubPools
import ThriftProxy.ZeroedItems

/-!
# Blocks of any size, there and back

A block comes from the sub-pool registered under the size that
`var_mempool_alloc` has rounded, and goes back to the one registered under the
size itself. The two are the same sub-pool for the multiples of the word size and
for sizes below it.
-/

namespace ThriftProxy

open Machine WordMemory Transition

/-! ## One call -/

/-- The addresses of the live blocks that come from the sub-pool of a size. -/
def liveAt (live : List VarBlock) (k : ℕ) : List ℕ :=
  (live.filter fun b => varItemSize b.size == k).map VarBlock.address

/-- A block that becomes live comes from the sub-pool of its rounded size. -/
theorem liveAt_cons (b : VarBlock) (live : List VarBlock) :
    liveAt (b :: live) = Function.update (liveAt live) (varItemSize b.size)
      (b.address :: liveAt live (varItemSize b.size)) := by
  funext k
  by_cases hk : k = varItemSize b.size
  · subst hk
    simp [liveAt]
  · simp [liveAt, Function.update_of_ne hk, Ne.symm hk]

/-- The order of the live blocks does not matter. -/
theorem liveAt_perm {live live' : List VarBlock} (h : live.Perm live') (k : ℕ) :
    (liveAt live k).Perm (liveAt live' k) :=
  (h.filter _).map _

/-- A live block is among those of its sub-pool. -/
theorem mem_liveAt {b : VarBlock} {live : List VarBlock} (h : b ∈ live) :
    b.address ∈ liveAt live (varItemSize b.size) :=
  List.mem_map.mpr ⟨b, List.mem_filter.mpr ⟨h, by simp⟩, rfl⟩

namespace VarEnv

/-- The environment has memory for whatever a call asks for. -/
def Succeeds (env : VarEnv) : Prop :=
  env.record = true ∧ env.head = true ∧ env.node = true ∧ env.chunk.isSome ∧ env.refill.isSome

instance (env : VarEnv) : Decidable env.Succeeds := by unfold Succeeds; infer_instance

/-- With memory for another chunk every allocation returns an item. -/
theorem Succeeds.alloc {env : VarEnv} (h : env.Succeeds) {M : Type} [WordMemory M] (pool : Mempool)
    (m : M) : ∃ pool' m' p, mempoolAlloc env.refill pool m = (pool', m', some p) := by
  apply exists_mempoolAlloc
  rintro ⟨-, -, hnone⟩
  simp [Succeeds, hnone] at h

end VarEnv

section

variable {M : Type} [WordMemory M] {env : VarEnv} {pagesize n : ℕ} {v : VarMempool} {m : M}

/-- A request that finds a sub-pool is served by it. -/
theorem varMempoolAlloc_found (env : VarEnv) (pagesize : ℕ) (m : M) (h : v.Tidy) (hn : 1 ≤ n)
    {pool : Mempool} (hlookup : v.lookup (varItemSize n) = some pool) :
    varMempoolAlloc env pagesize v m n =
      .ok (v.update (varItemSize n) (mempoolAlloc env.refill pool m).1,
        (mempoolAlloc env.refill pool m).2.1, (mempoolAlloc env.refill pool m).2.2) := by
  simp only [varMempoolAlloc, varSubPool, h.get_eq (varItemSize_pos hn), hlookup, bind, Except.bind]

/-- A request that finds no sub-pool is served by a new one. -/
theorem varMempoolAlloc_new (h : v.Tidy) (hn : 1 ≤ n) (henv : env.Succeeds) {chunk : ℕ}
    (hchunk : env.chunk = some chunk) (hlookup : v.lookup (varItemSize n) = none)
    {created : Mempool × M}
    (hcreated : subMempoolCreate pagesize (varItemSize n) v.multiple chunk m = created)
    {v' : VarMempool} (hput : v.put (varItemSize n) created.1 true true = .ok v') :
    varMempoolAlloc env pagesize v m n =
      .ok (v'.update (varItemSize n) (mempoolAlloc env.refill created.1 created.2).1,
        (mempoolAlloc env.refill created.1 created.2).2.1,
        (mempoolAlloc env.refill created.1 created.2).2.2) := by
  obtain ⟨hrecord, hhead, hnode, -, -⟩ := henv
  simp only [varMempoolAlloc, varSubPool, h.get_eq (varItemSize_pos hn), hlookup, bind, Except.bind,
    hrecord, if_true, hchunk, hcreated, hhead, hnode, hput]

end

namespace VarState

/-- The invariant: the sub-pools share the memory, every live block comes from the
sub-pool of its rounded size and has room for what was asked for, and sub-pools
exist only when the chunk size does not wrap. -/
structure Kept (pagesize multiple : ℕ) (s : VarState) : Prop where
  /-- No list head has been freed. -/
  tidy : s.var.Tidy
  /-- `multiple` is the argument of `var_mempool_create`. -/
  multiple_eq : s.var.multiple = wrapInt multiple
  /-- Chunks exist only when their size does not wrap. -/
  unwrapped : multiple + pagesize ≤ 2 ^ 32 ∨ s.chunks = [] ∧ ∀ k, s.var.lookup k = none
  /-- The sub-pools share the memory. -/
  pools : ∃ older free, SubPools s.mem s.var.lookup older free (liveAt s.live) s.chunks
  /-- Live blocks come from sub-pools. -/
  live_known : ∀ b ∈ s.live, (s.var.lookup (varItemSize b.size)).isSome
  /-- Live blocks have room for the size they were requested with. -/
  live_fits : ∀ b ∈ s.live,
    1 ≤ b.size ∧ b.size < 2 ^ 32 ∧ b.size ≤ mempoolItemSize (varItemSize b.size)

/-- The requests that a sub-pool can serve: the rounding does not wrap, nor does
the size of a chunk. -/
def Servable (pagesize multiple n : ℕ) : Prop :=
  (n % wordSize = 0 ∨ n < 2 ^ 31) ∧ multiple + pagesize ≤ 2 ^ 32

namespace Kept

variable {pagesize multiple n : ℕ} {s : VarState}

/-- The sub-pool of a size without one has no live blocks. -/
theorem liveAt_eq_nil (h : s.Kept pagesize multiple) {k : ℕ} (hnone : s.var.lookup k = none) :
    liveAt s.live k = [] := by
  unfold liveAt
  rw [List.map_eq_nil_iff, List.filter_eq_nil_iff]
  intro b hb hkey
  have hknown := h.live_known b hb
  rw [beq_iff_eq] at hkey
  rw [hkey, hnone] at hknown
  cases hknown

/-- A sub-pool stays registered when another one is changed or added. -/
theorem isSome_lookup {v v' : VarMempool} {k : ℕ} {pool : Mempool} (hself : v'.lookup k = some pool)
    (hother : ∀ j, j ≠ k → v'.lookup j = v.lookup j) {j : ℕ} (hsome : (v.lookup j).isSome) :
    (v'.lookup j).isSome := by
  by_cases hj : j = k
  · rw [hj, hself]
    rfl
  · rwa [hother j hj]

/-- A block that becomes live keeps what the live blocks promise. -/
theorem cons_live (h : s.Kept pagesize multiple) {v : VarMempool} {m : ByteMemory} {pool : Mempool}
    {p : ℕ} {older free : ℕ → List ℕ} {chunks : List (ℕ × ℕ)} (hn : 1 ≤ n) (hn' : n < 2 ^ 32)
    (hserv : Servable pagesize multiple n) (htidy : v.Tidy)
    (hmultiple : v.multiple = s.var.multiple)
    (hself : v.lookup (varItemSize n) = some pool)
    (hother : ∀ j, j ≠ varItemSize n → v.lookup j = s.var.lookup j)
    (hpools : SubPools m v.lookup older free (Function.update (liveAt s.live) (varItemSize n)
      (p :: liveAt s.live (varItemSize n))) chunks) :
    Kept pagesize multiple { var := v, mem := m, live := ⟨p, n⟩ :: s.live, chunks := chunks } := by
  refine ⟨htidy, hmultiple.trans h.multiple_eq, .inl hserv.2, ⟨older, free, ?_⟩, ?_, ?_⟩
  · rw [liveAt_cons]
    exact hpools
  · intro b hb
    obtain rfl | hb := List.mem_cons.mp hb
    · simp [hself]
    · exact isSome_lookup hself hother (h.live_known b hb)
  · intro b hb
    obtain rfl | hb := List.mem_cons.mp hb
    · exact ⟨hn, hn', (le_itemSize_iff hn').mpr hserv.1⟩
    · exact h.live_fits b hb

/-- Serving a request keeps the invariant. -/
theorem alloc (h : s.Kept pagesize multiple) (hpage : PageSize pagesize) {env : VarEnv}
    (henv : env.Succeeds) (hn : 1 ≤ n) (hn' : n < 2 ^ 32) (hserv : Servable pagesize multiple n)
    (hblocks : ∀ block ∈ s.mallocs pagesize env (varItemSize n), VarMallocBlock s.chunks block) :
    ∃ v m p, varMempoolAlloc env pagesize s.var s.mem n = .ok (v, m, some p) ∧
      Kept pagesize multiple
        { var := v, mem := m, live := ⟨p, n⟩ :: s.live
          chunks := s.mallocs pagesize env (varItemSize n) ++ s.chunks } := by
  obtain ⟨older, free, hpools⟩ := h.pools
  have hget := h.tidy.get_eq (varItemSize_pos hn)
  cases hlookup : s.var.lookup (varItemSize n) with
  | some pool =>
    obtain ⟨pool', m', p, halloc⟩ := henv.alloc pool s.mem
    have hresult := varMempoolAlloc_found env pagesize s.mem h.tidy hn hlookup
    rw [halloc] at hresult
    obtain ⟨htidy, hmultiple, hself, hother⟩ := h.tidy.update pool' (by rw [hlookup]; rfl)
    have hmallocs : s.mallocs pagesize env (varItemSize n) = if pool.CallsMalloc then
        env.refill.toList.map fun c => (c, pool.allocSize) else [] := by
      simp only [mallocs, hget, hlookup]
    obtain ⟨older', free', hpools'⟩ := hpools.alloc hlookup halloc (by
      intro hcalls c hc
      apply hblocks
      rw [hmallocs, if_pos hcalls]
      exact List.mem_map.mpr ⟨c, Option.mem_toList.mpr hc, rfl⟩) hself hother
    rw [← hmallocs] at hpools'
    exact ⟨_, m', p, hresult, h.cons_live hn hn' hserv htidy hmultiple hself hother hpools'⟩
  | none =>
    obtain ⟨chunk, hchunk⟩ := Option.isSome_iff_exists.mp henv.2.2.2.1
    have hitem := varItemSize_lt hn'
    have hcreated : subMempoolCreate pagesize (varItemSize n) s.var.multiple chunk s.mem =
        mempoolCreate pagesize (varItemSize n) (sizeOfInt s.var.multiple) chunk s.mem := by
      rw [h.multiple_eq]
      exact subMempoolCreate_eq hpage hitem hserv.2
    have hsize : subAllocSize pagesize (varItemSize n) s.var.multiple =
        mempoolAllocSize pagesize (mempoolItemSize (varItemSize n)) (sizeOfInt s.var.multiple) :=
      congrArg (fun created => created.1.allocSize) hcreated
    have hmallocs : s.mallocs pagesize env (varItemSize n) =
        [(chunk, mempoolAllocSize pagesize (mempoolItemSize (varItemSize n))
          (sizeOfInt s.var.multiple))] := by
      simp only [mallocs, hget, hlookup, henv.1, if_true, hchunk, Option.toList_some, List.map_cons,
        List.map_nil, hsize]
    rcases hpair : mempoolCreate pagesize (varItemSize n) (sizeOfInt s.var.multiple) chunk s.mem with
      ⟨created, m₁⟩
    obtain ⟨v₁, hput, htidy₁, hmultiple₁, hself₁, hother₁⟩ := h.tidy.put created hlookup
    obtain ⟨pool', m', p, halloc⟩ := henv.alloc created m₁
    obtain ⟨htidy, hmultiple, hself, hother⟩ := htidy₁.update pool' (by rw [hself₁]; rfl)
    have hresult := varMempoolAlloc_new (m := s.mem) h.tidy hn henv hchunk hlookup
      (hcreated.trans hpair) hput
    rw [halloc] at hresult
    have hpos : 0 < pagesize := Nat.lt_of_lt_of_le (by decide) hpage.le
    obtain ⟨older₁, free₁, hpools₁⟩ := hpools.create hpos
      (hblocks _ (by rw [hmallocs]; exact List.mem_cons_self)) (h.liveAt_eq_nil hlookup)
      (by rw [hpair]; exact hself₁) hother₁
    rw [hpair, ← List.singleton_append, ← hmallocs] at hpools₁
    have hcalls : ¬ created.CallsMalloc := by
      have hnot := subMempoolCreate_not_callsMalloc s.var.multiple chunk s.mem hpage hitem
      rwa [hcreated, hpair] at hnot
    obtain ⟨older', free', hpools'⟩ := hpools₁.alloc hself₁ halloc
      (fun hcalls' => absurd hcalls' hcalls) hself hother
    rw [if_neg hcalls, List.nil_append] at hpools'
    refine ⟨_, m', p, hresult, h.cons_live hn hn' hserv htidy (hmultiple.trans hmultiple₁) hself ?_
      hpools'⟩
    intro j hj
    rw [hother j hj, hother₁ j hj]

/-- A write inside the item of a live block keeps the invariant. -/
theorem write (h : s.Kept pagesize multiple) {b : VarBlock} (hb : b ∈ s.live) {m : ByteMemory}
    (hsame : ∀ x, x < b.address ∨ b.address + mempoolItemSize (varItemSize b.size) ≤ x →
      m x = s.mem x) : Kept pagesize multiple { s with mem := m } := by
  obtain ⟨older, free, hpools⟩ := h.pools
  obtain ⟨pool, hlookup⟩ := Option.isSome_iff_exists.mp (h.live_known b hb)
  rw [← hpools.itemSize_eq _ pool hlookup] at hsame
  have hwritten := hpools.write hlookup (mem_liveAt hb) hsame
  exact ⟨h.tidy, h.multiple_eq, h.unwrapped, ⟨older, free, hwritten⟩, h.live_known, h.live_fits⟩

/-- The live blocks of one sub-pool when a block is freed. -/
theorem liveAt_erase {live : List VarBlock} {b : VarBlock} (hb : b ∈ live) (k : ℕ) :
    (liveAt live k).Perm
      (if k = varItemSize b.size then b.address :: liveAt (live.erase b) k
      else liveAt (live.erase b) k) := by
  have hperm := liveAt_perm (List.perm_cons_erase hb) k
  rw [liveAt_cons] at hperm
  by_cases hk : k = varItemSize b.size
  · subst hk
    simpa using hperm
  · simpa [hk, Function.update_of_ne hk] using hperm

/-- Freeing a block into the sub-pool it came from keeps the invariant. -/
theorem free (h : s.Kept pagesize multiple) {b : VarBlock} (hb : b ∈ s.live) {pool : Mempool}
    (hlookup : s.var.lookup (varItemSize b.size) = some pool) :
    Kept pagesize multiple
      { s with
        var := s.var.update (varItemSize b.size) (mempoolFree pool s.mem b.address).1
        mem := (mempoolFree pool s.mem b.address).2, live := s.live.erase b } := by
  obtain ⟨older, free, hpools⟩ := h.pools
  obtain ⟨htidy, hmultiple, hself, hother⟩ :=
    h.tidy.update (mempoolFree pool s.mem b.address).1 (by rw [hlookup]; rfl)
  have hlive := liveAt_erase hb (varItemSize b.size)
  rw [if_pos rfl] at hlive
  have hfreed := hpools.free_item hlookup hlive hself hother
  have hperm : ∀ k, (Function.update (liveAt s.live) (varItemSize b.size)
      (liveAt (s.live.erase b) (varItemSize b.size)) k).Perm (liveAt (s.live.erase b) k) := by
    intro k
    by_cases hk : k = varItemSize b.size
    · subst hk
      rw [Function.update_self]
    · have hrest := liveAt_erase hb k
      rw [if_neg hk] at hrest
      rwa [Function.update_of_ne hk]
  refine ⟨htidy, hmultiple.trans h.multiple_eq, ?_, ⟨_, _, hfreed.perm hperm⟩, ?_, ?_⟩
  · obtain hfits | ⟨-, hnone⟩ := h.unwrapped
    · exact .inl hfits
    · rw [hnone] at hlookup
      cases hlookup
  · intro c hc
    exact isSome_lookup hself hother (h.live_known c (List.mem_of_mem_erase hc))
  · intro c hc
    exact h.live_fits c (List.mem_of_mem_erase hc)

end Kept

/-! ## What the pool promises -/

/-- A block is served: its sub-pool's items have room for it, it lies in a block
from `malloc` behind the link, and apart from the items of all other live blocks. -/
def Serves (v : VarMempool) (chunks : List (ℕ × ℕ)) (others : List VarBlock) (b : VarBlock) :
    Prop :=
  ∃ pool, v.lookup (varItemSize b.size) = some pool ∧ b.size ≤ pool.itemSize ∧
    (∃ c ∈ chunks, c.1 + wordSize ≤ b.address ∧ b.address + pool.itemSize ≤ c.1 + c.2) ∧
    ∀ other ∈ others, ∃ own, v.lookup (varItemSize other.size) = some own ∧
      BlocksApart (b.address, pool.itemSize) (other.address, own.itemSize)

/-- A block is taken back: `var_mempool_free` returns zero, and the block becomes
the first of the free items of the sub-pool it came from. -/
def TakenBack (v : VarMempool) (m : ByteMemory) (b : VarBlock) (v' : VarMempool)
    (m' : ByteMemory) (r : ℤ) : Prop :=
  r = 0 ∧ ∃ pool pool' free, v.lookup (varItemSize b.size) = some pool ∧
    v'.lookup (varItemSize b.size) = some pool' ∧ Chain m pool.reusePtr free ∧
    Chain m' pool'.reusePtr (b.address :: free)

/-- The calls that treat blocks rightly. -/
def RoundTrips (pagesize : ℕ) (s : VarState) : VarOp → Prop
  | .alloc env n => ∀ v m p, varMempoolAlloc env pagesize s.var s.mem n = .ok (v, m, some p) →
    Serves v (s.mallocs pagesize env (varItemSize n) ++ s.chunks) s.live ⟨p, n⟩
  | .calloc env n => ∀ v m p, varMempoolCalloc env pagesize s.var s.mem n = .ok (v, m, some p) →
    Serves v (s.mallocs pagesize env (varItemSize n) ++ s.chunks) s.live ⟨p, n⟩
  | .free data n => ∀ v m r, varMempoolFree s.var s.mem data n = .ok (v, m, r) →
    TakenBack s.var s.mem ⟨data, n⟩ v m r
  | .write _ _ => True

/-- The calls with a size that the two look-ups round alike, for a chunk size
that does not wrap. -/
def Matches (pagesize multiple : ℕ) (_ : VarState) : VarOp → Prop
  | .alloc _ n => Servable pagesize multiple n
  | .calloc _ n => Servable pagesize multiple n
  | .free _ n => n % wordSize = 0 ∨ n < wordSize
  | .write _ _ => True

/-- The calls with a size of at least one byte and memory for whatever they ask for. -/
def Supplied (_ : VarState) : VarOp → Prop
  | .alloc env n => 1 ≤ n ∧ env.Succeeds
  | .calloc env n => 1 ≤ n ∧ env.Succeeds
  | _ => True

namespace Kept

variable {pagesize multiple n : ℕ} {s : VarState}

/-- A live block is served, apart from the others. -/
theorem serves {b : VarBlock} {others : List VarBlock} (h : s.Kept pagesize multiple)
    (hlive : s.live = b :: others) : Serves s.var s.chunks others b := by
  obtain ⟨older, free, hpools⟩ := h.pools
  have hb : b ∈ s.live := by
    rw [hlive]
    exact List.mem_cons_self
  obtain ⟨pool, hlookup⟩ := Option.isSome_iff_exists.mp (h.live_known b hb)
  have hholds := hpools.holds _ pool hlookup
  have hmem := mem_liveAt hb
  obtain ⟨chunk, hchunk, hstart, hend⟩ := hholds.inside (List.mem_append_right _ hmem)
  refine ⟨pool, hlookup, ?_, ⟨_, hpools.chunk_mem _ pool hlookup chunk hchunk, hstart, hend⟩, ?_⟩
  · rw [hpools.itemSize_eq _ pool hlookup]
    exact (h.live_fits b hb).2.2
  · intro other hother
    have hother' : other ∈ s.live := by
      rw [hlive]
      exact List.mem_cons_of_mem _ hother
    obtain ⟨own, hown⟩ := Option.isSome_iff_exists.mp (h.live_known other hother')
    refine ⟨own, hown, ?_⟩
    by_cases hkey : varItemSize other.size = varItemSize b.size
    · -- items of one sub-pool
      obtain rfl : own = pool := by
        rw [hkey, hlookup] at hown
        exact (Option.some.inj hown).symm
      have hcons : liveAt s.live (varItemSize b.size) =
          b.address :: liveAt others (varItemSize b.size) := by
        rw [hlive, liveAt_cons, Function.update_self]
      have hpairwise := (List.pairwise_append.mp hholds.apart).2.1
      rw [hcons] at hpairwise
      have hin : other.address ∈ liveAt others (varItemSize b.size) := hkey ▸ mem_liveAt hother
      exact (List.pairwise_cons.mp hpairwise).1 _ hin
    · -- items of sub-pools whose chunks lie apart
      have hholds' := hpools.holds _ own hown
      obtain ⟨chunk', hchunk', hstart', hend'⟩ :=
        hholds'.inside (List.mem_append_right _ (mem_liveAt hother'))
      have hapart := hpools.apart _ _ pool own (Ne.symm hkey) hlookup hown chunk hchunk chunk'
        hchunk'
      unfold BlocksApart at *
      simp only at *
      omega

/-- A call that returns a block has taken it from a sub-pool whose items are of
the rounded size. -/
theorem itemSize_of_alloc (h : s.Kept pagesize multiple) {env : VarEnv} (henv : env.Succeeds)
    (hn : 1 ≤ n) {v : VarMempool} {m : ByteMemory} {r : Option ℕ}
    (hresult : varMempoolAlloc env pagesize s.var s.mem n = .ok (v, m, r)) :
    ∃ pool, v.lookup (varItemSize n) = some pool ∧
      pool.itemSize = mempoolItemSize (varItemSize n) := by
  obtain ⟨older, free, hpools⟩ := h.pools
  cases hlookup : s.var.lookup (varItemSize n) with
  | some pool =>
    rw [varMempoolAlloc_found env pagesize s.mem h.tidy hn hlookup] at hresult
    simp only [Except.ok.injEq, Prod.mk.injEq] at hresult
    obtain ⟨rfl, -, -⟩ := hresult
    obtain ⟨-, -, hself, -⟩ := h.tidy.update (mempoolAlloc env.refill pool s.mem).1
      (by rw [hlookup]; rfl)
    exact ⟨_, hself, (mempoolAlloc_itemSize rfl).trans (hpools.itemSize_eq _ pool hlookup)⟩
  | none =>
    obtain ⟨chunk, hchunk⟩ := Option.isSome_iff_exists.mp henv.2.2.2.1
    obtain ⟨v₁, hput, htidy₁, -, hself₁, -⟩ := h.tidy.put
      (subMempoolCreate pagesize (varItemSize n) s.var.multiple chunk s.mem).1 hlookup
    rw [varMempoolAlloc_new h.tidy hn henv hchunk hlookup rfl hput] at hresult
    rcases halloc : mempoolAlloc env.refill
      (subMempoolCreate pagesize (varItemSize n) s.var.multiple chunk s.mem).1
      (subMempoolCreate pagesize (varItemSize n) s.var.multiple chunk s.mem).2 with ⟨pool', m', r'⟩
    simp only [halloc, Except.ok.injEq, Prod.mk.injEq] at hresult
    obtain ⟨rfl, -, -⟩ := hresult
    obtain ⟨-, -, hself, -⟩ := htidy₁.update pool' (by rw [hself₁]; rfl)
    exact ⟨_, hself, mempoolAlloc_itemSize halloc⟩

/-- A block returned for a size is served exactly when the size is servable. -/
theorem serves_iff (h : s.Kept pagesize multiple) (hpage : PageSize pagesize)
    (hmultiple : multiple < 2 ^ 32) {env : VarEnv} (henv : env.Succeeds) (hn : 1 ≤ n)
    (hn' : n < 2 ^ 32)
    (hblocks : ∀ block ∈ s.mallocs pagesize env (varItemSize n), VarMallocBlock s.chunks block)
    {v : VarMempool} {m : ByteMemory} {p : ℕ}
    (hresult : varMempoolAlloc env pagesize s.var s.mem n = .ok (v, m, some p)) :
    Serves v (s.mallocs pagesize env (varItemSize n) ++ s.chunks) s.live ⟨p, n⟩ ↔
      Servable pagesize multiple n := by
  constructor
  · rintro ⟨pool, hpool, hroom, ⟨c, hc, hstart, hend⟩, -⟩
    obtain ⟨pool', hpool', hsize⟩ := h.itemSize_of_alloc henv hn hresult
    obtain rfl := Option.some.inj (hpool.symm.trans hpool')
    refine ⟨(le_itemSize_iff hn').mp (hsize ▸ hroom), ?_⟩
    by_contra hwraps
    -- no chunk has been handed out yet, and the first one has no bytes
    obtain ⟨hchunks, hnone⟩ := h.unwrapped.resolve_left hwraps
    obtain ⟨chunk, hchunk⟩ := Option.isSome_iff_exists.mp henv.2.2.2.1
    have hget := h.tidy.get_eq (varItemSize_pos hn)
    rw [hnone] at hget
    have hempty : subAllocSize pagesize (varItemSize n) s.var.multiple = 0 := by
      rw [h.multiple_eq, subAllocSize_eq hpage (varItemSize_lt hn') hmultiple, if_neg hwraps]
    have hmallocs : s.mallocs pagesize env (varItemSize n) = [(chunk, 0)] := by
      simp only [mallocs, hget, henv.1, if_true, hchunk, Option.toList_some, List.map_cons,
        List.map_nil, hempty]
    rw [hmallocs, hchunks, List.append_nil, List.mem_singleton] at hc
    have hfirst := (varMempoolAlloc_nextBlock hpage hn' hresult).1
    simp only [nextBlock, hget, henv.1, if_true, hchunk, Option.map_some, Option.some.injEq]
      at hfirst
    rw [hc] at hend
    simp only at hend
    unfold wordSize at hfirst
    omega
  · intro hserv
    obtain ⟨v', m', p', hresult', hkept⟩ := h.alloc hpage henv hn hn' hserv hblocks
    rw [hresult] at hresult'
    simp only [Except.ok.injEq, Prod.mk.injEq, Option.some.injEq] at hresult'
    obtain ⟨rfl, rfl, rfl⟩ := hresult'
    exact hkept.serves rfl

/-- A live block is taken back exactly when its size is looked up as it was
rounded. -/
theorem takenBack_iff (h : s.Kept pagesize multiple) {data : ℕ} (hb : ⟨data, n⟩ ∈ s.live)
    {v : VarMempool} {m : ByteMemory} {r : ℤ}
    (hresult : varMempoolFree s.var s.mem data n = .ok (v, m, r)) :
    TakenBack s.var s.mem ⟨data, n⟩ v m r ↔ n % wordSize = 0 ∨ n < wordSize := by
  obtain ⟨older, free, hpools⟩ := h.pools
  obtain ⟨pool, hlookup⟩ := Option.isSome_iff_exists.mp (h.live_known _ hb)
  obtain ⟨hn, hn', -⟩ := h.live_fits _ hb
  have hholds := hpools.holds _ pool hlookup
  have hmem := mem_liveAt hb
  simp only at hlookup hn hn' hholds hmem
  rw [varMempoolFree, h.tidy.get_eq hn] at hresult
  rw [← varItemSize_eq_self_iff hn']
  constructor
  · rintro ⟨hzero, pool₁, pool', freed, hpool₁, hpool', hfreed, hpushed⟩
    by_contra hkey
    simp only at hpool₁ hpool' hpushed
    cases hraw : s.var.lookup n with
    | none =>
      simp only [hraw, bind, Except.bind, Except.ok.injEq, Prod.mk.injEq] at hresult
      omega
    | some other =>
      -- the block went to another sub-pool, so its own has the free items it had
      simp only [hraw, bind, Except.bind, Except.ok.injEq, Prod.mk.injEq] at hresult
      obtain ⟨rfl, -, -⟩ := hresult
      obtain ⟨-, -, -, hother⟩ := h.tidy.update (mempoolFree other s.mem data).1
        (by rw [hraw]; rfl)
      rw [hother _ hkey, hlookup] at hpool'
      rw [hlookup] at hpool₁
      obtain rfl := Option.some.inj hpool'
      obtain rfl := Option.some.inj hpool₁
      obtain rfl := hfreed.unique hholds.free_chain
      have hhead : pool.reusePtr = data := hpushed.1
      cases hfree : free (varItemSize n) with
      | nil =>
        rw [hfree] at hfreed
        have hnull : pool.reusePtr = 0 := hfreed
        exact (hholds.item_bounds (List.mem_append_right _ hmem)).1 (hhead.symm.trans hnull)
      | cons a rest =>
        rw [hfree] at hfreed
        have hdata : data ∈ free (varItemSize n) := by
          rw [hfree, ← hhead, hfreed.1]
          exact List.mem_cons_self
        exact (List.nodup_append.mp hholds.nodup).2.2 _ hdata _ hmem rfl
  · intro hkey
    rw [hkey] at hlookup hholds
    simp only [hlookup, bind, Except.bind, Except.ok.injEq, Prod.mk.injEq] at hresult
    obtain ⟨rfl, rfl, rfl⟩ := hresult
    obtain ⟨-, -, hself, -⟩ := h.tidy.update (mempoolFree pool s.mem data).1
      (by rw [hlookup]; rfl)
    have hlive := liveAt_erase hb n
    simp only [hkey, if_true] at hlive
    refine ⟨rfl, pool, (mempoolFree pool s.mem data).1, free n, ?_, ?_, hholds.free_chain,
      (hholds.perm hlive).mempoolFree.free_chain⟩
    · simp only [hkey, hlookup]
    · simp only [hkey, hself]

/-- A supplied request returns a block. -/
theorem exists_alloc (h : s.Kept pagesize multiple) {env : VarEnv} (henv : env.Succeeds)
    (hn : 1 ≤ n) :
    ∃ v m p, varMempoolAlloc env pagesize s.var s.mem n = .ok (v, m, some p) := by
  cases hlookup : s.var.lookup (varItemSize n) with
  | some pool =>
    obtain ⟨pool', m', p, halloc⟩ := henv.alloc pool s.mem
    have hresult := varMempoolAlloc_found env pagesize s.mem h.tidy hn hlookup
    rw [halloc] at hresult
    exact ⟨_, m', p, hresult⟩
  | none =>
    obtain ⟨chunk, hchunk⟩ := Option.isSome_iff_exists.mp henv.2.2.2.1
    obtain ⟨v₁, hput, -⟩ := h.tidy.put
      (subMempoolCreate pagesize (varItemSize n) s.var.multiple chunk s.mem).1 hlookup
    obtain ⟨pool', m', p, halloc⟩ := henv.alloc
      (subMempoolCreate pagesize (varItemSize n) s.var.multiple chunk s.mem).1
      (subMempoolCreate pagesize (varItemSize n) s.var.multiple chunk s.mem).2
    have hresult := varMempoolAlloc_new h.tidy hn henv hchunk hlookup rfl hput
    rw [halloc] at hresult
    exact ⟨_, m', p, hresult⟩

end Kept

/-! ## Runs -/

section

variable {pagesize multiple n : ℕ} {s s' : VarState}

/-- The requests that take place. -/
theorem step_alloc {env : VarEnv} (hstep : s.Step pagesize (.alloc env n) s') :
    n < 2 ^ 32 ∧
      (∀ block ∈ s.mallocs pagesize env (varItemSize n), VarMallocBlock s.chunks block) ∧
      ∀ v m p, varMempoolAlloc env pagesize s.var s.mem n = .ok (v, m, some p) →
        s' = { var := v, mem := m, live := ⟨p, n⟩ :: s.live
               chunks := s.mallocs pagesize env (varItemSize n) ++ s.chunks } := by
  obtain ⟨hguard, hstep⟩ := Option.ite_none_right_eq_some.mp hstep
  refine ⟨hguard.1, hguard.2, ?_⟩
  intro v m p hresult
  rw [hresult] at hstep
  exact (Option.some.inj hstep).symm

/-- The requests for zeroed blocks that take place. -/
theorem step_calloc {env : VarEnv} (hstep : s.Step pagesize (.calloc env n) s') :
    n < 2 ^ 32 ∧
      (∀ block ∈ s.mallocs pagesize env (varItemSize n), VarMallocBlock s.chunks block) ∧
      ∀ v m p, varMempoolAlloc env pagesize s.var s.mem n = .ok (v, m, some p) →
        s' = { var := v, mem := m.clear p 4, live := ⟨p, n⟩ :: s.live
               chunks := s.mallocs pagesize env (varItemSize n) ++ s.chunks } := by
  obtain ⟨hguard, hstep⟩ := Option.ite_none_right_eq_some.mp hstep
  refine ⟨hguard.1, hguard.2, ?_⟩
  intro v m p hresult
  simp only [varMempoolCalloc, hresult, bind, Except.bind, Option.some.injEq] at hstep
  exact hstep.symm

/-- The releases that take place. -/
theorem step_free {data : ℕ} (hstep : s.Step pagesize (.free data n) s') :
    ⟨data, n⟩ ∈ s.live ∧ ∃ v m r, varMempoolFree s.var s.mem data n = .ok (v, m, r) ∧
      s' = { s with var := v, mem := m, live := s.live.erase ⟨data, n⟩ } := by
  obtain ⟨hlive, hstep⟩ := Option.ite_none_right_eq_some.mp hstep
  cases hresult : varMempoolFree s.var s.mem data n with
  | error e => simp [hresult] at hstep
  | ok result =>
    rw [hresult] at hstep
    exact ⟨hlive, result.1, result.2.1, result.2.2, rfl, (Option.some.inj hstep).symm⟩

/-- The writes that take place. -/
theorem step_write {address : ℕ} {byte : UInt8} (hstep : s.Step pagesize (.write address byte) s') :
    (∃ b ∈ s.live, b.address ≤ address ∧ address < b.address + b.size) ∧
      s' = { s with mem := s.mem.poke address byte } := by
  obtain ⟨hinside, hstep⟩ := Option.ite_none_right_eq_some.mp hstep
  exact ⟨hinside, (Option.some.inj hstep).symm⟩

/-- A call treats blocks rightly exactly when its size matches. -/
theorem roundTrips_iff {op : VarOp} (h : s.Kept pagesize multiple) (hpage : PageSize pagesize)
    (hmultiple : multiple < 2 ^ 32) (hsupplied : s.Supplied op) (hstep : s.Step pagesize op s') :
    s.RoundTrips pagesize op ↔ s.Matches pagesize multiple op := by
  cases op with
  | alloc env n =>
    obtain ⟨hn, henv⟩ := hsupplied
    obtain ⟨hn', hblocks, -⟩ := step_alloc hstep
    obtain ⟨v, m, p, hresult⟩ := h.exists_alloc henv hn
    have hserves := h.serves_iff hpage hmultiple henv hn hn' hblocks hresult
    constructor
    · exact fun hall => hserves.mp (hall v m p hresult)
    · intro hmatch v' m' p' hresult'
      exact (h.serves_iff hpage hmultiple henv hn hn' hblocks hresult').mpr hmatch
  | calloc env n =>
    obtain ⟨hn, henv⟩ := hsupplied
    obtain ⟨hn', hblocks, -⟩ := step_calloc hstep
    obtain ⟨v, m, p, hresult⟩ := h.exists_alloc henv hn
    have hserves := h.serves_iff hpage hmultiple henv hn hn' hblocks hresult
    have hcalloc : varMempoolCalloc env pagesize s.var s.mem n = .ok (v, m.clear p 4, some p) := by
      simp only [varMempoolCalloc, hresult, bind, Except.bind]
    constructor
    · exact fun hall => hserves.mp (hall v _ p hcalloc)
    · intro hmatch v' m' p' hresult'
      rw [hcalloc] at hresult'
      simp only [Except.ok.injEq, Prod.mk.injEq, Option.some.injEq] at hresult'
      obtain ⟨rfl, -, rfl⟩ := hresult'
      exact hserves.mpr hmatch
  | free data n =>
    obtain ⟨hlive, v, m, r, hresult, -⟩ := step_free hstep
    have htaken := h.takenBack_iff hlive hresult
    constructor
    · exact fun hall => htaken.mp (hall v m r hresult)
    · intro hmatch v' m' r' hresult'
      exact (h.takenBack_iff hlive hresult').mpr hmatch
  | write address byte => exact Iff.rfl

/-- A call whose size matches keeps the invariant. -/
theorem Kept.step {op : VarOp} (h : s.Kept pagesize multiple) (hpage : PageSize pagesize)
    (hsupplied : s.Supplied op) (hmatch : s.Matches pagesize multiple op)
    (hstep : s.Step pagesize op s') : s'.Kept pagesize multiple := by
  cases op with
  | alloc env n =>
    obtain ⟨hn', hblocks, hnext⟩ := step_alloc hstep
    obtain ⟨v, m, p, hresult, hkept⟩ := h.alloc hpage hsupplied.2 hsupplied.1 hn' hmatch hblocks
    rw [hnext v m p hresult]
    exact hkept
  | calloc env n =>
    obtain ⟨hn', hblocks, hnext⟩ := step_calloc hstep
    obtain ⟨v, m, p, hresult, hkept⟩ := h.alloc hpage hsupplied.2 hsupplied.1 hn' hmatch hblocks
    rw [hnext v m p hresult]
    apply hkept.write List.mem_cons_self
    intro x hx
    have hword := wordSize_le_mempoolItemSize (varItemSize n)
    unfold wordSize at hword
    simp only at hx
    rw [clear_apply, if_neg (by omega)]
  | free data n =>
    obtain ⟨hlive, v, m, r, hresult, rfl⟩ := step_free hstep
    obtain ⟨hn, hn', -⟩ := h.live_fits _ hlive
    have hkey : varItemSize n = n := (varItemSize_eq_self_iff hn').mpr hmatch
    obtain ⟨pool, hlookup⟩ := Option.isSome_iff_exists.mp (h.live_known _ hlive)
    have hkept := h.free hlive hlookup
    simp only [hkey] at hlookup hkept hn
    simp only [varMempoolFree, h.tidy.get_eq hn, hlookup, bind, Except.bind, Except.ok.injEq,
      Prod.mk.injEq] at hresult
    obtain ⟨rfl, rfl, -⟩ := hresult
    exact hkept
  | write address byte =>
    obtain ⟨⟨b, hb, hlow, hhigh⟩, rfl⟩ := step_write hstep
    have hroom := (h.live_fits b hb).2.2
    apply h.write hb
    intro x hx
    rw [ByteMemory.poke, Function.update_of_ne (by omega)]

end

/-- A pool as `var_mempool_create` returns it, in any memory. -/
def initial (var : VarMempool) (mem : ByteMemory) : VarState :=
  { var := var, mem := mem, live := [], chunks := [] }

/-- A new pool has no sub-pools. -/
theorem kept_initial {tableSize multiple : ℕ} {var : VarMempool} (pagesize : ℕ) (mem : ByteMemory)
    (hcreate : VarMempool.create tableSize multiple = some var) :
    (initial var mem).Kept pagesize multiple := by
  unfold VarMempool.create at hcreate
  split at hcreate
  · cases hcreate
  · obtain rfl := Option.some.inj hcreate
    have hnone : ∀ k, VarMempool.lookup
        { tableSize := tableSize, multiple := wrapInt multiple, mempoolTable := fun _ => .null } k =
        none := fun _ => rfl
    have htidy : VarMempool.Tidy
        { tableSize := tableSize, multiple := wrapInt multiple
          mempoolTable := fun _ => .null } := by
      intro i hi
      cases hi
    refine ⟨htidy, ?_, .inr ⟨rfl, hnone⟩, ⟨fun _ => [], fun _ => [], ?_⟩, ?_, ?_⟩
    · simp only [initial]
    · refine ⟨?_, ?_, ?_, ?_⟩
      · exact fun k pool hpool => by cases hpool
      · exact fun k pool hpool => by cases hpool
      · exact fun k pool hpool => by cases hpool
      · exact fun j k pool pool' _ hpool => by cases hpool
    · exact fun b hb => by cases hb
    · exact fun b hb => by cases hb

end VarState

/-- **Round trip.** In every run of a variable-size pool that finds memory for
whatever it asks for, every block returned has room for the size requested, apart
from all other live blocks, and every block freed goes back to the sub-pool it
came from, if and only if every size freed is a multiple of the word size or below
it, every size requested is a multiple of the word size or below `2 ^ 31`, and the
size of a chunk does not wrap. -/
theorem varMempool_roundTrips_iff {pagesize tableSize multiple : ℕ} (hpage : PageSize pagesize)
    (hmultiple : multiple < 2 ^ 32) {var : VarMempool}
    (hcreate : VarMempool.create tableSize multiple = some var) (mem : ByteMemory)
    (ops : List VarOp) :
    Along (Guarded VarState.Supplied (VarState.Step pagesize)) (VarState.RoundTrips pagesize)
        (VarState.initial var mem) ops ↔
      Along (Guarded VarState.Supplied (VarState.Step pagesize))
        (VarState.Matches pagesize multiple) (VarState.initial var mem) ops := by
  apply along_congr_of_preserved (I := VarState.Kept pagesize multiple)
  · intro s op s' hkept htrips hstep
    have hmatch := (VarState.roundTrips_iff hkept hpage hmultiple hstep.1 hstep.2).mp htrips
    exact hkept.step hpage hstep.1 hmatch hstep.2
  · intro s op s' hkept hstep
    exact VarState.roundTrips_iff hkept hpage hmultiple hstep.1 hstep.2
  · exact VarState.kept_initial pagesize mem hcreate

/-- `malloc` returns the block at 65536 for a first chunk and one further up for
another. -/
def suppliedEnv : VarEnv :=
  { record := true, chunk := some 65536, head := true, node := true, refill := some 1048576 }

/-- A new pool with a table of seven slots. -/
def sevenSlots : VarMempool :=
  { tableSize := 7, multiple := 1, mempoolTable := fun _ => .null }

/-- The pool of seven slots is created. -/
theorem sevenSlots_create : VarMempool.create 7 1 = some sevenSlots := rfl

/-- A block of twenty bytes is looked up under thirty-six when it is requested and
under twenty when it is freed. -/
theorem twenty_bytes_not_taken_back :
    ¬ Along (Guarded VarState.Supplied (VarState.Step 4096)) (VarState.RoundTrips 4096)
      (VarState.initial sevenSlots fun _ => 0) [.alloc suppliedEnv 20, .free 65544 20] := by
  intro h
  have hsupplied : 1 ≤ 20 ∧ suppliedEnv.Succeeds := by decide
  obtain ⟨-, hrest⟩ := along_cons.mp h _ ⟨hsupplied, rfl⟩
  obtain ⟨hfreed, -⟩ := along_cons.mp hrest _ ⟨trivial, rfl⟩
  exact absurd (hfreed _ _ _ rfl).1 (by decide)

/-- A block of twenty-four bytes goes there and back. -/
theorem twentyfour_bytes_round_trip :
    Along (Guarded VarState.Supplied (VarState.Step 4096)) (VarState.RoundTrips 4096)
      (VarState.initial sevenSlots fun _ => 0) [.alloc suppliedEnv 24, .free 65544 24] := by
  have hpage : PageSize 4096 := ⟨12, by decide, by decide, by decide⟩
  refine (varMempool_roundTrips_iff hpage (by decide) sevenSlots_create _ _).mpr ?_
  have hmultiple : 24 % wordSize = 0 := by decide
  refine along_cons.mpr fun _ _ => ⟨⟨.inl hmultiple, by decide⟩, ?_⟩
  exact along_cons.mpr fun _ _ => ⟨.inl hmultiple, along_nil⟩

end ThriftProxy
