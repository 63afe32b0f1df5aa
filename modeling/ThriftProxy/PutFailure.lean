import ThriftProxy.VarMempoolSemantics

/-!
# Registering a sub-pool without memory

When `calloc` fails, `var_mempool_put` returns NULL. If it was the node that could
not be allocated, it has freed the list head of the bucket, which may have been
there before, and the table refers to it still.
-/

namespace ThriftProxy

open Machine WordMemory Transition

namespace VarMempool

/-- The call reaches the `calloc` of a list head, which fails. -/
def HeadFails (v : VarMempool) (itemSize : ℕ) (head : Bool) : Prop :=
  v.mempoolTable (v.slot itemSize) = .null ∧ head = false

/-- The call reaches the `calloc` of a node, which fails. -/
def NodeFails (v : VarMempool) (itemSize : ℕ) (head node : Bool) : Prop :=
  match v.mempoolTable (v.slot itemSize) with
  | .null => head = true ∧ node = false
  | .nodes entries => (∀ entry ∈ entries, entry.itemSize ≠ itemSize) ∧ node = false
  | .dangling => False

/-- The table is as it was: every bucket is NULL or has a list head that was not
freed, and every registered size is found with the same sub-pool. -/
def LeftIntact (v v' : VarMempool) : Prop :=
  v'.Tidy ∧ ∀ itemSize pool, v.get itemSize = .ok (some pool) → v'.get itemSize = .ok (some pool)

section

variable {v v' : VarMempool} {itemSize : ℕ} {pool : Mempool} {head node : Bool}

/-- Without a list head nothing is changed. -/
theorem varMempoolPut_of_headFails (h : v.HeadFails itemSize head) :
    v.varMempoolPut itemSize (some pool) head node = .ok (v, none) := by
  obtain ⟨hslot, rfl⟩ := h
  simp [varMempoolPut, hslot]

/-- Without a node the bucket is left to its freed list head. -/
theorem varMempoolPut_of_nodeFails (h : v.NodeFails itemSize head node) :
    v.varMempoolPut itemSize (some pool) head node =
      .ok (v.setSlot (v.slot itemSize) .dangling, none) := by
  unfold NodeFails at h
  unfold varMempoolPut
  cases hslot : v.mempoolTable (v.slot itemSize) with
  | null =>
    rw [hslot] at h
    obtain ⟨rfl, rfl⟩ := h
    rfl
  | nodes entries =>
    rw [hslot] at h
    obtain ⟨hnone, rfl⟩ := h
    have hany : (entries.any fun entry => entry.itemSize == itemSize) = false := by
      simpa [List.any_eq_false] using hnone
    simp [hany]
  | dangling =>
    rw [hslot] at h
    exact h.elim

/-- A bucket whose list head was freed makes the table untidy. -/
theorem not_tidy_setSlot_dangling (v : VarMempool) (i : ℕ) : ¬ (v.setSlot i .dangling).Tidy := by
  intro h
  exact h i (by simp [setSlot])

/-- A call without a failing `calloc` of a node keeps the table tidy, and no other does. -/
theorem Tidy.put_iff (h : v.Tidy) (hput : v.put itemSize pool head node = .ok v') :
    v'.Tidy ↔ ¬ v.NodeFails itemSize head node := by
  by_cases hnode : v.NodeFails itemSize head node
  · have hnull : v.put itemSize pool head node = .ok (v.setSlot (v.slot itemSize) .dangling) := by
      rw [VarMempool.put, varMempoolPut_of_nodeFails hnode]
      rfl
    rw [hput] at hnull
    obtain rfl := Except.ok.inj hnull
    simp [hnode, v.not_tidy_setSlot_dangling]
  · refine iff_of_true ?_ hnode
    unfold VarMempool.put varMempoolPut at hput
    unfold NodeFails at hnode
    cases hslot : v.mempoolTable (v.slot itemSize) with
    | null =>
      simp only [hslot] at hput hnode
      cases head with
      | false =>
        cases hput
        exact h
      | true =>
        cases node with
        | false => exact absurd ⟨rfl, rfl⟩ hnode
        | true =>
          cases hput
          exact h.setSlot (by simp)
    | nodes entries =>
      simp only [hslot] at hput hnode
      split at hput
      · cases hput
        exact h.setSlot (by simp)
      · cases node with
        | false => simp_all
        | true =>
          cases hput
          exact h.setSlot (by simp)
    | dangling => exact absurd hslot (h _)

/-- The record of a sub-pool is changed behind the list heads. -/
theorem tidy_update_iff (v : VarMempool) (itemSize : ℕ) (pool : Mempool) :
    (v.update itemSize pool).Tidy ↔ v.Tidy := by
  unfold update
  cases hslot : v.mempoolTable (v.slot itemSize) with
  | null => rfl
  | nodes entries =>
    constructor
    · intro h i
      by_cases hi : i = v.slot itemSize
      · simp [hi, hslot]
      · simpa [setSlot, Function.update_of_ne hi] using h i
    · intro h
      exact h.setSlot nofun
  | dangling => rfl

/-- In a tidy table the call returns NULL if and only if a `calloc` fails. -/
theorem Tidy.varMempoolPut_none_iff (h : v.Tidy) :
    (∃ v', v.varMempoolPut itemSize (some pool) head node = .ok (v', none)) ↔
      v.HeadFails itemSize head ∨ v.NodeFails itemSize head node := by
  constructor
  · rintro ⟨v', hput⟩
    unfold varMempoolPut at hput
    unfold HeadFails NodeFails
    cases hslot : v.mempoolTable (v.slot itemSize) with
    | null => cases head <;> cases node <;> simp_all
    | nodes entries =>
      simp only [hslot] at hput
      split at hput
      · simp at hput
      · cases node <;> simp_all
    | dangling => exact absurd hslot (h _)
  · rintro (hhead | hnode)
    · exact ⟨v, varMempoolPut_of_headFails hhead⟩
    · exact ⟨_, varMempoolPut_of_nodeFails hnode⟩

end

end VarMempool

/-- **Table intact on allocation failure.** For every table, size and failing
`calloc`, the call returns NULL and leaves the table as it was if and only if no
list head had been freed before and the `calloc` that fails is that of the list
head. -/
theorem varMempoolPut_leftIntact_iff (v : VarMempool) (itemSize : ℕ) (pool : Mempool)
    (head node : Bool)
    (hfails : v.HeadFails itemSize head ∨ v.NodeFails itemSize head node) :
    (∃ v', v.varMempoolPut itemSize (some pool) head node = .ok (v', none) ∧ v.LeftIntact v') ↔
      v.Tidy ∧ v.mempoolTable (v.slot itemSize) = .null ∧ head = false := by
  constructor
  · rintro ⟨v', hput, htidy, -⟩
    rcases hfails with hhead | hnode
    · rw [VarMempool.varMempoolPut_of_headFails hhead] at hput
      cases hput
      exact ⟨htidy, hhead⟩
    · rw [VarMempool.varMempoolPut_of_nodeFails hnode] at hput
      cases hput
      exact absurd htidy (v.not_tidy_setSlot_dangling _)
  · rintro ⟨htidy, hhead⟩
    exact ⟨v, VarMempool.varMempoolPut_of_headFails hhead, htidy, fun _ _ hget => hget⟩

/-- A new table of sixteen buckets. -/
def sixteenSlots : VarMempool :=
  { tableSize := 16, multiple := 1, mempoolTable := fun _ => .null }

/-- A sub-pool of eight bytes. -/
def eightBytePool : Mempool := (subMempoolCreate 4096 8 1 65536 (fun _ => 0 : ByteMemory)).1

/-- The table in which it is registered. -/
def eightBytes : VarMempool := sixteenSlots.setSlot 8 (.nodes [⟨8, eightBytePool⟩])

/-- Nothing was freed yet. -/
theorem tidy_eightBytes : eightBytes.Tidy := by
  apply VarMempool.Tidy.setSlot
  · intro i
    simp [sixteenSlots]
  · simp

/-- When there is no memory for the node of twenty-four bytes, which share the bucket,
the list head is freed and blocks of eight bytes are looked up through it. -/
theorem registered_size_lost :
    VarMempool.create 16 1 = some sixteenSlots ∧
    sixteenSlots.varMempoolPut 8 (some eightBytePool) true true =
      .ok (eightBytes, some eightBytePool) ∧
    eightBytes.NodeFails 24 true false ∧ eightBytes.get 8 = .ok (some eightBytePool) ∧
    ∃ v', eightBytes.varMempoolPut 24 (some eightBytePool) true false = .ok (v', none) ∧
      v'.get 8 = .error .dangling ∧ ¬ eightBytes.LeftIntact v' := by
  have hnode : eightBytes.NodeFails 24 true false := by
    refine ⟨?_, rfl⟩
    intro entry hentry
    obtain rfl := List.mem_singleton.mp hentry
    decide
  refine ⟨rfl, rfl, hnode, rfl, _, rfl, rfl, ?_⟩
  rintro ⟨htidy, -⟩
  exact eightBytes.not_tidy_setSlot_dangling 8 htidy

/-- Without memory for a list head the table is as it was. -/
theorem head_not_made :
    ∃ v', eightBytes.varMempoolPut 16 (some eightBytePool) false true = .ok (v', none) ∧
      eightBytes.LeftIntact v' :=
  (varMempoolPut_leftIntact_iff eightBytes 16 eightBytePool false true (.inl ⟨rfl, rfl⟩)).mpr
    ⟨tidy_eightBytes, rfl, rfl⟩

/-! ## Runs -/

/-- A request for a size without a sub-pool makes one and does not get its node. -/
def VarMempool.LosesHead (v : VarMempool) (env : VarEnv) (itemSize : ℕ) : Prop :=
  v.get itemSize = .ok none ∧ env.record = true ∧ env.chunk.isSome ∧
    v.NodeFails itemSize env.head env.node

section

variable {M : Type} [WordMemory M] {v v' : VarMempool} {m m' : M} {env : VarEnv}
  {pagesize itemSize : ℕ}

/-- The table behind the look-up of a sub-pool, which may make one. -/
theorem tidy_varSubPool_iff {r : Option Mempool} (h : v.Tidy)
    (hresult : varSubPool env pagesize v m itemSize = .ok (v', m', r)) :
    v'.Tidy ↔ ¬ v.LosesHead env itemSize := by
  unfold varSubPool at hresult
  unfold VarMempool.LosesHead
  cases hget : v.get itemSize with
  | error e => simp [hget, bind, Except.bind] at hresult
  | ok found =>
    simp only [hget, bind, Except.bind] at hresult
    cases found with
    | some pool =>
      cases hresult
      simp [h]
    | none =>
      cases hchunk : (if env.record then env.chunk else none) with
      | none =>
        simp only [hchunk] at hresult
        cases hresult
        cases hrecord : env.record <;> simp_all
      | some chunk =>
        obtain ⟨hrecord, hsome⟩ := Option.ite_none_right_eq_some.mp hchunk
        simp only [hchunk] at hresult
        cases hput : v.put itemSize (subMempoolCreate pagesize itemSize v.multiple chunk m).1
            env.head env.node with
        | error e => simp [hput] at hresult
        | ok v₁ =>
          simp only [hput] at hresult
          cases hresult
          simpa [hrecord, hsome] using h.put_iff hput

/-- The table behind a request. -/
theorem tidy_varMempoolAlloc_iff {r : Option ℕ} (h : v.Tidy)
    (hresult : varMempoolAlloc env pagesize v m itemSize = .ok (v', m', r)) :
    v'.Tidy ↔ ¬ v.LosesHead env (varItemSize itemSize) := by
  unfold varMempoolAlloc at hresult
  cases hsub : varSubPool env pagesize v m (varItemSize itemSize) with
  | error e => simp [hsub, bind, Except.bind] at hresult
  | ok result =>
    obtain ⟨v₁, m₁, found⟩ := result
    have htidy := tidy_varSubPool_iff h hsub
    simp only [hsub, bind, Except.bind] at hresult
    cases found with
    | none =>
      cases hresult
      exact htidy
    | some pool =>
      cases hresult
      rw [VarMempool.tidy_update_iff]
      exact htidy

end

namespace VarState

/-- A call that does not lose the list head of a bucket. -/
def KeepsHeads (s : VarState) : VarOp → Prop
  | .alloc env itemSize => ¬ s.var.LosesHead env (varItemSize itemSize)
  | .calloc env itemSize => ¬ s.var.LosesHead env (varItemSize itemSize)
  | .free _ _ => True
  | .write _ _ => True

/-- Both kinds of request have the table that `var_mempool_alloc` leaves. -/
theorem alloc_of_step {pagesize itemSize : ℕ} {env : VarEnv} {s s' : VarState}
    (hstep : s.Step pagesize (.alloc env itemSize) s' ∨
      s.Step pagesize (.calloc env itemSize) s') :
    ∃ m r, varMempoolAlloc env pagesize s.var s.mem itemSize = .ok (s'.var, m, r) := by
  rcases hstep with hstep | hstep
  · obtain ⟨-, hstep⟩ := Option.ite_none_right_eq_some.mp hstep
    cases hresult : varMempoolAlloc env pagesize s.var s.mem itemSize with
    | error e => simp [hresult] at hstep
    | ok result =>
      obtain ⟨v, m, r⟩ := result
      rw [hresult] at hstep
      cases r with
      | none =>
        cases hstep
        exact ⟨m, none, rfl⟩
      | some p =>
        cases hstep
        exact ⟨m, some p, rfl⟩
  · obtain ⟨-, hstep⟩ := Option.ite_none_right_eq_some.mp hstep
    cases hresult : varMempoolAlloc env pagesize s.var s.mem itemSize with
    | error e => simp [varMempoolCalloc, hresult, bind, Except.bind] at hstep
    | ok result =>
      obtain ⟨v, m, r⟩ := result
      simp only [varMempoolCalloc, hresult, bind, Except.bind] at hstep
      cases r with
      | none =>
        cases hstep
        exact ⟨m, none, rfl⟩
      | some p =>
        cases hstep
        exact ⟨m, some p, rfl⟩

/-- One step from a tidy table. -/
theorem tidy_step_iff {pagesize : ℕ} {s s' : VarState} {op : VarOp} (h : s.var.Tidy)
    (hstep : s.Step pagesize op s') : s'.var.Tidy ↔ s.KeepsHeads op := by
  cases op with
  | alloc env itemSize =>
    obtain ⟨m, r, hresult⟩ := alloc_of_step (.inl hstep)
    exact tidy_varMempoolAlloc_iff h hresult
  | calloc env itemSize =>
    obtain ⟨m, r, hresult⟩ := alloc_of_step (.inr hstep)
    exact tidy_varMempoolAlloc_iff h hresult
  | free data dataSize =>
    obtain ⟨-, hstep⟩ := Option.ite_none_right_eq_some.mp hstep
    refine iff_of_true ?_ trivial
    unfold varMempoolFree at hstep
    cases hget : s.var.get dataSize with
    | error e => simp [hget, bind, Except.bind] at hstep
    | ok found =>
      simp only [hget, bind, Except.bind] at hstep
      cases found with
      | none =>
        cases hstep
        exact h
      | some pool =>
        cases hstep
        exact (VarMempool.tidy_update_iff _ _ _).mpr h
  | write address byte =>
    obtain ⟨-, hstep⟩ := Option.ite_none_right_eq_some.mp hstep
    cases hstep
    exact iff_of_true h trivial

/-- Over whole runs of the pool, no bucket refers to a freed list head in any state if
and only if no request loses one. -/
theorem tidy_throughout_iff {pagesize : ℕ} {s : VarState} (ops : List VarOp) (h : s.var.Tidy) :
    Throughout (VarState.Step pagesize) (fun s => s.var.Tidy) s ops ↔
      Along (VarState.Step pagesize) KeepsHeads s ops :=
  throughout_iff_along (I := fun _ => True) (fun _ _ _ _ _ => trivial)
    (fun _ _ _ _ htidy hstep => tidy_step_iff htidy hstep) trivial h

end VarState

end ThriftProxy
