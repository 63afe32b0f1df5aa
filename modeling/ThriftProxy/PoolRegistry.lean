import ThriftProxy.Reactivation

/-!
# The pools of all services

The static part of `ConnectionPool`: one pool for each service name, through which
the handlers get and release their connections. And a fact about each of the pools:
a connection that is marked busy is lent to some client.
-/

namespace ThriftProxy

open Machine Transition

/-! ## The table of pools -/

/-- `conn_pool_map_`. -/
abbrev ConnectionPoolMap := String → Option ConnectionPool

/-- A fault of a call through the table. -/
inductive RegistryFault
  /-- The NULL pool of an unknown service is dereferenced. -/
  | nullPool
  /-- A fault of the pool. -/
  | pool (fault : PoolFault)
  deriving DecidableEq

namespace ConnectionPoolMap

/-- `addConnPool`: `insert` keeps a pool that is there. -/
def addConnPool (pools : ConnectionPoolMap) (connPool : ConnectionPool) : ConnectionPoolMap :=
  if (pools connPool.serverName).isSome then pools
  else Function.update pools connPool.serverName (some connPool)

/-- `selectConnPool`. -/
def selectConnPool (pools : ConnectionPoolMap) (serverName : String) : Option ConnectionPool :=
  pools serverName

/-- `getConnectionBySer`: an unknown service and an exhausted pool both give NULL. -/
def getConnectionBySer (pools : ConnectionPoolMap) (serverName : String) (outcome : ℕ → Bool) :
    Except RegistryFault (ConnectionPoolMap × Option ℕ) :=
  match pools.selectConnPool serverName with
  | none => .ok (pools, none)
  | some connPool =>
    match connPool.getConnection outcome with
    | .ok (p, conn) => .ok (Function.update pools serverName (some p), conn)
    | .error fault => .error (.pool fault)

/-- `releaseConnectionBySer`: an unknown service is logged and then dereferenced. -/
def releaseConnectionBySer (pools : ConnectionPoolMap) (serverName : String) (conn : ℕ)
    (state : Bool) (now : ℤ) (outcome : ℕ → Bool) : Except RegistryFault ConnectionPoolMap :=
  match pools.selectConnPool serverName with
  | none => .error .nullPool
  | some connPool =>
    match connPool.release conn state now outcome with
    | .ok p => .ok (Function.update pools serverName (some p))
    | .error fault => .error (.pool fault)

section

variable {pools pools' : ConnectionPoolMap} {serverName : String} {connPool : ConnectionPool}
  {conn : ℕ} {state : Bool} {now : ℤ} {outcome : ℕ → Bool}

/-- The pool of a service that has none is added. -/
theorem addConnPool_of_none (h : pools connPool.serverName = none) :
    pools.addConnPool connPool = Function.update pools connPool.serverName (some connPool) := by
  simp [addConnPool, h]

/-- What `getConnectionBySer` does. -/
theorem getConnectionBySer_cases {r : Option ℕ}
    (h : pools.getConnectionBySer serverName outcome = .ok (pools', r)) :
    (pools serverName = none ∧ pools' = pools ∧ r = none) ∨
    (∃ p p', pools serverName = some p ∧ p.getConnection outcome = .ok (p', r) ∧
      pools' = Function.update pools serverName (some p')) := by
  unfold getConnectionBySer selectConnPool at h
  cases hpool : pools serverName with
  | none =>
    simp only [hpool, Except.ok.injEq, Prod.mk.injEq] at h
    exact .inl ⟨rfl, h.1.symm, h.2.symm⟩
  | some p =>
    simp only [hpool] at h
    cases hget : p.getConnection outcome with
    | error fault => simp [hget] at h
    | ok result =>
      obtain ⟨p', conn⟩ := result
      simp only [hget, Except.ok.injEq, Prod.mk.injEq] at h
      exact .inr ⟨p, p', rfl, by rw [hget, h.2], h.1.symm⟩

/-- What `releaseConnectionBySer` does. -/
theorem releaseConnectionBySer_cases
    (h : pools.releaseConnectionBySer serverName conn state now outcome = .ok pools') :
    ∃ p p', pools serverName = some p ∧ p.release conn state now outcome = .ok p' ∧
      pools' = Function.update pools serverName (some p') := by
  unfold releaseConnectionBySer selectConnPool at h
  cases hpool : pools serverName with
  | none => simp [hpool] at h
  | some p =>
    simp only [hpool] at h
    cases hrelease : p.release conn state now outcome with
    | error fault => simp [hrelease] at h
    | ok p' =>
      simp only [hrelease, Except.ok.injEq] at h
      exact ⟨p, p', rfl, hrelease, h.symm⟩

end

end ConnectionPoolMap

/-! ## Busy connections are lent -/

namespace ConnectionPool

variable {p p' : ConnectionPool} {outcome : ℕ → Bool} {i conn : ℕ} {c : Connection}

/-- Whether the connection at an index is marked busy. -/
def busyAt (p : ConnectionPool) (i : ℕ) : Bool := p.connections[i]?.any Connection.isBusy

/-- A busy index has a busy connection. -/
theorem busyAt_iff : p.busyAt i = true ↔ ∃ c, p.connections[i]? = some c ∧ c.isBusy = true := by
  unfold busyAt
  cases p.connections[i]? <;> simp

/-- The second loop of `getConnection` marks one connection busy. -/
theorem isBusy_probed {found : Option ℕ} (h : (probed found i c).isBusy = true) :
    found = some i ∨ c.isBusy = true := by
  by_cases hbusy : c.isBusy = true
  · exact .inr hbusy
  · left
    cases found with
    | none => simp [probed, hbusy, Connection.setDead] at h
    | some f =>
      by_cases heq : i = f
      · rw [heq]
      · have hsame : (probed (some f) i c).isBusy = c.isBusy := by
          rw [probed, if_neg hbusy]
          simp only [heq, if_false]
          split <;> rfl
        exact absurd (hsame ▸ h) hbusy

/-- A release marks its connection as not busy. -/
theorem isBusy_released (conn : ℕ) (status : Bool) (i : ℕ) (c : Connection) :
    (released conn status i c).isBusy = (!decide (i = conn) && c.isBusy) := by
  unfold released
  by_cases heq : i = conn
  · cases status <;> simp [heq, resetConnection, Connection.setBusy, Connection.setDead,
      Connection.closeTransport]
  · cases status <;> simp [heq, resetConnection, Connection.setDead, Connection.closeTransport]

/-- The reactivation pass marks nothing. -/
theorem isBusy_reactivate (outcome : ℕ → Bool) (i : ℕ) (c : Connection) :
    (reactivate outcome i c).isBusy = c.isBusy := by
  unfold reactivate
  split
  · split <;> rfl
  · rfl

/-- `getConnection` marks nothing busy but what it returns. -/
theorem busyAt_of_getConnection {r : Option ℕ} (h : p.WellFormed)
    (hget : p.getConnection outcome = .ok (p', r)) (hbusy : p'.busyAt i = true) :
    r = some i ∨ p.busyAt i = true := by
  obtain ⟨k, -, -, -, rfl⟩ | ⟨-, -, rfl⟩ := getConnection_cases h hget
  · exact .inr hbusy
  · obtain ⟨c', hc', hprobed⟩ := busyAt_iff.mp hbusy
    rw [List.getElem?_mapIdx, Option.map_eq_some_iff] at hc'
    obtain ⟨c, hc, rfl⟩ := hc'
    exact (isBusy_probed hprobed).imp_right fun hold => busyAt_iff.mpr ⟨c, hc, hold⟩

/-- After a release its connection is not busy, and nothing else has become so. -/
theorem busyAt_of_afterRelease {status : Bool} {now : ℤ}
    (hbusy : (p.afterRelease conn status now outcome).busyAt i = true) :
    i ≠ conn ∧ p.busyAt i = true := by
  obtain ⟨c', hc', hafter⟩ := busyAt_iff.mp hbusy
  rw [getElem?_afterRelease, Option.map_eq_some_iff] at hc'
  obtain ⟨c, hc, rfl⟩ := hc'
  have hreleased : (released conn status i c).isBusy = true := by
    split at hafter
    · rwa [isBusy_reactivate] at hafter
    · exact hafter
  rw [isBusy_released, Bool.and_eq_true, Bool.not_eq_true', decide_eq_false_iff_not] at hreleased
  exact ⟨hreleased.1, busyAt_iff.mpr ⟨c, hc, hreleased.2⟩⟩

/-- After `init` nothing is busy. -/
theorem Initialised.busyAt_eq_false (h : p.Initialised) (i : ℕ) : p.busyAt i = false := by
  obtain ⟨⟨serverName, ipPortPair, memory, poolSize, minSize, interval, outcome, hinit⟩, -⟩ := h
  obtain ⟨-, -, rfl⟩ := init_cases hinit
  by_contra hbusy
  obtain ⟨c, hc, hbusy⟩ := busyAt_iff.mp (Bool.eq_true_of_not_eq_false hbusy)
  have hmem := List.mem_of_getElem? hc
  simp only [new, configure, List.nil_append, roundsOf, List.mem_flatMap] at hmem
  obtain ⟨k, -, hmem⟩ := hmem
  obtain ⟨j, hj, rfl⟩ := List.mem_mapIdx.mp hmem
  cases hbusy

end ConnectionPool

namespace LendingState

/-- Every busy connection is lent. -/
def BusyHeld (s : LendingState) : Prop := ∀ i, s.pool.busyAt i = true → s.Held i

/-- Busy connections stay lent. A connection that is lent twice is marked as not busy
by the first release. -/
theorem BusyHeld.step {s s' : LendingState} {op : LendingOp} (hvalid : s.Valid)
    (h : s.BusyHeld) (hstep : Step s op s') : s'.BusyHeld := by
  obtain ⟨client, outcome, p, conn, rfl, hget, rfl⟩ | ⟨client, outcome, p, rfl, hget, rfl⟩ |
    ⟨client, conn, status, now, outcome, rfl, hloan, rfl⟩ | ⟨conn, rfl, rfl⟩ :=
    step_cases hvalid hstep
  · intro i hbusy
    rcases ConnectionPool.busyAt_of_getConnection hvalid.wellFormed hget hbusy with hi | hold
    · obtain rfl := Option.some.inj hi
      exact List.mem_cons_self
    · exact List.mem_cons_of_mem _ (h i hold)
  · intro i hbusy
    rcases ConnectionPool.busyAt_of_getConnection hvalid.wellFormed hget hbusy with hi | hold
    · cases hi
    · exact h i hold
  · intro i hbusy
    obtain ⟨hne, hold⟩ := ConnectionPool.busyAt_of_afterRelease hbusy
    obtain ⟨loan, hmem, rfl⟩ := List.mem_map.mp (h i hold)
    refine List.mem_map.mpr ⟨loan, (List.mem_erase_of_ne ?_).mpr hmem, rfl⟩
    rintro rfl
    exact hne rfl
  · intro i hbusy
    refine h i ?_
    obtain ⟨c', hc', hclosed⟩ := ConnectionPool.busyAt_iff.mp hbusy
    rw [List.getElem?_modify] at hc'
    obtain ⟨c, hc, rfl⟩ := Option.map_eq_some_iff.mp hc'
    refine ConnectionPool.busyAt_iff.mpr ⟨c, hc, ?_⟩
    split at hclosed
    · exact hclosed
    · exact hclosed

/-- No operation changes the number of connections. -/
theorem length_step {s s' : LendingState} {op : LendingOp} (h : s.Valid) (hstep : Step s op s') :
    s'.pool.connections.length = s.pool.connections.length := by
  obtain ⟨client, outcome, p, conn, rfl, hget, rfl⟩ | ⟨client, outcome, p, rfl, hget, rfl⟩ |
    ⟨client, conn, status, now, outcome, rfl, hloan, rfl⟩ | ⟨conn, rfl, rfl⟩ := step_cases h hstep
  · exact (ConnectionPool.getConnection_wellFormed h.wellFormed hget).2
  · exact (ConnectionPool.getConnection_wellFormed h.wellFormed hget).2
  · exact (ConnectionPool.afterRelease_wellFormed h.wellFormed conn status now outcome).2
  · exact List.length_modify ..

/-- What holds of a pool of some size in every state of its clients. -/
structure Kept (size : ℕ) (s : LendingState) : Prop where
  /-- The loans are of its connections. -/
  valid : s.Valid
  /-- Busy connections are lent. -/
  busyHeld : s.BusyHeld
  /-- The size stays. -/
  length_eq : s.pool.connections.length = size

/-- A run from an initialised pool. -/
theorem kept_of_run {p : ConnectionPool} (h : p.Initialised) {ops : List LendingOp}
    {s : LendingState} (hrun : Run Step (initial p) ops s) : s.Kept p.connections.length := by
  refine hrun.invariant ?_ ⟨initial_valid h, ?_, rfl⟩
  · rintro s op s' ⟨hvalid, hbusy, hlen⟩ hstep
    exact ⟨hvalid.step hstep, hbusy.step hvalid hstep, (length_step hvalid hstep).trans hlen⟩
  · intro i hbusy
    rw [initial, h.busyAt_eq_false] at hbusy
    cases hbusy

end LendingState

end ThriftProxy
