import ThriftProxy.PoolSemantics
import ThriftProxy.Lib.Transition

/-!
# Clients of the connection pool

Any number of clients call `getConnection` and `release` in any order, each
call being one critical section, while servers close transports at any time.
The loans record which client has got which connection and not yet released it.
The round-robin path of `getConnection` does not mark what it lends as busy, so
a run lends every connection exclusively exactly when each call finds a free
connection ahead of every held one.
-/

namespace ThriftProxy

open Machine Transition

/-- One pool and the loans its clients hold, as pairs of client and connection. -/
structure LendingState where
  /-- The pool. -/
  pool : ConnectionPool
  /-- The connections got and not yet released. -/
  loans : List (ℕ × ℕ)

/-- A call of a client, with what the environment supplies to it, or the
server's end of a connection closing. -/
inductive LendingOp
  | getConnection (client : ℕ) (outcome : ℕ → Bool)
  | release (client conn : ℕ) (status : Bool) (now : ℤ) (outcome : ℕ → Bool)
  | peerClose (conn : ℕ)

namespace LendingState

/-- The state after one operation. A client releases only what it got, and an
access outside the vector has no defined successor. -/
def step (s : LendingState) : LendingOp → Option LendingState
  | .getConnection client outcome =>
    match s.pool.getConnection outcome with
    | .ok (p, some conn) => some { pool := p, loans := (client, conn) :: s.loans }
    | .ok (p, none) => some { s with pool := p }
    | .error _ => none
  | .release client conn status now outcome =>
    if (client, conn) ∈ s.loans then
      match s.pool.release conn status now outcome with
      | .ok p => some { pool := p, loans := s.loans.erase (client, conn) }
      | .error _ => none
    else none
  | .peerClose conn =>
    some { s with pool := { s.pool with
      connections := s.pool.connections.modify conn Connection.closeTransport } }

/-- The transition relation of a pool and its clients. -/
def Step (s : LendingState) (op : LendingOp) (s' : LendingState) : Prop := s.step op = some s'

/-- Some client holds the connection. -/
def Held (s : LendingState) (conn : ℕ) : Prop := conn ∈ s.loans.map Prod.snd

/-- No connection is lent twice at the same time. -/
def Exclusive (s : LendingState) : Prop := (s.loans.map Prod.snd).Nodup

instance (s : LendingState) : Decidable s.Exclusive := by unfold Exclusive; infer_instance

/-- Every loan is of a connection of a well-formed pool. -/
structure Valid (s : LendingState) : Prop where
  /-- The pool is well-formed. -/
  wellFormed : s.pool.WellFormed
  /-- The loans are of its connections. -/
  held_lt : ∀ i, s.Held i → i < s.pool.connections.length

/-- The calls that lend a free connection. A held connection that is still
available is preceded in the scan by a free one that is available; and when
none is available, a held one that can be reopened is preceded in the vector by
a free one that can. -/
def LendsFree (s : LendingState) : LendingOp → Prop
  | .getConnection _ outcome => ∀ i, s.Held i →
    (availableAt s.pool.connections i = true →
      ∃ j, ¬ s.Held j ∧ availableAt s.pool.connections j = true ∧ s.pool.rank j < s.pool.rank i) ∧
    ((∀ j, availableAt s.pool.connections j = false) →
      reopensAt s.pool.connections outcome i = true →
      ∃ j, ¬ s.Held j ∧ reopensAt s.pool.connections outcome j = true ∧ j < i)
  | _ => True

/-! ## One operation -/

/-- What an operation does to the pool and to the loans. -/
theorem step_cases {s s' : LendingState} {op : LendingOp} (h : s.Valid) (hstep : Step s op s') :
    (∃ client outcome p conn, op = .getConnection client outcome ∧
      s.pool.getConnection outcome = .ok (p, some conn) ∧
      s' = { pool := p, loans := (client, conn) :: s.loans }) ∨
    (∃ client outcome p, op = .getConnection client outcome ∧
      s.pool.getConnection outcome = .ok (p, none) ∧ s' = { s with pool := p }) ∨
    (∃ client conn status now outcome, op = .release client conn status now outcome ∧
      (client, conn) ∈ s.loans ∧
      s' = { pool := s.pool.afterRelease conn status now outcome,
             loans := s.loans.erase (client, conn) }) ∨
    (∃ conn, op = .peerClose conn ∧
      s' = { s with pool := { s.pool with
        connections := s.pool.connections.modify conn Connection.closeTransport } }) := by
  cases op with
  | getConnection client outcome =>
    simp only [Step, step] at hstep
    cases hget : s.pool.getConnection outcome with
    | error e => simp [hget] at hstep
    | ok result =>
      obtain ⟨p, _ | conn⟩ := result
      · right; left
        simp only [hget, Option.some.injEq] at hstep
        exact ⟨client, outcome, p, rfl, hget, hstep.symm⟩
      · left
        simp only [hget, Option.some.injEq] at hstep
        exact ⟨client, outcome, p, conn, rfl, hget, hstep.symm⟩
  | release client conn status now outcome =>
    simp only [Step, step] at hstep
    split at hstep
    · rename_i hloan
      have hconn : conn < s.pool.connections.length :=
        h.held_lt conn (List.mem_map.mpr ⟨_, hloan, rfl⟩)
      rw [ConnectionPool.release_eq h.wellFormed status now outcome hconn] at hstep
      right; right; left
      exact ⟨client, conn, status, now, outcome, rfl, hloan, (Option.some.inj hstep).symm⟩
    · cases hstep
  | peerClose conn =>
    right; right; right
    exact ⟨conn, rfl, (Option.some.inj hstep).symm⟩

/-- Loans stay loans of the pool's connections. -/
theorem Valid.step {s s' : LendingState} {op : LendingOp} (h : s.Valid) (hstep : Step s op s') :
    s'.Valid := by
  obtain ⟨client, outcome, p, conn, rfl, hget, rfl⟩ | ⟨client, outcome, p, rfl, hget, rfl⟩ |
    ⟨client, conn, status, now, outcome, rfl, hloan, rfl⟩ | ⟨conn, rfl, rfl⟩ :=
    step_cases h hstep
  · obtain ⟨hwf, hlen⟩ := ConnectionPool.getConnection_wellFormed h.wellFormed hget
    refine ⟨hwf, ?_⟩
    intro i hi
    rw [hlen]
    rcases List.mem_cons.mp hi with rfl | hi
    · exact ConnectionPool.lt_length_of_getConnection h.wellFormed hget
    · exact h.held_lt i hi
  · obtain ⟨hwf, hlen⟩ := ConnectionPool.getConnection_wellFormed h.wellFormed hget
    exact ⟨hwf, fun i hi => hlen ▸ h.held_lt i hi⟩
  · obtain ⟨hwf, hlen⟩ :=
      ConnectionPool.afterRelease_wellFormed h.wellFormed conn status now outcome
    refine ⟨hwf, ?_⟩
    intro i hi
    obtain ⟨loan, hmem, rfl⟩ := List.mem_map.mp hi
    rw [hlen]
    exact h.held_lt _ (List.mem_map.mpr ⟨loan, List.mem_of_mem_erase hmem, rfl⟩)
  · refine ⟨⟨h.wellFormed.size_pos, by simpa using h.wellFormed.length_eq⟩, ?_⟩
    intro i hi
    simpa using h.held_lt i hi

/-- A call lends a connection that nobody holds exactly when it meets `LendsFree`. -/
theorem lends_free_iff {s : LendingState} {client : ℕ} {outcome : ℕ → Bool} {p : ConnectionPool}
    {conn : ℕ} (h : s.Valid) (hget : s.pool.getConnection outcome = .ok (p, some conn)) :
    ¬ s.Held conn ↔ s.LendsFree (.getConnection client outcome) := by
  obtain ⟨i, hi, havail, hleast, -⟩ | ⟨hnone, hfind, -⟩ :=
    ConnectionPool.getConnection_cases h.wellFormed hget
  · obtain rfl := Option.some.inj hi
    constructor
    · intro hfree j hj
      refine ⟨fun hjavail => ⟨conn, hfree, havail, ?_⟩, fun hnone => ?_⟩
      · have hne : s.pool.rank conn ≠ s.pool.rank j := by
          intro heq
          have hsame := h.wellFormed.rank_injective (lt_length_of_availableAt havail)
            (lt_length_of_availableAt hjavail) heq
          exact hfree (hsame ▸ hj)
        have hle := hleast j hjavail
        omega
      · simp [hnone conn] at havail
    · intro hcond hheld
      obtain ⟨j, -, hjavail, hlt⟩ := (hcond conn hheld).1 havail
      have hle := hleast j hjavail
      omega
  · obtain ⟨hreopens, hmem, hbefore⟩ := List.find?_range_eq_some.mp hfind.symm
    constructor
    · intro hfree j hj
      refine ⟨fun hjavail => by simp [hnone j] at hjavail, fun _ hjreopens => ?_⟩
      refine ⟨conn, hfree, hreopens, ?_⟩
      by_contra hge
      rcases Nat.lt_or_ge j conn with hlt | hge'
      · simpa [hjreopens] using hbefore j hlt
      · have heq : j = conn := by omega
        exact hfree (heq ▸ hj)
    · intro hcond hheld
      obtain ⟨j, -, hjreopens, hlt⟩ := (hcond conn hheld).2 hnone hreopens
      simpa [hjreopens] using hbefore j hlt

/-- A call that returns NULL, a release and a closing peer lend nothing; with no
connection lent there is no held one that can be lent. -/
theorem lendsFree_of_none {s : LendingState} {client : ℕ} {outcome : ℕ → Bool}
    {p : ConnectionPool} (h : s.Valid) (hget : s.pool.getConnection outcome = .ok (p, none)) :
    s.LendsFree (.getConnection client outcome) := by
  obtain ⟨i, hi, -⟩ | ⟨hnone, hfind, -⟩ := ConnectionPool.getConnection_cases h.wellFormed hget
  · cases hi
  · intro j _
    refine ⟨fun havail => by simp [hnone j] at havail, fun _ hreopens => ?_⟩
    have hj := List.find?_range_eq_none.mp hfind.symm j (lt_length_of_reopensAt hreopens)
    simp [hreopens] at hj

/-- An operation keeps lending exclusive exactly when it meets `LendsFree`. -/
theorem exclusive_step_iff {s s' : LendingState} {op : LendingOp} (h : s.Valid)
    (hexcl : s.Exclusive) (hstep : Step s op s') : s'.Exclusive ↔ s.LendsFree op := by
  obtain ⟨client, outcome, p, conn, rfl, hget, rfl⟩ | ⟨client, outcome, p, rfl, hget, rfl⟩ |
    ⟨client, conn, status, now, outcome, rfl, hloan, rfl⟩ | ⟨conn, rfl, rfl⟩ :=
    step_cases h hstep
  · rw [← lends_free_iff h hget]
    unfold Exclusive at hexcl ⊢
    rw [List.map_cons, List.nodup_cons]
    exact ⟨fun hnodup => hnodup.1, fun hfree => ⟨hfree, hexcl⟩⟩
  · exact iff_of_true hexcl (lendsFree_of_none h hget)
  · refine iff_of_true ?_ trivial
    exact hexcl.sublist (List.erase_sublist.map Prod.snd)
  · exact iff_of_true hexcl trivial

end LendingState

/-! ## Runs from an initialised pool -/

/-- A pool as `Proxy::Init` builds it, with a vector of `pool_size_ >= 1` entries. -/
def ConnectionPool.Initialised (p : ConnectionPool) : Prop :=
  (∃ serverName ipPortPair memory poolSize minSize checkIntervalSec outcome,
    ((ConnectionPool.new serverName ipPortPair memory).configure poolSize minSize
      checkIntervalSec).init outcome = .ok p) ∧
  1 ≤ p.poolSize ∧ (p.connections.length : ℤ) = p.poolSize

/-- A pool to which no client has made a call yet. -/
def LendingState.initial (p : ConnectionPool) : LendingState := { pool := p, loans := [] }

/-- An initialised pool has no loans outside its vector. -/
theorem LendingState.initial_valid {p : ConnectionPool} (h : p.Initialised) :
    (LendingState.initial p).Valid := by
  refine ⟨⟨h.2.1, h.2.2⟩, ?_⟩
  intro i hi
  simp [LendingState.initial, LendingState.Held] at hi

/-- **Exclusive lending.** In every run from an initialised pool, no connection
is ever lent twice at the same time if and only if every call of `getConnection`
finds a free connection ahead of every held one that it could lend. -/
theorem exclusive_throughout_iff {p : ConnectionPool} (h : p.Initialised) (ops : List LendingOp) :
    Throughout LendingState.Step LendingState.Exclusive (LendingState.initial p) ops ↔
      Along LendingState.Step LendingState.LendsFree (LendingState.initial p) ops := by
  apply throughout_iff_along (I := LendingState.Valid)
  · intro s op s' hvalid hstep
    exact hvalid.step hstep
  · intro s op s' hvalid hexcl hstep
    exact LendingState.exclusive_step_iff hvalid hexcl hstep
  · exact LendingState.initial_valid h
  · exact List.nodup_nil

/-- A pool of one connection whose server answered. -/
def singlePool : ConnectionPool :=
  { connections := [Connection.init "10.1.1.83" 9093 true], poolSize := 1, minSize := 1,
    maxIdleSec := 10, checkIntervalSec := 5, count := 0, serverName := "tis",
    lastCheckedTime := 0, ipPortPair := [("10.1.1.83", 9093)] }

/-- The single-connection pool is the result of construction, set-up and `init`. -/
theorem singlePool_initialised : singlePool.Initialised :=
  ⟨⟨"tis", [("10.1.1.83", 9093)], 0, 1, 1, 5, fun _ => true, by decide⟩, by decide, by decide⟩

/-- Two clients that call `getConnection` in turn both get the only connection. -/
theorem singlePool_lent_twice :
    singlePool.Initialised ∧
    ¬ Throughout LendingState.Step LendingState.Exclusive (LendingState.initial singlePool)
      [.getConnection 0 fun _ => true, .getConnection 1 fun _ => true] := by
  refine ⟨singlePool_initialised, ?_⟩
  intro h
  let lent : LendingState := { pool := { singlePool with count := 1 }, loans := [(0, 0)] }
  let shared : LendingState := { pool := { singlePool with count := 2 }, loans := [(1, 0), (0, 0)] }
  have hfirst : LendingState.Step (LendingState.initial singlePool)
      (.getConnection 0 fun _ => true) lent := rfl
  have hsecond : LendingState.Step lent (.getConnection 1 fun _ => true) shared := rfl
  have hshared : shared.Exclusive :=
    h _ shared (List.prefix_refl _) (Run.cons hfirst (Run.cons hsecond (Run.nil _)))
  exact absurd hshared (by decide)

/-- Two clients that have the only connection one after the other. -/
theorem exclusive_throughout_iff_singlePool :
    Throughout LendingState.Step LendingState.Exclusive (LendingState.initial singlePool)
      [.getConnection 0 fun _ => true, .release 0 0 true 0 fun _ => true,
        .getConnection 1 fun _ => true] := by
  refine (exclusive_throughout_iff singlePool_initialised _).mpr ?_
  refine along_cons.mpr ?_
  rintro _ ⟨⟩
  refine ⟨fun i hi => absurd hi List.not_mem_nil, along_cons.mpr ?_⟩
  rintro _ ⟨⟩
  refine ⟨trivial, along_cons.mpr ?_⟩
  rintro _ ⟨⟩
  exact ⟨fun i hi => absurd hi List.not_mem_nil, along_nil⟩

end ThriftProxy
