import ThriftProxy.Lending
import ThriftProxy.PoolLayout

/-!
# Reactivation of a failed pool

`release` reopens the connections of the pool after a failure, or when too few
of them are available, but not more often than every `check_interval_sec_`
seconds. The time of the last pass is kept in `last_checked_time_`, which the
constructor does not set, so the first pass waits for whatever the memory held.
A run here is a sequence of calls on one pool with the clock readings of its
releases; the history remembers the reading at which the last pass was made.
-/

namespace ThriftProxy

open Machine Transition

namespace ConnectionPool

/-! ## Releases that tell whether they made a pass -/

/-- `reactivationPass`, telling whether the loop over the pool was entered. -/
def reactivationPassMarked (p : ConnectionPool) (now : ℤ) (outcome : ℕ → Bool) :
    Except PoolFault (ConnectionPool × Bool) := do
  if wrapInt (now - p.lastCheckedTime) > p.checkIntervalSec then
    let conns ← updateFrom (reactivate outcome) p.poolSize.toNat 0 p.connections
    .ok ({ p with connections := conns, lastCheckedTime := now }, true)
  else
    .ok (p, false)

/-- `release`, telling whether it performed a reactivation pass. -/
def releaseMarked (p : ConnectionPool) (conn : ℕ) (status : Bool) (now : ℤ)
    (outcome : ℕ → Bool) : Except PoolFault (ConnectionPool × Bool) :=
  p.releaseWith conn status (fun q => q.reactivationPassMarked now outcome) fun q => (q, false)

/-- Forgetting the mark of a pass. -/
theorem reactivationPassMarked_map (p : ConnectionPool) (now : ℤ) (outcome : ℕ → Bool) :
    (p.reactivationPassMarked now outcome).map Prod.fst = p.reactivationPass now outcome := by
  unfold reactivationPassMarked reactivationPass
  split
  · cases updateFrom (reactivate outcome) p.poolSize.toNat 0 p.connections <;> rfl
  · rfl

/-- A marked release is a release. -/
theorem releaseMarked_map (p : ConnectionPool) (conn : ℕ) (status : Bool) (now : ℤ)
    (outcome : ℕ → Bool) :
    (p.releaseMarked conn status now outcome).map Prod.fst =
      p.release conn status now outcome := by
  unfold releaseMarked releaseWith release
  cases connectionAt p.connections conn with
  | error e => rfl
  | ok c =>
    cases status with
    | true =>
      simp only [bind, Except.bind, if_true]
      cases availableCount _ with
      | error e => rfl
      | ok count =>
        simp only
        split
        · exact reactivationPassMarked_map _ now outcome
        · rfl
    | false =>
      simp only [bind, Except.bind, Bool.false_eq_true, if_false]
      cases updateFrom resetConnection p.poolSize.toNat 0 _ with
      | error e => rfl
      | ok conns => exact reactivationPassMarked_map _ now outcome

/-- The pool after a pass at `now`. -/
def reactivated (p : ConnectionPool) (now : ℤ) (outcome : ℕ → Bool) : ConnectionPool :=
  { p with connections := p.connections.mapIdx (reactivate outcome), lastCheckedTime := now }

/-- Whether a release finds that the interval since `last_checked_time_` is over. -/
def IntervalOver (p : ConnectionPool) (now : ℤ) : Prop :=
  p.checkIntervalSec < wrapInt (now - p.lastCheckedTime)

instance (p : ConnectionPool) (now : ℤ) : Decidable (p.IntervalOver now) := by
  unfold IntervalOver
  infer_instance

/-- A release of a connection of a well-formed pool makes a pass when it calls
for one and the interval is over. -/
theorem releaseMarked_eq {p : ConnectionPool} (h : p.WellFormed) {conn : ℕ} (status : Bool)
    (now : ℤ) (outcome : ℕ → Bool) (hconn : conn < p.connections.length) :
    p.releaseMarked conn status now outcome =
      .ok (if p.CallsForPass conn status ∧ p.IntervalOver now then
        ((p.atCheck conn status).reactivated now outcome, true)
      else (p.atCheck conn status, false)) := by
  have hsize : p.poolSize.toNat = (p.atCheck conn status).connections.length := by
    have := (h.atCheck conn status).length_eq
    change (_ : ℤ) = p.poolSize at this
    omega
  rw [releaseMarked, releaseWith_eq h status _ _ hconn]
  by_cases hcalls : p.CallsForPass conn status
  · simp only [hcalls, if_true, true_and, reactivationPassMarked]
    change (if p.IntervalOver now then
      updateFrom (reactivate outcome) p.poolSize.toNat 0 (p.atCheck conn status).connections >>=
        fun conns => .ok _ else _) = _
    rw [hsize, updateFrom_all]
    split <;> rfl
  · simp only [hcalls, if_false, false_and]

/-! ## Vectors shorter than the pool's size -/

/-- A loop that leaves the vector is undefined. -/
theorem updateFrom_of_short (f : ℕ → Connection → Connection) {remaining i : ℕ}
    {conns : List Connection} (h : conns.length < i + remaining) (hi : i ≤ conns.length) :
    ∃ e, updateFrom f remaining i conns = .error e := by
  induction remaining generalizing i conns with
  | zero => omega
  | succ remaining ih =>
    rcases Nat.lt_or_ge i conns.length with hlt | hge
    · rw [updateFrom, connectionAt_of_lt hlt]
      exact ih (by simpa using by omega) (by simpa using Nat.succ_le_of_lt hlt)
    · have hneg : ¬ (i : ℤ) < 0 := by omega
      have hout : connectionAt conns i = .error (.outOfRange i) := by
        simp [connectionAt, hneg, List.getElem?_eq_none hge]
      exact ⟨_, by rw [updateFrom, hout]; rfl⟩

/-- A count that leaves the vector is undefined. -/
theorem availableFrom_of_short {remaining i : ℕ} {conns : List Connection}
    (h : conns.length < i + remaining) (hi : i ≤ conns.length) :
    ∃ e, availableFrom conns remaining i = .error e := by
  induction remaining generalizing i with
  | zero => omega
  | succ remaining ih =>
    rcases Nat.lt_or_ge i conns.length with hlt | hge
    · obtain ⟨e, he⟩ := ih (i := i + 1) (by omega) (by omega)
      rw [availableFrom, connectionAt_of_lt hlt]
      exact ⟨e, by simp only [bind, Except.bind, he]⟩
    · have hneg : ¬ (i : ℤ) < 0 := by omega
      have hout : connectionAt conns i = .error (.outOfRange i) := by
        simp [connectionAt, hneg, List.getElem?_eq_none hge]
      exact ⟨_, by rw [availableFrom, hout]; rfl⟩

/-- Every release of a pool whose vector is shorter than `pool_size_` leaves the vector. -/
theorem releaseMarked_of_short {p : ConnectionPool}
    (h : (p.connections.length : ℤ) < p.poolSize) {conn : ℕ} (status : Bool) (now : ℤ)
    (outcome : ℕ → Bool) (hconn : conn < p.connections.length) :
    ∃ e, p.releaseMarked conn status now outcome = .error e := by
  have hsize : p.connections.length < 0 + p.poolSize.toNat := by omega
  unfold releaseMarked releaseWith
  rw [connectionAt_of_lt hconn]
  cases status with
  | true =>
    have hshort : ((p.connections.set conn (p.connections[conn].setBusy false)).set conn
        ((p.connections[conn].setBusy false).setDead false)).length < 0 + p.poolSize.toNat := by
      rwa [List.length_set, List.length_set]
    obtain ⟨e, he⟩ := availableFrom_of_short hshort (Nat.zero_le _)
    exact ⟨e, by simp only [bind, Except.bind, if_true, availableCount, he]⟩
  | false =>
    have hshort : (p.connections.set conn (p.connections[conn].setBusy false)).length <
        0 + p.poolSize.toNat := by rwa [List.length_set]
    obtain ⟨e, he⟩ := updateFrom_of_short resetConnection hshort (Nat.zero_le _)
    exact ⟨e, by simp only [bind, Except.bind, Bool.false_eq_true, if_false, he]⟩

/-! ## What a call leaves alone -/

/-- The second loop of `getConnection` keeps the vector's length. -/
theorem length_of_reopenFirst {outcome : ℕ → Bool} {remaining i : ℕ}
    {conns conns' : List Connection} {found : Option ℕ}
    (h : reopenFirst outcome remaining i conns = .ok (conns', found)) :
    conns'.length = conns.length := by
  induction remaining generalizing i conns with
  | zero =>
    obtain ⟨rfl, -⟩ := Prod.mk.inj (Except.ok.inj h)
    rfl
  | succ remaining ih =>
    rw [reopenFirst] at h
    cases hat : connectionAt conns i with
    | error e => simp [hat, bind, Except.bind] at h
    | ok conn =>
      simp only [hat, bind, Except.bind] at h
      split at h
      · split at h
        · obtain ⟨rfl, -⟩ := Prod.mk.inj (Except.ok.inj h)
          exact List.length_set
        · rw [ih h, List.length_set]
      · exact ih h

/-- `getConnection` changes the flags and the cursor. -/
theorem getConnection_frame {p p' : ConnectionPool} {outcome : ℕ → Bool} {r : Option ℕ}
    (h : p.getConnection outcome = .ok (p', r)) :
    p'.connections.length = p.connections.length ∧ p'.poolSize = p.poolSize ∧
      p'.checkIntervalSec = p.checkIntervalSec ∧ p'.lastCheckedTime = p.lastCheckedTime := by
  unfold getConnection at h
  by_cases hzero : p.poolSize = 0
  · simp [hzero, bind, Except.bind] at h
  · simp only [hzero, if_false, bind, Except.bind] at h
    cases hscan : scanAvailable p.connections p.poolSize p.poolSize.toNat
        (p.count.tmod p.poolSize) with
    | error e => simp [hscan] at h
    | ok found =>
      cases found with
      | some i =>
        simp only [hscan, Except.ok.injEq, Prod.mk.injEq] at h
        obtain ⟨rfl, -⟩ := h
        exact ⟨rfl, rfl, rfl, rfl⟩
      | none =>
        simp only [hscan] at h
        cases hopen : reopenFirst outcome p.poolSize.toNat 0 p.connections with
        | error e => simp [hopen] at h
        | ok result =>
          simp only [hopen, Except.ok.injEq, Prod.mk.injEq] at h
          obtain ⟨rfl, -⟩ := h
          exact ⟨length_of_reopenFirst hopen, rfl, rfl, rfl⟩

/-- What `init` has built when it returns. -/
theorem init_cases {p p' : ConnectionPool} {outcome : ℕ → Bool} (h : p.init outcome = .ok p') :
    p.ipPortPair.length ≠ 0 ∧
      ¬ 2 ^ 32 ≤ (p.poolSize % 2 ^ 64).toNat / p.ipPortPair.length ∧
      p' = { p with
        connections := (p.connections ++ roundsOf p.ipPortPair outcome
          ((p.poolSize % 2 ^ 64).toNat / p.ipPortPair.length)) } := by
  unfold init at h
  by_cases hn : p.ipPortPair.length = 0
  · simp only [hn, if_true] at h
    cases h
  · by_cases hrounds : 2 ^ 32 ≤ (p.poolSize % 2 ^ 64).toNat / p.ipPortPair.length
    · simp only [hn, hrounds, if_true, if_false] at h
      cases h
    · simp only [hn, hrounds, if_false, Except.ok.injEq] at h
      exact ⟨hn, hrounds, h.symm⟩

/-- A pool as `Proxy::Init` builds it: the integers fit into `int`, and the loop
over the addresses can count them. -/
def Constructed (p : ConnectionPool) : Prop :=
  ∃ serverName ipPortPair memory poolSize minSize checkIntervalSec outcome,
    ipPortPair.length < 2 ^ 32 ∧ -2 ^ 31 ≤ poolSize ∧ checkIntervalSec < 2 ^ 31 ∧
    ((ConnectionPool.new serverName ipPortPair memory).configure poolSize minSize
      checkIntervalSec).init outcome = .ok p

/-- Whole rounds over the addresses never exceed a size that fits into `int`. -/
theorem rounds_mul_le {poolSize : ℤ} {n : ℕ} (hn : n < 2 ^ 32) (hpos : n ≠ 0)
    (hlow : -2 ^ 31 ≤ poolSize) (hrounds : ¬ 2 ^ 32 ≤ (poolSize % 2 ^ 64).toNat / n) :
    (((poolSize % 2 ^ 64).toNat / n * n : ℕ) : ℤ) ≤ poolSize := by
  have hfit : (poolSize % 2 ^ 64).toNat / n * n ≤ (poolSize % 2 ^ 64).toNat :=
    Nat.div_mul_le_self _ _
  have hsize : 0 ≤ poolSize := by
    by_contra hneg
    apply hrounds
    rw [Nat.le_div_iff_mul_le (by omega)]
    have hle : 2 ^ 32 * n ≤ 2 ^ 32 * (2 ^ 32 - 1) := Nat.mul_le_mul_left _ (by omega)
    omega
  have hmod : (poolSize % 2 ^ 64).toNat ≤ poolSize.toNat := by omega
  omega

/-- `init` never builds more connections than `pool_size_`. -/
theorem Constructed.length_le {p : ConnectionPool} (h : p.Constructed) :
    (p.connections.length : ℤ) ≤ p.poolSize ∧ p.checkIntervalSec < 2 ^ 31 := by
  obtain ⟨serverName, ipPortPair, memory, poolSize, minSize, checkIntervalSec, outcome, hcount,
    hlow, hinterval, hinit⟩ := h
  obtain ⟨hn, hrounds, rfl⟩ := init_cases hinit
  have hlength := length_roundsOf ipPortPair outcome
    ((poolSize % 2 ^ 64).toNat / ipPortPair.length)
  have hle := rounds_mul_le hcount hn hlow hrounds
  rw [← hlength] at hle
  exact ⟨hle, hinterval⟩

end ConnectionPool

/-! ## Runs of one pool -/

/-- A pool, the latest clock reading, and the reading of the last pass. -/
structure PassHistory where
  /-- The pool. -/
  pool : ConnectionPool
  /-- The latest reading of the clock. -/
  clock : ℤ
  /-- The reading at which the last reactivation pass was made. -/
  lastPass : Option ℤ
  /-- Whether a call has left the vector, after which nothing is defined. -/
  halted : Bool

/-- A call on the pool, with what the environment supplies to it, or the
server's end of a connection closing. -/
inductive PoolCall
  | getConnection (outcome : ℕ → Bool)
  | release (conn : ℕ) (status : Bool) (reading : ℤ) (outcome : ℕ → Bool)
  | peerClose (conn : ℕ)

namespace PassHistory

/-- The history after one call. `release` converts the reading of the clock to
`int`; the readings never decrease. -/
def step (s : PassHistory) (call : PoolCall) : Option PassHistory :=
  if s.halted then none
  else match call with
    | .getConnection outcome =>
      match s.pool.getConnection outcome with
      | .ok (p, _) => some { s with pool := p }
      | .error _ => some { s with halted := true }
    | .release conn status reading outcome =>
      if conn < s.pool.connections.length ∧ s.clock ≤ reading then
        match s.pool.releaseMarked conn status (wrapInt reading) outcome with
        | .ok (p, passed) => some { s with
            pool := p, clock := reading, lastPass := if passed then some reading else s.lastPass }
        | .error _ => some { s with halted := true }
      else none
    | .peerClose conn => some { s with pool := { s.pool with
        connections := s.pool.connections.modify conn Connection.closeTransport } }

/-- The transition relation of a pool. -/
def Step (s : PassHistory) (call : PoolCall) (s' : PassHistory) : Prop := s.step call = some s'

/-- A pool on which no call has been made, with the clock at `start`. -/
def initial (p : ConnectionPool) (start : ℤ) : PassHistory :=
  { pool := p, clock := start, lastPass := none, halted := false }

/-- No pass has been made yet, or more than `check_interval_sec_` seconds have
gone by since the last one. -/
def Waited (s : PassHistory) (reading : ℤ) : Prop :=
  ∀ t, s.lastPass = some t → s.pool.checkIntervalSec < reading - t

/-- What a pass leaves behind, given the pool at the check: a connection is
available if it is not busy and its `open()` returned, and is dead or busy otherwise. -/
def Reactivated (check : ConnectionPool) (outcome : ℕ → Bool) (p : ConnectionPool) : Prop :=
  ∀ i (d : Connection), check.connections[i]? = some d →
    ∃ c : Connection, p.connections[i]? = some c ∧
    (c.isAvailable = true ↔ d.isBusy = false ∧ d.opens (outcome i) = true) ∧
    (c.isAvailable = false → c.isDead = true ∨ c.isBusy = true)

/-- The calls that treat reactivation rightly: a release makes a pass exactly
when it calls for one and has waited, and the pass reopens what can be opened. -/
def Reactivates (s : PassHistory) : PoolCall → Prop
  | .release conn status reading outcome => ∃ p passed,
    s.pool.releaseMarked conn status (wrapInt reading) outcome = .ok (p, passed) ∧
    (passed = true ↔ s.pool.CallsForPass conn status ∧ s.Waited reading) ∧
    (passed = true → Reactivated (s.pool.atCheck conn status) outcome p)
  | _ => True

/-- The releases on a vector of `pool_size_` connections whose check of the clock
can be relied on. As long as no pass has been made, what the constructor left in
`last_checked_time_` must lie more than the interval back; later on, the time
since the last pass must fit into `int`, or exceed the interval after wrapping. -/
def Timely (s : PassHistory) : PoolCall → Prop
  | .release conn status reading _ =>
    (s.pool.connections.length : ℤ) = s.pool.poolSize ∧
    (s.pool.CallsForPass conn status →
      (s.lastPass = none → s.pool.IntervalOver (wrapInt reading)) ∧
      ∀ t, s.lastPass = some t → 2 ^ 31 ≤ reading - t →
        s.pool.checkIntervalSec < wrapInt (reading - t))
  | _ => True

/-! ## One call -/

/-- What holds along every run: the vector is no longer than `pool_size_`, and
`last_checked_time_` is the reading of the last pass once there was one. -/
structure Sound (s : PassHistory) : Prop where
  /-- No more connections than `pool_size_`. -/
  length_le : (s.pool.connections.length : ℤ) ≤ s.pool.poolSize
  /-- The interval is an `int`. -/
  interval_lt : s.pool.checkIntervalSec < 2 ^ 31
  /-- `last_checked_time_` keeps the last pass, which is past. -/
  lastPass_eq : ∀ t, s.lastPass = some t → s.pool.lastCheckedTime = wrapInt t ∧ t ≤ s.clock

/-- What a call does, for a vector of any length. -/
theorem step_cases {s s' : PassHistory} {call : PoolCall} (hstep : Step s call s') :
    s' = { s with halted := true } ∨
    (∃ outcome p r, call = .getConnection outcome ∧ s.pool.getConnection outcome = .ok (p, r) ∧
      s' = { s with pool := p }) ∨
    (∃ conn status reading outcome p passed, call = .release conn status reading outcome ∧
      conn < s.pool.connections.length ∧ s.clock ≤ reading ∧
      s.pool.releaseMarked conn status (wrapInt reading) outcome = .ok (p, passed) ∧
      s' = { s with
        pool := p, clock := reading, lastPass := if passed then some reading else s.lastPass }) ∨
    (∃ conn, call = .peerClose conn ∧ s' = { s with pool := { s.pool with
        connections := s.pool.connections.modify conn Connection.closeTransport } }) := by
  unfold Step step at hstep
  cases hhalted : s.halted with
  | true => simp [hhalted] at hstep
  | false =>
    simp only [hhalted, Bool.false_eq_true, if_false] at hstep
    cases call with
    | getConnection outcome =>
      cases hget : s.pool.getConnection outcome with
      | error e =>
        simp only [hget, Option.some.injEq] at hstep
        exact .inl hstep.symm
      | ok result =>
        simp only [hget, Option.some.injEq] at hstep
        exact .inr (.inl ⟨outcome, result.1, result.2, rfl, hget, hstep.symm⟩)
    | release conn status reading outcome =>
      by_cases hguard : conn < s.pool.connections.length ∧ s.clock ≤ reading
      · cases hrel : s.pool.releaseMarked conn status (wrapInt reading) outcome with
        | error e =>
          simp only [hguard, and_self, if_true, hrel, Option.some.injEq] at hstep
          exact .inl hstep.symm
        | ok result =>
          simp only [hguard, and_self, if_true, hrel, Option.some.injEq] at hstep
          exact .inr (.inr (.inl ⟨conn, status, reading, outcome, result.1, result.2, rfl,
            hguard.1, hguard.2, hrel, hstep.symm⟩))
      · simp only [hguard, if_false, reduceCtorEq] at hstep
    | peerClose conn => exact .inr (.inr (.inr ⟨conn, rfl, (Option.some.inj hstep).symm⟩))

/-- A release takes place at a reading no earlier than the last. -/
theorem release_guard {s s' : PassHistory} {conn : ℕ} {status : Bool} {reading : ℤ}
    {outcome : ℕ → Bool} (hstep : Step s (.release conn status reading outcome) s') :
    conn < s.pool.connections.length ∧ s.clock ≤ reading := by
  by_contra hguard
  unfold Step step at hstep
  cases hhalted : s.halted <;> simp [hhalted, hguard] at hstep

/-- The releases that return, on a vector of `pool_size_` connections. -/
theorem Sound.release_cases {s : PassHistory} (h : s.Sound) {conn : ℕ} {status : Bool} {now : ℤ}
    {outcome : ℕ → Bool} (hconn : conn < s.pool.connections.length) {p : ConnectionPool}
    {passed : Bool} (hrel : s.pool.releaseMarked conn status now outcome = .ok (p, passed)) :
    (s.pool.connections.length : ℤ) = s.pool.poolSize ∧
      (passed = true ↔ s.pool.CallsForPass conn status ∧ s.pool.IntervalOver now) ∧
      p = if passed then (s.pool.atCheck conn status).reactivated now outcome
        else s.pool.atCheck conn status := by
  have hlen : (s.pool.connections.length : ℤ) = s.pool.poolSize := by
    rcases lt_or_eq_of_le h.length_le with hlt | heq
    · obtain ⟨e, he⟩ := ConnectionPool.releaseMarked_of_short hlt status now outcome hconn
      rw [he] at hrel
      cases hrel
    · exact heq
  rw [ConnectionPool.releaseMarked_eq ⟨by omega, hlen⟩ status now outcome hconn] at hrel
  refine ⟨hlen, ?_⟩
  by_cases hpass : s.pool.CallsForPass conn status ∧ s.pool.IntervalOver now
  · rw [if_pos hpass, Except.ok.injEq, Prod.mk.injEq] at hrel
    obtain ⟨rfl, rfl⟩ := hrel
    exact ⟨iff_of_true rfl hpass, rfl⟩
  · rw [if_neg hpass, Except.ok.injEq, Prod.mk.injEq] at hrel
    obtain ⟨rfl, rfl⟩ := hrel
    exact ⟨iff_of_false (by decide) hpass, rfl⟩

/-- Every call keeps the history sound. -/
theorem Sound.step {s s' : PassHistory} {call : PoolCall} (h : s.Sound)
    (hstep : Step s call s') : s'.Sound := by
  obtain rfl | ⟨outcome, p, r, rfl, hget, rfl⟩ |
    ⟨conn, status, reading, outcome, p, passed, rfl, hconn, hclock, hrel, rfl⟩ |
    ⟨conn, rfl, rfl⟩ := step_cases hstep
  · exact ⟨h.length_le, h.interval_lt, h.lastPass_eq⟩
  · obtain ⟨hlen, hsize, hinterval, hlast⟩ := ConnectionPool.getConnection_frame hget
    refine ⟨?_, ?_, ?_⟩
    · simpa only [hlen, hsize] using h.length_le
    · simpa only [hinterval] using h.interval_lt
    · simpa only [hlast] using h.lastPass_eq
  · obtain ⟨-, -, rfl⟩ := h.release_cases hconn hrel
    cases passed with
    | true =>
      refine ⟨?_, h.interval_lt, ?_⟩
      · simpa [ConnectionPool.reactivated, ConnectionPool.atCheck] using h.length_le
      · intro t ht
        obtain rfl := Option.some.inj ht
        exact ⟨rfl, le_rfl⟩
    | false =>
      refine ⟨?_, h.interval_lt, ?_⟩
      · simpa [ConnectionPool.atCheck] using h.length_le
      · intro t ht
        obtain ⟨heq, hle⟩ := h.lastPass_eq t ht
        exact ⟨heq, le_trans hle hclock⟩
  · exact ⟨by simpa using h.length_le, h.interval_lt, h.lastPass_eq⟩

/-- The difference of two readings converted to `int` is their difference, wrapped. -/
theorem wrapInt_sub_wrapInt (x y : ℤ) : wrapInt (wrapInt x - wrapInt y) = wrapInt (x - y) := by
  simp only [wrapInt, Int.sub_bmod_bmod, Int.bmod_sub_bmod]

/-- A pass leaves exactly the connections available that it has reopened. -/
theorem reactivated_reactivated (check : ConnectionPool) (now : ℤ) (outcome : ℕ → Bool) :
    Reactivated check outcome (check.reactivated now outcome) := by
  intro i d hd
  refine ⟨reactivate outcome i d, by simp [ConnectionPool.reactivated, hd], ?_⟩
  cases hbusy : d.isBusy <;> cases hopens : d.opens (outcome i) <;>
    simp [reactivate, hbusy, hopens, Connection.isAvailable, Connection.openTransport,
      Connection.setDead]

/-- The code's test of the interval agrees with the time really gone by exactly
under the conditions on the clock. -/
theorem Sound.intervalOver_iff_waited {s : PassHistory} (h : s.Sound) {reading : ℤ}
    (hclock : s.clock ≤ reading) :
    (s.pool.IntervalOver (wrapInt reading) ↔ s.Waited reading) ↔
      (s.lastPass = none → s.pool.IntervalOver (wrapInt reading)) ∧
      ∀ t, s.lastPass = some t → 2 ^ 31 ≤ reading - t →
        s.pool.checkIntervalSec < wrapInt (reading - t) := by
  have hinterval := h.interval_lt
  cases hlast : s.lastPass with
  | none =>
    have hwaited : s.Waited reading := by
      intro t ht
      rw [hlast] at ht
      cases ht
    simp [hwaited]
  | some t =>
    obtain ⟨heq, hle⟩ := h.lastPass_eq t hlast
    have hover : s.pool.IntervalOver (wrapInt reading) ↔
        s.pool.checkIntervalSec < wrapInt (reading - t) := by
      rw [ConnectionPool.IntervalOver, heq, wrapInt_sub_wrapInt]
    have hwaited : s.Waited reading ↔ s.pool.checkIntervalSec < reading - t := by
      simp [Waited, hlast]
    rw [hover, hwaited]
    rcases lt_or_ge (reading - t) (2 ^ 31) with hfits | hlong
    · rw [wrapInt_eq_self (by omega) hfits]
      simp only [reduceCtorEq, false_implies, Option.some.injEq, forall_eq', true_and, true_iff]
      omega
    · have hgone : s.pool.checkIntervalSec < reading - t := by omega
      simp only [hgone, iff_true, reduceCtorEq, false_implies, Option.some.injEq, forall_eq',
        true_and, hlong, forall_const]

/-- A release treats reactivation rightly exactly when it is timely. -/
theorem reactivates_iff_timely {s s' : PassHistory} {call : PoolCall} (h : s.Sound)
    (hstep : Step s call s') : s.Reactivates call ↔ s.Timely call := by
  cases call with
  | getConnection outcome => exact Iff.rfl
  | peerClose conn => exact Iff.rfl
  | release conn status reading outcome =>
    obtain ⟨hconn, hclock⟩ := release_guard hstep
    have hexact := h.intervalOver_iff_waited hclock
    constructor
    · rintro ⟨p, passed, hrel, hpass, -⟩
      obtain ⟨hlen, hdone, -⟩ := h.release_cases hconn hrel
      refine ⟨hlen, ?_⟩
      intro hcalls
      apply hexact.mp
      rw [hdone] at hpass
      simpa [hcalls] using hpass
    · rintro ⟨hlen, htimely⟩
      have hrel := ConnectionPool.releaseMarked_eq ⟨by omega, hlen⟩ status (wrapInt reading)
        outcome hconn
      by_cases hpass : s.pool.CallsForPass conn status ∧ s.pool.IntervalOver (wrapInt reading)
      · rw [if_pos hpass] at hrel
        have hwaited := (hexact.mpr (htimely hpass.1)).mp hpass.2
        exact ⟨_, _, hrel, iff_of_true rfl ⟨hpass.1, hwaited⟩,
          fun _ => reactivated_reactivated _ _ outcome⟩
      · rw [if_neg hpass] at hrel
        refine ⟨_, _, hrel, iff_of_false (by decide) ?_, fun hmark => by cases hmark⟩
        rintro ⟨hcalls, hwaited⟩
        exact hpass ⟨hcalls, (hexact.mpr (htimely hcalls)).mpr hwaited⟩

/-! ## Runs -/

/-- A constructed pool starts with a sound history. -/
theorem initial_sound {p : ConnectionPool} (h : p.Constructed) (start : ℤ) :
    (initial p start).Sound :=
  ⟨h.length_le.1, h.length_le.2, fun t ht => by cases ht⟩

end PassHistory

/-- **Reactivation.** In every run of a constructed pool, every release makes a
reactivation pass exactly when it reports a failure or finds too few connections
available, and no pass has been made yet or the interval since the last one is
over, and every pass reopens what can be opened, if and only if every release is
made on a full vector and is timely. -/
theorem reactivates_along_iff {p : ConnectionPool} (h : p.Constructed) (start : ℤ)
    (calls : List PoolCall) :
    Along PassHistory.Step PassHistory.Reactivates (PassHistory.initial p start) calls ↔
      Along PassHistory.Step PassHistory.Timely (PassHistory.initial p start) calls := by
  apply along_congr (I := PassHistory.Sound)
  · intro s call s' hsound hstep
    exact hsound.step hstep
  · intro s call s' hsound hstep
    exact PassHistory.reactivates_iff_timely hsound hstep
  · exact PassHistory.initial_sound h start

/-- A pool of one connection built in memory that held `memory` where
`last_checked_time_` lies. -/
def lonePool (memory : ℤ) : ConnectionPool :=
  { singlePool with lastCheckedTime := memory }

/-- The pool of one connection is constructed, whatever the memory held. -/
theorem lonePool_constructed (memory : ℤ) : (lonePool memory).Constructed :=
  ⟨"tis", [("10.1.1.83", 9093)], memory, 1, 1, 5, fun _ => true, by decide, by decide, by decide,
    by simp [ConnectionPool.init, ConnectionPool.configure, ConnectionPool.new, lonePool,
      singlePool]⟩

/-- A client gets the connection and releases it as failed. -/
def failedCall (reading : ℤ) : List PoolCall :=
  [.getConnection fun _ => true, .release 0 false reading fun _ => true]

/-- The pool while the client of `failedCall` holds the connection. -/
def lentHistory (memory start : ℤ) : PassHistory :=
  { PassHistory.initial (lonePool memory) start with pool := { lonePool memory with count := 1 } }

/-- The first call of `failedCall` lends the connection. -/
theorem lentHistory_step (memory start : ℤ) :
    PassHistory.Step (PassHistory.initial (lonePool memory) start)
      (.getConnection fun _ => true) (lentHistory memory start) := rfl

/-- With a later time left over in `last_checked_time_`, the first failure leaves
the pool dead although no pass has ever been made. -/
theorem lonePool_not_reactivated :
    (lonePool 2000000000).Constructed ∧
    ¬ Along PassHistory.Step PassHistory.Reactivates
      (PassHistory.initial (lonePool 2000000000) 1700000000) (failedCall 1700000000) := by
  refine ⟨lonePool_constructed _, ?_⟩
  intro h
  obtain ⟨-, hrest⟩ := along_cons.mp h _ (lentHistory_step 2000000000 1700000000)
  obtain ⟨⟨p, passed, hrel, hpass, -⟩, -⟩ := along_cons.mp hrest _ rfl
  have hskipped : (lentHistory 2000000000 1700000000).pool.releaseMarked 0 false
      (wrapInt 1700000000) (fun _ => true) =
      .ok ((lentHistory 2000000000 1700000000).pool.atCheck 0 false, false) := rfl
  rw [hskipped, Except.ok.injEq, Prod.mk.injEq] at hrel
  have hnever : (lentHistory 2000000000 1700000000).Waited 1700000000 := by
    intro t ht
    cases ht
  rw [← hrel.2] at hpass
  exact absurd (hpass.mpr ⟨.inl rfl, hnever⟩) (by decide)

/-- With zero left over, the first failure reopens the pool. -/
theorem lonePool_reactivated :
    Along PassHistory.Step PassHistory.Reactivates
      (PassHistory.initial (lonePool 0) 1700000000) (failedCall 1700000000) := by
  refine (reactivates_along_iff (lonePool_constructed 0) 1700000000 _).mpr ?_
  refine along_cons.mpr fun s hstep => ⟨trivial, ?_⟩
  obtain rfl : s = lentHistory 0 1700000000 := (Option.some.inj hstep).symm
  refine along_cons.mpr fun s' _ => ⟨⟨rfl, fun _ => ⟨fun _ => by decide, ?_⟩⟩, along_nil⟩
  intro t ht
  cases ht

end ThriftProxy
