import ThriftProxy.Lending

/-!
# Connections in use

What the calls of one client do to a connection that another client holds. The
busy flag protects a connection from every loop that opens connections, and an open
connection that is not dead gives these loops nothing to do. But a failed release
resets the whole pool on purpose, because its connections lead to one back-end: it
closes them all, busy or not.
-/

namespace ThriftProxy

open Machine Transition

/-! ## Busy connections under each operation -/

/-- A reactivation pass skips a busy connection. -/
theorem reactivate_of_busy {outcome : ℕ → Bool} {i : ℕ} {c : Connection} (h : c.isBusy = true) :
    reactivate outcome i c = c := by
  simp [reactivate, h]

namespace LendingOp

/-- The client that makes the call, if the operation is a call. -/
def client : LendingOp → Option ℕ
  | .getConnection client _ => some client
  | .release client _ _ _ _ => some client
  | .peerClose _ => none

/-- The operation is a `release(conn, false)`. -/
def resets : LendingOp → Bool
  | .release _ _ status _ _ => !status
  | _ => false

/-- The operation releases the connection or is its server closing it. -/
def Touches (op : LendingOp) (conn : ℕ) : Prop :=
  match op with
  | .getConnection _ _ => False
  | .release _ conn' _ _ _ => conn' = conn
  | .peerClose conn' => conn' = conn

end LendingOp

/-- The state of a busy connection after an operation that neither releases it
nor closes its server's end: reset by a failed release, and otherwise the same. -/
def afterOp (op : LendingOp) (c : Connection) : Connection :=
  if op.resets then c.closeTransport.setDead true else c

/-- A busy connection stays busy under such an operation. -/
theorem afterOp_isBusy (op : LendingOp) (c : Connection) : (afterOp op c).isBusy = c.isBusy := by
  unfold afterOp
  split <;> rfl

namespace LendingState

/-- An operation that neither releases a busy connection nor closes its
server's end leaves it alone, unless the operation is a failed release. -/
theorem busy_step {s s' : LendingState} {op : LendingOp} {conn : ℕ} {c : Connection}
    (h : s.Valid) (hstep : Step s op s') (hother : ¬ op.Touches conn)
    (hc : s.pool.connections[conn]? = some c) (hbusy : c.isBusy = true) :
    s'.pool.connections[conn]? = some (afterOp op c) := by
  obtain ⟨client, outcome, p, i, rfl, hget, rfl⟩ | ⟨client, outcome, p, rfl, hget, rfl⟩ |
    ⟨client, i, status, now, outcome, rfl, hloan, rfl⟩ | ⟨i, rfl, rfl⟩ := step_cases h hstep
  · obtain ⟨_, -, -, -, rfl⟩ | ⟨-, -, rfl⟩ :=
      ConnectionPool.getConnection_cases h.wellFormed hget
    · simpa [afterOp, LendingOp.resets] using hc
    · simp [hc, probed_of_busy hbusy, afterOp, LendingOp.resets]
  · obtain ⟨_, -, -, -, rfl⟩ | ⟨-, -, rfl⟩ :=
      ConnectionPool.getConnection_cases h.wellFormed hget
    · simpa [afterOp, LendingOp.resets] using hc
    · simp [hc, probed_of_busy hbusy, afterOp, LendingOp.resets]
  · have hne : conn ≠ i := fun heq => hother heq.symm
    have hreleased : ConnectionPool.released i status conn c =
        afterOp (.release client i status now outcome) c := by
      cases status <;> simp [ConnectionPool.released, hne, afterOp, LendingOp.resets,
        resetConnection]
    have hbusy' := afterOp_isBusy (.release client i status now outcome) c
    rw [ConnectionPool.getElem?_afterRelease, hc, Option.map_some, hreleased,
      reactivate_of_busy (hbusy'.trans hbusy), ite_self]
  · have hne : i ≠ conn := hother
    simpa [List.getElem?_modify, hne, afterOp, LendingOp.resets] using hc

/-- Over a run that neither releases a busy connection nor closes its server's
end, and in which no release fails, the connection stays exactly as it is. -/
theorem busy_run {s : LendingState} {ops : List LendingOp} {conn : ℕ} {c : Connection}
    (h : s.Valid) (hops : ∀ op ∈ ops, ¬ op.Touches conn ∧ op.resets = false)
    (hc : s.pool.connections[conn]? = some c) (hbusy : c.isBusy = true) :
    Throughout Step (fun s' => s'.pool.connections[conn]? = some c) s ops := by
  induction ops generalizing s with
  | nil => exact throughout_nil.mpr hc
  | cons op ops ih =>
    refine throughout_cons.mpr ⟨hc, ?_⟩
    intro s' hstep
    obtain ⟨hother, hresets⟩ := hops op (by simp)
    have hnext := busy_step h hstep hother hc hbusy
    have hsame : afterOp op c = c := by simp [afterOp, hresets]
    rw [hsame] at hnext
    exact ih (h.step hstep) (fun op' hop' => hops op' (by simp [hop'])) hnext

/-- Every state reached from an initialised pool is valid. -/
theorem valid_of_run {p : ConnectionPool} (h : p.Initialised) {ops : List LendingOp}
    {s : LendingState} (hrun : Run Step (initial p) ops s) : s.Valid :=
  throughout_of_invariant (fun _ _ _ hvalid hstep => hvalid.step hstep) (initial_valid h)
    ops s (List.prefix_refl ops) hrun

/-- The transport and the dead flag of a connection are the same in two states. -/
def SameTransport (s s' : LendingState) (conn : ℕ) : Prop :=
  s'.pool.connections[conn]?.map (fun c => (c.isOpen, c.isDead)) =
    s.pool.connections[conn]?.map (fun c => (c.isOpen, c.isDead))

instance (s s' : LendingState) (conn : ℕ) : Decidable (s.SameTransport s' conn) := by
  unfold SameTransport
  infer_instance

/-- A call leaves every connection alone that another client holds. -/
def LeavesHeldAlone (s : LendingState) (op : LendingOp) (s' : LendingState) : Prop :=
  ∀ client other conn, op.client = some client → other ≠ client → (other, conn) ∈ s.loans →
    SameTransport s s' conn

/-- A call that resets nothing leaves an open connection that is not dead as it is, also
when the caller releases this connection. -/
theorem usable_step {s s' : LendingState} {op : LendingOp} {client conn : ℕ} {c : Connection}
    (h : s.Valid) (hstep : Step s op s') (hclient : op.client = some client)
    (hresets : op.resets = false) (hc : s.pool.connections[conn]? = some c)
    (hopen : c.isOpen = true) (halive : c.isDead = false) : SameTransport s s' conn := by
  have hget : ∀ {outcome p r}, s.pool.getConnection outcome = .ok (p, r) →
      p.connections[conn]? = some c := by
    intro outcome p r hget
    obtain ⟨i, -, -, -, rfl⟩ | ⟨hnone, -, rfl⟩ :=
      ConnectionPool.getConnection_cases h.wellFormed hget
    · exact hc
    · -- No connection is available, so this one must be busy.
      have hbusy : c.isBusy = true := by
        simpa [availableAt, hc, Connection.isAvailable, hopen, halive] using hnone conn
      simp [hc, probed_of_busy hbusy]
  obtain ⟨client', outcome, p, i, rfl, hgot, rfl⟩ | ⟨client', outcome, p, rfl, hgot, rfl⟩ |
    ⟨client', i, status, now, outcome, rfl, hloan, rfl⟩ | ⟨i, rfl, rfl⟩ := step_cases h hstep
  · rw [SameTransport, hget hgot, hc]
  · rw [SameTransport, hget hgot, hc]
  · obtain rfl : status = true := by simpa [LendingOp.resets] using hresets
    have hreleased : (ConnectionPool.released i true conn c).isOpen = true ∧
        (ConnectionPool.released i true conn c).isDead = false := by
      by_cases hi : conn = i
      · simp [ConnectionPool.released, hi, Connection.setBusy, Connection.setDead, hopen]
      · simp [ConnectionPool.released, hi, hopen, halive]
    have hreactivated : ∀ d : Connection, d.isOpen = true → d.isDead = false →
        (reactivate outcome conn d).isOpen = true ∧ (reactivate outcome conn d).isDead = false := by
      intro d hd hdead
      by_cases hbusy : d.isBusy = true
      · simp [reactivate, hbusy, hd, hdead]
      · simp [reactivate, hbusy, Connection.opens, hd, Connection.openTransport,
          Connection.setDead]
    rw [SameTransport, ConnectionPool.getElem?_afterRelease, hc, Option.map_some, Option.map_some,
      Option.map_some, hopen, halive]
    split
    · obtain ⟨hopen', halive'⟩ := hreactivated _ hreleased.1 hreleased.2
      rw [hopen', halive']
    · rw [hreleased.1, hreleased.2]
  · cases hclient

end LendingState

/-! ## Connections held by another client -/

/-- A connection, such as one that another client holds, that is marked busy and not the
one being released, or that is open and not dead, is neither closed nor reopened nor marked
by any call except a failed release. That closes it, marks it dead and, if it is busy and
not the one being released, does not reopen it. -/
theorem held_connection_left_alone {p : ConnectionPool} (h : p.Initialised)
    {ops : List LendingOp} {s s' : LendingState}
    (hrun : Run LendingState.Step (LendingState.initial p) ops s) {op : LendingOp}
    (hstep : LendingState.Step s op s') {client conn : ℕ} {c : Connection}
    (hclient : op.client = some client) (hc : s.pool.connections[conn]? = some c)
    (hstate : (c.isBusy = true ∧ ¬ op.Touches conn) ∨ (c.isOpen = true ∧ c.isDead = false)) :
    (op.resets = false → s.SameTransport s' conn) ∧
    (op.resets = true → c.isBusy = true → ¬ op.Touches conn →
      s'.pool.connections[conn]? = some { c with isOpen := false, isDead := true }) := by
  have hvalid := LendingState.valid_of_run h hrun
  constructor
  · intro hresets
    rcases hstate with ⟨hbusy, hother⟩ | ⟨hopen, halive⟩
    · have hsame := LendingState.busy_step hvalid hstep hother hc hbusy
      rw [LendingState.SameTransport, hsame, hc, afterOp, if_neg (by simp [hresets])]
    · exact LendingState.usable_step hvalid hstep hclient hresets hc hopen halive
  · intro hresets hbusy hother
    rw [LendingState.busy_step hvalid hstep hother hc hbusy, afterOp, if_pos hresets]
    rfl

/-- A pool of two connections whose server answered. -/
def doublePool : ConnectionPool :=
  { connections := [Connection.init "10.1.1.83" 9093 true, Connection.init "10.1.1.83" 9093 true],
    poolSize := 2, minSize := 2, maxIdleSec := 10, checkIntervalSec := 5, count := 0,
    serverName := "tis", lastCheckedTime := 0, ipPortPair := [("10.1.1.83", 9093)] }

/-- The two-connection pool is the result of construction, set-up and `init`. -/
theorem doublePool_initialised : doublePool.Initialised :=
  ⟨⟨"tis", [("10.1.1.83", 9093)], 0, 2, 2, 5, fun _ => true, by decide⟩, by decide, by decide⟩

/-- A failed release of one client closes the connection another client holds,
and a call of `getConnection` reopens a held connection that was lent by the
round-robin path and closed by its server. -/
theorem held_connection_disturbed :
    (doublePool.Initialised ∧ ∃ s s',
      Run LendingState.Step (LendingState.initial doublePool)
        [.getConnection 0 fun _ => true, .getConnection 1 fun _ => true] s ∧
      LendingState.Step s (.release 0 0 false 0 fun _ => false) s' ∧
      ¬ s.LeavesHeldAlone (.release 0 0 false 0 fun _ => false) s') ∧
    (singlePool.Initialised ∧ ∃ s s',
      Run LendingState.Step (LendingState.initial singlePool)
        [.getConnection 0 fun _ => true, .peerClose 0] s ∧
      LendingState.Step s (.getConnection 1 fun _ => true) s' ∧
      ¬ s.LeavesHeldAlone (.getConnection 1 fun _ => true) s') := by
  refine ⟨⟨doublePool_initialised, _, _, Run.cons rfl (Run.cons rfl (Run.nil _)), rfl, ?_⟩,
    ⟨singlePool_initialised, _, _, Run.cons rfl (Run.cons rfl (Run.nil _)), rfl, ?_⟩⟩
  · intro h
    exact absurd (h 0 1 1 rfl (by decide) (by decide)) (by decide)
  · intro h
    exact absurd (h 1 0 0 rfl (by decide) (by decide)) (by decide)

/-- Each client has got a connection by the round-robin path, which marks none as busy:
the release of client 1 leaves the connection of client 0 alone. -/
theorem held_connection_left_alone_doublePool :
    ∃ s s', Run LendingState.Step (LendingState.initial doublePool)
        [.getConnection 0 fun _ => true, .getConnection 1 fun _ => true] s ∧
      LendingState.Step s (.release 1 1 true 0 fun _ => true) s' ∧
      (0, 0) ∈ s.loans ∧ s.SameTransport s' 0 := by
  let s : LendingState :=
    { pool := { doublePool with count := 2 }, loans := [(1, 1), (0, 0)] }
  let s' : LendingState :=
    { pool := { doublePool with count := 2 }, loans := [(0, 0)] }
  have hrun : Run LendingState.Step (LendingState.initial doublePool)
      [.getConnection 0 fun _ => true, .getConnection 1 fun _ => true] s :=
    Run.cons rfl (Run.cons rfl (Run.nil _))
  have hstep : LendingState.Step s (.release 1 1 true 0 fun _ => true) s' := rfl
  have hheld : (0, 0) ∈ s.loans := by decide
  have hc : s.pool.connections[0]? = some (Connection.init "10.1.1.83" 9093 true) := rfl
  exact ⟨s, s', hrun, hstep, hheld,
    (held_connection_left_alone doublePool_initialised hrun hstep rfl hc
      (.inr ⟨rfl, rfl⟩)).1 rfl⟩

end ThriftProxy
