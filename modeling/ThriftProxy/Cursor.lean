import ThriftProxy.HeldConnections
import ThriftProxy.RoundRobin

/-!
# The range of the cursor

`count_` is incremented by each call of `getConnection` that lends an available
connection, and never reduced. As an `int` it becomes negative after `2 ^ 31`
such calls, and the remainder that starts the scan with it.
-/

namespace ThriftProxy

open Machine Transition

namespace ConnectionPool

/-- No access of `getConnection` leaves the vector, whatever the calls of `open()` do. -/
def StaysInside (p : ConnectionPool) : Prop :=
  ∀ outcome index, p.getConnection outcome ≠ .error (.outOfRange index)

/-- The remainder of an integer is not negative exactly when the integer is not
negative or leaves no remainder. -/
theorem tmod_nonneg_iff (x y : ℤ) : 0 ≤ x.tmod y ↔ 0 ≤ x ∨ y ∣ x := by
  constructor
  · intro h
    rcases lt_or_ge x 0 with hx | hx
    · right
      have hle : x.tmod y ≤ 0 := by
        rw [← neg_neg x, Int.neg_tmod]
        have := Int.tmod_nonneg y (show 0 ≤ -x by omega)
        omega
      exact Int.dvd_of_tmod_eq_zero (by omega)
    · exact Or.inl hx
  · rintro (h | h)
    · exact Int.tmod_nonneg _ h
    · rw [Int.tmod_eq_zero_of_dvd h]

/-- A call stays inside the vector of a well-formed pool exactly when the
remainder of the counter is not negative. -/
theorem staysInside_iff {p : ConnectionPool} (h : p.WellFormed) :
    p.StaysInside ↔ 0 ≤ p.count ∨ p.poolSize ∣ p.count := by
  rw [← tmod_nonneg_iff]
  constructor
  · intro hinside
    by_contra hneg
    exact hinside (fun _ => true) _ (getConnection_of_neg h _ (by omega))
  · intro hcursor outcome index herror
    obtain ⟨p', r, hok⟩ := exists_getConnection h outcome hcursor
    rw [hok] at herror
    cases herror

end ConnectionPool

/-- **The rotation cursor.** In every state that calls of `getConnection` and
`release` lead to, the accesses of the next call stay inside the vector if and
only if the counter is not negative or is a multiple of the pool's size. -/
theorem cursor_inside_iff {p : ConnectionPool} (h : p.Initialised) {ops : List LendingOp}
    {s : LendingState} (hrun : Run LendingState.Step (LendingState.initial p) ops s) :
    s.pool.StaysInside ↔ 0 ≤ s.pool.count ∨ s.pool.poolSize ∣ s.pool.count :=
  ConnectionPool.staysInside_iff (LendingState.valid_of_run h hrun).wellFormed

/-- A pool of three connections whose server answered. -/
def triplePool : ConnectionPool :=
  { connections := List.replicate 3 (Connection.init "10.1.1.83" 9093 true),
    poolSize := 3, minSize := 2, maxIdleSec := 10, checkIntervalSec := 5, count := 0,
    serverName := "tis", lastCheckedTime := 0, ipPortPair := [("10.1.1.83", 9093)] }

/-- The three-connection pool is the result of construction, set-up and `init`. -/
theorem triplePool_initialised : triplePool.Initialised :=
  ⟨⟨"tis", [("10.1.1.83", 9093)], 0, 3, 2, 5, fun _ => true, by decide⟩, by decide, by decide⟩

/-- Calls on the three-connection pool count up. -/
theorem triplePool_run (k : ℕ) (hk : k < 2 ^ 31) : ∃ loans,
    Run LendingState.Step (LendingState.initial triplePool)
      (List.replicate k (.getConnection 0 fun _ => true))
      { pool := { triplePool with count := k }, loans := loans } := by
  induction k with
  | zero => exact ⟨[], Run.nil _⟩
  | succ k ih =>
    obtain ⟨loans, hrun⟩ := ih (by omega)
    have hinit := triplePool_initialised
    have hwf : ({ triplePool with count := (k : ℤ) } : ConnectionPool).WellFormed :=
      ⟨hinit.2.1, hinit.2.2⟩
    have havail : availableAt triplePool.connections 0 = true := by decide
    obtain ⟨r, -, hget⟩ := LendingState.getConnection_of_available hwf (fun _ => true) havail
      (by simp only; omega) (by simp only; omega)
    refine ⟨(0, r) :: loans, ?_⟩
    rw [List.replicate_succ']
    refine hrun.snoc ?_
    simp only [LendingState.Step, LendingState.step, hget]
    push_cast
    rfl

/-- After `2 ^ 31` calls the counter has wrapped around, and the next call
starts its scan at the index `-2`. -/
theorem triplePool_cursor_negative :
    triplePool.Initialised ∧ ∃ ops s,
      Run LendingState.Step (LendingState.initial triplePool) ops s ∧
      s.pool.getConnection (fun _ => true) = .error (.outOfRange (-2)) ∧
      ¬ s.pool.StaysInside := by
  obtain ⟨loans, hrun⟩ := triplePool_run (2 ^ 31 - 1) (by decide)
  have hlast : LendingState.Step
      { pool := { triplePool with count := ((2 ^ 31 - 1 : ℕ) : ℤ) }, loans := loans }
      (.getConnection 0 fun _ => true)
      { pool := { triplePool with count := -2 ^ 31 }, loans := (0, 1) :: loans } := by
    rfl
  have hfault : ({ triplePool with count := -2 ^ 31 } : ConnectionPool).getConnection
      (fun _ => true) = .error (.outOfRange (-2)) := by rfl
  exact ⟨triplePool_initialised, _, _, hrun.snoc hlast, hfault, fun h => h _ _ hfault⟩

/-- The equivalence on the three-connection pool after one call. -/
theorem cursor_inside_iff_triplePool :
    ∃ s,
      Run LendingState.Step (LendingState.initial triplePool) [.getConnection 0 fun _ => true] s ∧
      (s.pool.StaysInside ↔ 0 ≤ s.pool.count ∨ s.pool.poolSize ∣ s.pool.count) := by
  have hrun : Run LendingState.Step (LendingState.initial triplePool)
      [.getConnection 0 fun _ => true]
      { pool := { triplePool with count := 1 }, loans := [(0, 0)] } := Run.cons rfl (Run.nil _)
  exact ⟨_, hrun, cursor_inside_iff triplePool_initialised hrun⟩

end ThriftProxy
