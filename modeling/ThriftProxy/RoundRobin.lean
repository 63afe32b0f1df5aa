import ThriftProxy.Lending
import ThriftProxy.FirstUsable
import Mathlib.Data.Nat.ModEq
import Mathlib.Data.List.Nodup
import Mathlib.Data.List.Perm.Subperm

/-!
# Round-robin fairness

Each call of `getConnection` that lends an available connection moves the cursor
by one slot, however many slots its scan has skipped. This file says when
consecutive calls share out the available connections evenly: exactly when the
scans skip nothing on their way.
-/

namespace ThriftProxy

open Machine Transition

/-! ## Scans from consecutive positions -/

/-- The slot found by a full scan from a position. -/
def firstFrom (avail : ℕ → Bool) (n start : ℕ) : Option ℕ := (scanOrder n start n).find? avail

/-- Positions that denote the same slot start the same scan. -/
theorem scanOrder_mod (n start remaining : ℕ) :
    scanOrder n (start % n) remaining = scanOrder n start remaining := by
  simp [scanOrder, Nat.mod_add_mod]

/-- Different positions of one round denote different slots. -/
theorem slot_ne_of_lt {n start k j : ℕ} (hkj : k < j) (hj : j < n) :
    (start + k) % n ≠ (start + j) % n := by
  intro heq
  have hmod : k ≡ j [MOD n] := Nat.ModEq.add_left_cancel' start heq
  have := hmod.eq_of_lt_of_lt (by omega) hj
  omega

section

variable {avail : ℕ → Bool} {n : ℕ}

/-- A scan from an available slot finds that slot. -/
theorem firstFrom_of_avail {start : ℕ} (hn : 0 < n) (h : avail (start % n) = true) :
    firstFrom avail n start = some (start % n) := by
  obtain ⟨m, rfl⟩ : ∃ m, n = m + 1 := ⟨n - 1, by omega⟩
  rw [firstFrom, scanOrder_succ, List.find?_cons_of_pos h]

/-- A scan from an unavailable slot finds what the scan from the next one finds. -/
theorem firstFrom_of_not_avail {start : ℕ} (hn : 0 < n) (h : avail (start % n) = false) :
    firstFrom avail n start = firstFrom avail n (start + 1) := by
  obtain ⟨m, rfl⟩ : ∃ m, n = m + 1 := ⟨n - 1, by omega⟩
  have hlast : scanOrder (m + 1) (start + 1) (m + 1) =
      scanOrder (m + 1) (start + 1) m ++ [start % (m + 1)] := by
    have hround : (start + 1 + m) % (m + 1) = start % (m + 1) := by
      rw [Nat.add_assoc, Nat.add_comm 1 m, Nat.add_mod_right]
    simp [scanOrder, List.range_succ, hround]
  rw [firstFrom, scanOrder_succ, List.find?_cons_of_neg (by simp [h]), scanOrder_mod, firstFrom,
    hlast, List.find?_append]
  simp [h]

/-- What a scan finds is available and is the first such slot from its start on. -/
theorem firstFrom_eq_some {start i : ℕ} (h : firstFrom avail n start = some i) :
    avail i = true ∧ ∃ k < n, i = (start + k) % n ∧
      ∀ j < k, avail ((start + j) % n) = false := by
  refine ⟨List.find?_some h, ?_⟩
  rw [firstFrom, scanOrder, List.find?_map, Option.map_eq_some_iff] at h
  obtain ⟨k, hk, rfl⟩ := h
  obtain ⟨-, hmem, hbefore⟩ := List.find?_range_eq_some.mp hk
  refine ⟨k, List.mem_range.mp hmem, rfl, ?_⟩
  intro j hj
  simpa using hbefore j hj

/-- A full scan finds an available slot if there is one. -/
theorem exists_firstFrom (start : ℕ) {i : ℕ} (hi : i < n) (h : avail i = true) :
    ∃ j, firstFrom avail n start = some j := by
  cases hfind : firstFrom avail n start with
  | some j => exact ⟨j, rfl⟩
  | none =>
    have hstart : start % n < n := Nat.mod_lt _ (by omega)
    have hmem : i ∈ scanOrder n start n := by
      rw [← scanOrder_mod]
      exact List.mem_map.mpr ⟨scanRank n (start % n) i,
        List.mem_range.mpr (scanRank_lt hstart hi), add_scanRank_mod hstart hi⟩
    exact absurd h (List.find?_eq_none.mp hfind i hmem)

/-- Where more slots are available than some first positions of a round, a
later position of the round is available. -/
theorem exists_avail_beyond (start : ℕ) {a : ℕ} (hn : 0 < n)
    (ha : a < ((List.range n).filter avail).length) :
    ∃ k, a ≤ k ∧ k < n ∧ avail ((start + k) % n) = true := by
  by_contra hnone
  have hsub : (List.range n).filter avail ⊆ (List.range a).map fun k => (start + k) % n := by
    intro i hi
    obtain ⟨hrange, havail⟩ := List.mem_filter.mp hi
    have hstart : start % n < n := Nat.mod_lt _ hn
    have hlt := List.mem_range.mp hrange
    have hslot : (start + scanRank n (start % n) i) % n = i := by
      rw [← Nat.mod_add_mod]
      exact add_scanRank_mod hstart hlt
    have hrank := scanRank_lt hstart hlt
    refine List.mem_map.mpr ⟨scanRank n (start % n) i, List.mem_range.mpr ?_, hslot⟩
    by_contra hge
    exact hnone ⟨_, by omega, hrank, by rw [hslot]; exact havail⟩
  have hle := (List.subperm_of_subset (List.nodup_range.filter _) hsub).length_le
  simp only [List.length_map, List.length_range] at hle
  omega

/-- As many scans as there are available slots, from consecutive positions. -/
def consecutive (avail : ℕ → Bool) (n start a : ℕ) : List (Option ℕ) :=
  (List.range a).map fun k => firstFrom avail n (start + k)

/-- The first of some scans from consecutive positions. -/
theorem consecutive_succ (avail : ℕ → Bool) (n start a : ℕ) :
    consecutive avail n start (a + 1) =
      firstFrom avail n start :: consecutive avail n (start + 1) a := by
  unfold consecutive
  rw [List.range_succ_eq_map, List.map_cons, List.map_map, Nat.add_zero]
  congr 1
  apply List.map_congr_left
  intro k _
  rw [Function.comp, Nat.succ_eq_add_one, Nat.add_assoc, Nat.add_comm 1 k]

/-- Consecutive scans, as many as there are available slots, find different
slots exactly when all their starts but the last are available. -/
theorem nodup_consecutive_iff {start a : ℕ} (hn : 0 < n)
    (ha : ((List.range n).filter avail).length = a) :
    (consecutive avail n start a).Nodup ↔
      ∀ k, k + 1 < a → avail ((start + k) % n) = true := by
  have hle : a ≤ n := by
    rw [← ha]
    exact (List.length_filter_le _ _).trans (by simp)
  constructor
  · intro hnodup k hk
    by_contra hne
    have hsame : firstFrom avail n (start + k) = firstFrom avail n (start + (k + 1)) :=
      firstFrom_of_not_avail hn (by simpa using hne)
    have hinj := List.inj_on_of_nodup_map hnodup (List.mem_range.mpr (by omega))
      (List.mem_range.mpr hk) hsame
    omega
  · intro hall
    refine List.pairwise_map.mpr (List.pairwise_lt_range.imp_of_mem ?_)
    intro k l _ hl hkl heq
    have hl := List.mem_range.mp hl
    have hk : k + 1 < a := by omega
    rw [firstFrom_of_avail hn (hall k hk)] at heq
    obtain ⟨-, d, -, hslot, hskipped⟩ := firstFrom_eq_some heq.symm
    have hd : l + d < n := by
      obtain ⟨j, hj, hjn, havail⟩ := exists_avail_beyond start hn
        (show a - 1 < ((List.range n).filter avail).length by omega)
      by_contra hge
      by_cases hlast : l + 1 < a
      · have hzero : ¬ 0 < d := by
          intro hpos
          have hskip := hskipped 0 hpos
          rw [Nat.add_zero, hall l hlast] at hskip
          cases hskip
        omega
      · have hskip := hskipped (j - l) (by omega)
        rw [show start + l + (j - l) = start + j by omega, havail] at hskip
        cases hskip
    rw [Nat.add_assoc] at hslot
    exact slot_ne_of_lt (by omega) hd hslot

/-- Scans that find different slots, as many as there are available ones, find
each of them once. -/
theorem consecutive_perm {start a : ℕ} (ha : ((List.range n).filter avail).length = a)
    (hnodup : (consecutive avail n start a).Nodup) :
    (consecutive avail n start a).Perm (((List.range n).filter avail).map some) := by
  have hsub : consecutive avail n start a ⊆ ((List.range n).filter avail).map some := by
    intro r hr
    obtain ⟨k, hk, rfl⟩ := List.mem_map.mp hr
    have hpos : 0 < ((List.range n).filter avail).length := by
      have := List.mem_range.mp hk
      omega
    obtain ⟨i, hi⟩ := List.exists_mem_of_length_pos hpos
    obtain ⟨hrange, havail⟩ := List.mem_filter.mp hi
    have hlt := List.mem_range.mp hrange
    obtain ⟨j, hj⟩ := exists_firstFrom (start + k) hlt havail
    obtain ⟨havailj, d, -, hslot, -⟩ := firstFrom_eq_some hj
    have hjn : j < n := by
      rw [hslot]
      exact Nat.mod_lt _ (by omega)
    rw [hj]
    exact List.mem_map.mpr ⟨j, List.mem_filter.mpr ⟨List.mem_range.mpr hjn, havailj⟩, rfl⟩
  apply (List.subperm_of_subset hnodup hsub).perm_of_length_le
  simp [consecutive, ha]

end

/-! ## Consecutive calls -/

/-- The operation is a call of `getConnection`. -/
def LendingOp.calls : LendingOp → Bool
  | .getConnection _ _ => true
  | _ => false

namespace LendingState

/-- What an operation returns, if it is a call of `getConnection`. -/
def returned (s : LendingState) : LendingOp → List (Option ℕ)
  | .getConnection _ outcome =>
    match s.pool.getConnection outcome with
    | .ok (_, r) => [r]
    | .error _ => []
  | _ => []

/-- What the calls of `getConnection` among some operations return. -/
def results : LendingState → List LendingOp → List (Option ℕ)
  | _, [] => []
  | s, op :: ops => s.returned op ++ (s.step op).elim [] fun s' => s'.results ops

/-- The available connections of the pool, in index order. -/
def availableSlots (s : LendingState) : List ℕ :=
  (List.range s.pool.connections.length).filter (availableAt s.pool.connections)

/-- The slots available in a pool are those of its vector. -/
theorem availableAt_eq_of_availableSlots {s : LendingState} {A : List ℕ}
    (h : s.availableSlots = A) : availableAt s.pool.connections = fun i => decide (i ∈ A) := by
  funext i
  rw [Bool.eq_iff_iff, decide_eq_true_eq, ← h]
  constructor
  · intro havail
    exact List.mem_filter.mpr ⟨List.mem_range.mpr (lt_length_of_availableAt havail), havail⟩
  · intro hmem
    exact (List.mem_filter.mp hmem).2

/-- A call with an available connection and a counter below its maximum lends
the first available connection from the counter on and increments the counter. -/
theorem getConnection_of_available {p : ConnectionPool} (h : p.WellFormed) (outcome : ℕ → Bool)
    {i : ℕ} (havail : availableAt p.connections i = true) (hcount : 0 ≤ p.count)
    (hmax : p.count + 1 < 2 ^ 31) :
    ∃ r, firstFrom (availableAt p.connections) p.connections.length p.count.toNat = some r ∧
      p.getConnection outcome = .ok ({ p with count := p.count + 1 }, some r) := by
  have hi := lt_length_of_availableAt havail
  obtain ⟨r, hr⟩ := exists_firstFrom p.count.toNat hi havail
  refine ⟨r, hr, ?_⟩
  have hstart : p.scanStart = p.count.toNat % p.connections.length := by
    unfold ConnectionPool.scanStart
    obtain ⟨c, hc⟩ := Int.eq_ofNat_of_zero_le hcount
    rw [Int.tmod_eq_emod_of_nonneg hcount, ← h.length_eq, hc, ← Int.natCast_mod,
      Int.toNat_natCast, Int.toNat_natCast]
  have hscan : (scanOrder p.connections.length p.scanStart p.connections.length).find?
      (availableAt p.connections) = some r := by
    rw [hstart, scanOrder_mod]
    exact hr
  rw [ConnectionPool.getConnection_eq h outcome (Int.tmod_nonneg _ hcount), hscan]
  simp only [wrapInt_eq_self (show -2 ^ 31 ≤ p.count + 1 by omega) hmax]

/-- An operation that is no call leaves the counter and the number of connections alone. -/
theorem count_step {s s' : LendingState} {op : LendingOp} (h : s.Valid) (hstep : Step s op s')
    (hop : op.calls = false) :
    s'.pool.count = s.pool.count ∧ s'.pool.connections.length = s.pool.connections.length ∧
      s.returned op = [] := by
  obtain ⟨_, _, _, _, rfl, -⟩ | ⟨_, _, _, rfl, -⟩ | ⟨_, conn, status, now, outcome, rfl, -, rfl⟩ |
    ⟨_, rfl, rfl⟩ := step_cases h hstep
  · cases hop
  · cases hop
  · obtain ⟨-, hlen⟩ :=
      ConnectionPool.afterRelease_wellFormed h.wellFormed conn status now outcome
    refine ⟨?_, hlen, rfl⟩
    simp only [ConnectionPool.afterRelease]
    split <;> rfl
  · exact ⟨rfl, by simp, rfl⟩

/-- While the available connections stay the same, the calls return what scans
from consecutive positions find. -/
theorem results_eq {s s' : LendingState} {ops : List LendingOp} {A : List ℕ} (h : s.Valid)
    (hcount : 0 ≤ s.pool.count) (hA : A ≠ [])
    (hoverflow : s.pool.count + ops.countP LendingOp.calls < 2 ^ 31) (hrun : Run Step s ops s')
    (hstays : Along Step (fun t op => op.calls = true → t.availableSlots = A) s ops) :
    s.results ops = consecutive (fun i => decide (i ∈ A)) s.pool.connections.length
      s.pool.count.toNat (ops.countP LendingOp.calls) := by
  induction ops generalizing s with
  | nil => rfl
  | cons op ops ih =>
    obtain ⟨t, hstep, hrest⟩ := run_cons_iff.mp hrun
    obtain ⟨hslots, hstays'⟩ := along_cons.mp hstays t hstep
    have hvalid := h.step hstep
    have hnext : (s.step op).elim [] (fun t' => t'.results ops) = t.results ops := by
      rw [show s.step op = some t from hstep]
      rfl
    rw [results, hnext]
    cases hop : op.calls with
    | false =>
      obtain ⟨hsame, hlen, hnone⟩ := count_step h hstep hop
      rw [List.countP_cons_of_neg (by simp [hop])] at hoverflow ⊢
      rw [hnone, List.nil_append, ih hvalid (by omega) (by omega) hrest hstays', hsame, hlen]
    | true =>
      rw [List.countP_cons_of_pos hop] at hoverflow ⊢
      have hset := availableAt_eq_of_availableSlots (hslots hop)
      obtain ⟨a, ha⟩ := List.exists_mem_of_ne_nil A hA
      cases op with
      | getConnection client outcome =>
        have havail : availableAt s.pool.connections a = true := by rw [hset]; simpa using ha
        obtain ⟨r, hr, hget⟩ := getConnection_of_available h.wellFormed outcome havail hcount
          (by push_cast at hoverflow; omega)
        have ht : t = { pool := { s.pool with count := s.pool.count + 1 },
                        loans := (client, r) :: s.loans } := by
          have hstep' : s.step (.getConnection client outcome) = some t := hstep
          simp only [LendingState.step, hget, Option.some.injEq] at hstep'
          exact hstep'.symm
        subst ht
        have hrest' := ih hvalid (by simp only; omega) (by push_cast at hoverflow ⊢; omega) hrest
          hstays'
        have hnat : (s.pool.count + 1).toNat = s.pool.count.toNat + 1 := by omega
        rw [hset] at hr
        rw [consecutive_succ, hr]
        simp only [returned, hget, hrest', hnat, List.singleton_append]
      | release _ _ _ _ _ => cases hop
      | peerClose _ => cases hop

/-- A call among the operations is made with the available connections. -/
theorem filter_mem_availableSlots {s s' : LendingState} {ops : List LendingOp} {A : List ℕ}
    (h : s.Valid) (hrun : Run Step s ops s') (hcalls : 0 < ops.countP LendingOp.calls)
    (hstays : Along Step (fun t op => op.calls = true → t.availableSlots = A) s ops) :
    (List.range s.pool.connections.length).filter (fun i => decide (i ∈ A)) = A := by
  induction ops generalizing s with
  | nil => simp at hcalls
  | cons op ops ih =>
    obtain ⟨t, hstep, hrest⟩ := run_cons_iff.mp hrun
    obtain ⟨hslots, hstays'⟩ := along_cons.mp hstays t hstep
    cases hop : op.calls with
    | false =>
      rw [List.countP_cons_of_neg (by simp [hop])] at hcalls
      rw [← (count_step h hstep hop).2.1]
      exact ih (h.step hstep) hrest hcalls hstays'
    | true =>
      rw [← availableAt_eq_of_availableSlots (hslots hop)]
      exact hslots hop

end LendingState

/-- **Round-robin fairness.** On a pool whose vector is as long as its size says, as
many consecutive calls of `getConnection` as there are available connections, while
these stay the same and the counter does not overflow, return different connections,
and each of them once, if and only if the slots from the counter on are available,
all but the last. -/
theorem roundRobin_fair_iff {s s' : LendingState} {ops : List LendingOp} {A : List ℕ}
    (h : s.Valid) (hcount : 0 ≤ s.pool.count) (hA : A ≠ [])
    (hoverflow : s.pool.count + A.length < 2 ^ 31) (hrun : Run LendingState.Step s ops s')
    (hcalls : ops.countP LendingOp.calls = A.length)
    (hstays : Along LendingState.Step (fun t op => op.calls = true → t.availableSlots = A) s ops) :
    ((s.results ops).Nodup ↔ ∀ k, k + 1 < A.length →
      (s.pool.count.toNat + k) % s.pool.connections.length ∈ A) ∧
    ((s.results ops).Perm (A.map some) ↔ ∀ k, k + 1 < A.length →
      (s.pool.count.toNat + k) % s.pool.connections.length ∈ A) := by
  have hn : 0 < s.pool.connections.length := by
    have hpos := h.wellFormed.size_pos
    have hlen := h.wellFormed.length_eq
    omega
  have hpos : 0 < A.length := List.length_pos_of_ne_nil hA
  have hfilter := LendingState.filter_mem_availableSlots h hrun (by omega) hstays
  have hlength : ((List.range s.pool.connections.length).filter
      (fun i => decide (i ∈ A))).length = A.length := by rw [hfilter]
  have hresults := LendingState.results_eq h hcount hA (by rw [hcalls]; exact hoverflow) hrun hstays
  rw [hcalls] at hresults
  have hnodup : (s.results ops).Nodup ↔ ∀ k, k + 1 < A.length →
      (s.pool.count.toNat + k) % s.pool.connections.length ∈ A := by
    rw [hresults, nodup_consecutive_iff hn hlength]
    simp
  refine ⟨hnodup, ?_, ?_⟩
  · intro hperm
    rw [← hnodup, hperm.nodup_iff]
    rw [← hfilter]
    exact (List.nodup_range.filter _).map (Option.some_injective ℕ)
  · intro hall
    have hdistinct := hnodup.mpr hall
    rw [hresults] at hdistinct ⊢
    have hperm := consecutive_perm hlength hdistinct
    rwa [hfilter] at hperm

/-- A pool of three connections whose second server did not answer. -/
def holedPool : ConnectionPool :=
  { connections := [Connection.init "10.1.1.83" 9093 true, Connection.init "10.1.1.83" 9093 false,
      Connection.init "10.1.1.83" 9093 true],
    poolSize := 3, minSize := 2, maxIdleSec := 10, checkIntervalSec := 5, count := 0,
    serverName := "tis", lastCheckedTime := 0, ipPortPair := [("10.1.1.83", 9093)] }

/-- The pool with a hole is the result of construction, set-up and `init`. -/
theorem holedPool_initialised : holedPool.Initialised :=
  ⟨⟨"tis", [("10.1.1.83", 9093)], 0, 3, 2, 5, fun i => i != 1, by decide⟩, by decide, by decide⟩

/-- The pool with a hole, some calls later. -/
def holedState (count : ℤ) (loans : List (ℕ × ℕ)) : LendingState :=
  { pool := { holedPool with count := count }, loans := loans }

/-- Two clients, one call each. -/
def twoCalls : List LendingOp := [.getConnection 1 fun _ => true, .getConnection 2 fun _ => true]

/-- After one call, the next two calls both return the third connection. -/
theorem holedPool_unfair :
    holedPool.Initialised ∧ ∃ s s',
      Run LendingState.Step (LendingState.initial holedPool) [.getConnection 0 fun _ => true] s ∧
      Run LendingState.Step s twoCalls s' ∧
      Throughout LendingState.Step (fun t => t.availableSlots = [0, 2]) s twoCalls ∧
      s.results twoCalls = [some 2, some 2] := by
  refine ⟨holedPool_initialised, holedState 1 [(0, 0)], holedState 3 [(2, 2), (1, 2), (0, 0)],
    Run.cons rfl (Run.nil _), Run.cons rfl (Run.cons rfl (Run.nil _)), ?_, by decide⟩
  refine throughout_cons.mpr ⟨by decide, ?_⟩
  rintro _ ⟨⟩
  refine throughout_cons.mpr ⟨by decide, ?_⟩
  rintro _ ⟨⟩
  exact throughout_nil.mpr (by decide)

/-- The first two calls on the pool with a hole return both available connections. -/
theorem roundRobin_fair_iff_holedPool :
    ((holedState 0 []).results twoCalls).Nodup ∧
      ((holedState 0 []).results twoCalls).Perm [some 0, some 2] := by
  have hvalid : (holedState 0 []).Valid := LendingState.initial_valid holedPool_initialised
  have hrun : Run LendingState.Step (holedState 0 []) twoCalls (holedState 2 [(2, 2), (1, 0)]) :=
    Run.cons rfl (Run.cons rfl (Run.nil _))
  have hstays : Along LendingState.Step (fun t op => op.calls = true → t.availableSlots = [0, 2])
      (holedState 0 []) twoCalls := by
    refine along_cons.mpr ?_
    rintro _ ⟨⟩
    refine ⟨fun _ => by decide, along_cons.mpr ?_⟩
    rintro _ ⟨⟩
    exact ⟨fun _ => by decide, along_nil⟩
  have hfair := roundRobin_fair_iff hvalid (by decide) (by decide) (by decide) hrun (by decide)
    hstays
  have hslots : ∀ k, k + 1 < [0, 2].length → ((holedState 0 []).pool.count.toNat + k) %
      (holedState 0 []).pool.connections.length ∈ [0, 2] := by
    intro k hk
    obtain rfl : k = 0 := by simp at hk; omega
    decide
  exact ⟨hfair.1.mpr hslots, hfair.2.mpr hslots⟩

end ThriftProxy
