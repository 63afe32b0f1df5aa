import ThriftProxy.ConnectionPool
import Mathlib.Data.List.Find

/-!
# What the pool operations compute

The loops of `connection_pool.cpp` in closed form. On a well-formed pool no
access leaves the vector unless the cursor is negative; `getConnection` picks
the first available connection in cyclic order and otherwise the first
connection that is not busy and opens; `release` changes every connection by a
function of its index and flags.
-/

namespace ThriftProxy

open Machine

/-! ## Loops over the vector -/

/-- An index inside the vector yields its connection. -/
theorem connectionAt_of_lt {conns : List Connection} {i : ℕ} (h : i < conns.length) :
    connectionAt conns i = .ok conns[i] := by
  have hneg : ¬ (i : ℤ) < 0 := by omega
  simp [connectionAt, hneg, h]

/-- A negative index is outside the vector. -/
theorem connectionAt_of_neg {conns : List Connection} {index : ℤ} (h : index < 0) :
    connectionAt conns index = .error (.outOfRange index) := by
  simp [connectionAt, h]

/-- A loop that stays inside the vector updates exactly the slots it visits. -/
theorem updateFrom_eq {f : ℕ → Connection → Connection} {remaining i : ℕ}
    {conns : List Connection} (h : i + remaining ≤ conns.length) :
    updateFrom f remaining i conns =
      .ok (conns.mapIdx fun k c => if i ≤ k ∧ k < i + remaining then f k c else c) := by
  induction remaining generalizing i conns with
  | zero =>
    have hnone : ∀ k, ¬ (i ≤ k ∧ k < i + 0) := by omega
    simp only [updateFrom, hnone, if_false, Except.ok.injEq]
    apply List.ext_getElem?
    simp
  | succ remaining ih =>
    have hi : i < conns.length := by omega
    rw [updateFrom, connectionAt_of_lt hi]
    change updateFrom f remaining (i + 1) (conns.set i (f i conns[i])) = _
    rw [ih (by simpa using by omega)]
    congr 1
    apply List.ext_getElem?
    intro k
    by_cases hk : k = i
    · subst hk
      simp [hi, show k < k + (remaining + 1) by omega]
    · have hiff : i + 1 ≤ k ∧ k < i + 1 + remaining ↔ i ≤ k ∧ k < i + (remaining + 1) := by omega
      simp only [List.getElem?_mapIdx, List.getElem?_set_ne (Ne.symm hk), hiff]

/-- A loop over the whole vector updates every slot. -/
theorem updateFrom_all (f : ℕ → Connection → Connection) (conns : List Connection) :
    updateFrom f conns.length 0 conns = .ok (conns.mapIdx f) := by
  rw [updateFrom_eq (by omega)]
  congr 1
  apply List.ext_getElem?
  intro k
  rcases Nat.lt_or_ge k conns.length with hk | hk
  · simp [hk]
  · simp [hk]

/-- The loop of `availableCount` counts the available connections. -/
theorem availableFrom_eq {conns : List Connection} {remaining i : ℕ}
    (h : i + remaining = conns.length) :
    ConnectionPool.availableFrom conns remaining i =
      .ok ((conns.drop i).countP Connection.isAvailable : ℤ) := by
  induction remaining generalizing i with
  | zero =>
    have hend : conns.length ≤ i := by omega
    simp [ConnectionPool.availableFrom, List.drop_eq_nil_of_le hend]
  | succ remaining ih =>
    have hi : i < conns.length := by omega
    rw [ConnectionPool.availableFrom, connectionAt_of_lt hi]
    change (ConnectionPool.availableFrom conns remaining (i + 1) >>= fun rest =>
      .ok (if conns[i].isAvailable then rest + 1 else rest)) = _
    rw [ih (by omega), List.drop_eq_getElem_cons hi, List.countP_cons]
    cases conns[i].isAvailable <;> simp [bind, Except.bind]

/-! ## The scan for an available connection -/

/-- Whether the connection at an index is available. -/
def availableAt (conns : List Connection) (i : ℕ) : Bool :=
  conns[i]?.any Connection.isAvailable

/-- Whether the second loop of `getConnection` can lend the connection at an
index: it is not busy and `open()` returns. -/
def reopensAt (conns : List Connection) (outcome : ℕ → Bool) (i : ℕ) : Bool :=
  conns[i]?.any fun c => !c.isBusy && c.opens (outcome i)

/-- An available connection lies inside the vector. -/
theorem lt_length_of_availableAt {conns : List Connection} {i : ℕ}
    (h : availableAt conns i = true) : i < conns.length := by
  by_contra hge
  simp [availableAt, List.getElem?_eq_none (Nat.le_of_not_lt hge)] at h

/-- A connection that can be reopened lies inside the vector. -/
theorem lt_length_of_reopensAt {conns : List Connection} {outcome : ℕ → Bool} {i : ℕ}
    (h : reopensAt conns outcome i = true) : i < conns.length := by
  by_contra hge
  simp [reopensAt, List.getElem?_eq_none (Nat.le_of_not_lt hge)] at h

/-- The slots of a vector of length `n` in cyclic order from `start`. -/
def scanOrder (n start remaining : ℕ) : List ℕ :=
  (List.range remaining).map fun k => (start + k) % n

/-- The first slot of a cyclic scan, followed by the scan from the next slot. -/
theorem scanOrder_succ (n start remaining : ℕ) :
    scanOrder n start (remaining + 1) = start % n :: scanOrder n ((start + 1) % n) remaining := by
  unfold scanOrder
  rw [List.range_succ_eq_map, List.map_cons, List.map_map, Nat.add_zero]
  congr 1
  apply List.map_congr_left
  intro k _
  simp only [Function.comp, Nat.mod_add_mod, Nat.succ_eq_add_one]
  congr 1
  omega

/-- The first loop of `getConnection` returns the first available slot of the
cyclic scan. -/
theorem scanAvailable_eq {conns : List Connection} (remaining : ℕ) {start : ℕ}
    (h : start < conns.length) :
    scanAvailable conns conns.length remaining start =
      .ok ((scanOrder conns.length start remaining).find? (availableAt conns)) := by
  induction remaining generalizing start with
  | zero => rfl
  | succ remaining ih =>
    have hnext : ((start : ℤ) + 1).tmod conns.length = ((start + 1) % conns.length : ℕ) := by
      rw [Int.tmod_eq_emod_of_nonneg (by omega)]
      rfl
    have hat : availableAt conns start = conns[start].isAvailable := by simp [availableAt, h]
    rw [scanAvailable, connectionAt_of_lt h, scanOrder_succ, Nat.mod_eq_of_lt h]
    cases havail : conns[start].isAvailable with
    | false =>
      rw [List.find?_cons_of_neg (by simp [hat, havail]), ← ih (Nat.mod_lt _ (by omega)), ← hnext]
      simp [bind, Except.bind, havail]
    | true =>
      rw [List.find?_cons_of_pos (by simp [hat, havail])]
      simp [bind, Except.bind, havail]

/-- The round of a cyclic scan from `start` that visits a slot. -/
def scanRank (n start i : ℕ) : ℕ := if start ≤ i then i - start else i + n - start

/-- A slot is visited in the round given by its rank. -/
theorem scanRank_add_mod {n start k : ℕ} (hstart : start < n) (hk : k < n) :
    scanRank n start ((start + k) % n) = k := by
  rcases Nat.lt_or_ge (start + k) n with hlt | hge
  · rw [Nat.mod_eq_of_lt hlt]
    simp [scanRank]
  · have hmod : (start + k) % n = start + k - n := by
      rw [Nat.mod_eq_sub_mod hge, Nat.mod_eq_of_lt (by omega)]
    rw [hmod, scanRank, if_neg (by omega)]
    omega

/-- Every slot is visited, in the round given by its rank. -/
theorem add_scanRank_mod {n start i : ℕ} (hstart : start < n) (hi : i < n) :
    (start + scanRank n start i) % n = i := by
  unfold scanRank
  split
  · rw [Nat.add_sub_of_le (by assumption), Nat.mod_eq_of_lt hi]
  · have hsum : start + (i + n - start) = i + n := by omega
    rw [hsum, Nat.add_mod_right, Nat.mod_eq_of_lt hi]

/-- The rank of a slot is a round of the scan. -/
theorem scanRank_lt {n start i : ℕ} (hstart : start < n) (hi : i < n) : scanRank n start i < n := by
  unfold scanRank
  split <;> omega

/-- Distinct slots are visited in distinct rounds. -/
theorem scanRank_injective {n start i j : ℕ} (hstart : start < n) (hi : i < n) (hj : j < n)
    (h : scanRank n start i = scanRank n start j) : i = j := by
  rw [← add_scanRank_mod hstart hi, h, add_scanRank_mod hstart hj]

/-- A full scan that finds nothing has seen no available connection. -/
theorem find_scanOrder_eq_none {conns : List Connection} {start : ℕ}
    (hstart : start < conns.length)
    (h : (scanOrder conns.length start conns.length).find? (availableAt conns) = none) (i : ℕ) :
    availableAt conns i = false := by
  by_contra havail
  rw [Bool.not_eq_false] at havail
  have hi := lt_length_of_availableAt havail
  have hmem : i ∈ scanOrder conns.length start conns.length := by
    refine List.mem_map.mpr ⟨scanRank conns.length start i, ?_, add_scanRank_mod hstart hi⟩
    exact List.mem_range.mpr (scanRank_lt hstart hi)
  exact List.find?_eq_none.mp h i hmem havail

/-- A full scan finds an available connection of the least rank. -/
theorem find_scanOrder_eq_some {conns : List Connection} {start i : ℕ}
    (hstart : start < conns.length)
    (h : (scanOrder conns.length start conns.length).find? (availableAt conns) = some i) :
    availableAt conns i = true ∧ ∀ j, availableAt conns j = true →
      scanRank conns.length start i ≤ scanRank conns.length start j := by
  have havail : availableAt conns i = true := List.find?_some h
  refine ⟨havail, ?_⟩
  intro j hj
  rw [scanOrder, List.find?_map, Option.map_eq_some_iff] at h
  obtain ⟨k, hk, rfl⟩ := h
  obtain ⟨-, hmem, hbefore⟩ := List.find?_range_eq_some.mp hk
  rw [scanRank_add_mod hstart (List.mem_range.mp hmem)]
  by_contra hlt
  have hnot := hbefore (scanRank conns.length start j) (by omega)
  simp [Function.comp, add_scanRank_mod hstart (lt_length_of_availableAt hj), hj] at hnot

/-! ## The loop that reopens a connection -/

/-- The connection at an index after the second loop of `getConnection`, which
lends the connection `found` or, if it is `none`, has failed on all. -/
def probed (found : Option ℕ) (i : ℕ) (c : Connection) : Connection :=
  if c.isBusy then c
  else match found with
    | none => c.setDead true
    | some f =>
      if i < f then c.setDead true
      else if i = f then c.openTransport.setBusy true
      else c

/-- A busy connection is neither opened nor marked. -/
theorem probed_of_busy {found : Option ℕ} {i : ℕ} {c : Connection} (h : c.isBusy = true) :
    probed found i c = c := by
  simp [probed, h]

/-- Marking a slot dead changes no later slot's chance of being reopened. -/
theorem reopensAt_set_of_ne {conns : List Connection} {outcome : ℕ → Bool} {i k : ℕ}
    {c : Connection} (h : k ≠ i) :
    reopensAt (conns.set i c) outcome k = reopensAt conns outcome k := by
  simp [reopensAt, List.getElem?_set_ne (Ne.symm h)]

/-- Changing the connections from a slot on is changing the one in the slot and
then those behind it. -/
theorem mapIdx_set_succ {f : ℕ → Connection → Connection} {conns : List Connection} {i : ℕ}
    {c : Connection} (hi : i < conns.length) (hc : f i conns[i] = c) :
    ((conns.set i c).mapIdx fun k d => if k < i + 1 then d else f k d) =
      conns.mapIdx fun k d => if k < i then d else f k d := by
  apply List.ext_getElem?
  intro k
  by_cases hk : k = i
  · subst hk
    simp [hi, hc]
  · have hiff : k < i + 1 ↔ k < i := by omega
    simp only [List.getElem?_mapIdx, List.getElem?_set_ne (Ne.symm hk), hiff]

/-- A connection in front of the slots among which the loop finds one is marked. -/
theorem probed_find_of_not_busy (avail : ℕ → Bool) (i remaining : ℕ) {c : Connection}
    (hbusy : c.isBusy = false) :
    probed ((List.range' (i + 1) remaining).find? avail) i c = c.setDead true := by
  cases hfound : (List.range' (i + 1) remaining).find? avail with
  | none => simp [probed, hbusy]
  | some f =>
    have hf := List.mem_range'_1.mp (List.mem_of_find?_eq_some hfound)
    have hbefore : i < f := by omega
    simp [probed, hbusy, hbefore]

/-- The second loop of `getConnection` lends the first connection from `i` on
that is not busy and opens, and marks those it failed on. -/
theorem reopenFirst_eq (outcome : ℕ → Bool) {remaining i : ℕ} {conns : List Connection}
    (h : i + remaining = conns.length) :
    let found := (List.range' i remaining).find? (reopensAt conns outcome)
    reopenFirst outcome remaining i conns =
      .ok (conns.mapIdx fun k c => if k < i then c else probed found k c, found) := by
  induction remaining generalizing i conns with
  | zero =>
    simp only [reopenFirst, List.range'_zero, List.find?_nil, Except.ok.injEq, Prod.mk.injEq,
      and_true]
    apply List.ext_getElem?
    intro k
    rcases Nat.lt_or_ge k conns.length with hk | hk
    · simp [hk, show k < i by omega]
    · simp [hk]
  | succ remaining ih =>
    have hi : i < conns.length := by omega
    have hat : reopensAt conns outcome i =
        (!conns[i].isBusy && conns[i].opens (outcome i)) := by simp [reopensAt, hi]
    rw [reopenFirst, connectionAt_of_lt hi, List.range'_succ]
    cases hbusy : conns[i].isBusy with
    | true =>
      rw [List.find?_cons_of_neg (by simp [hat, hbusy])]
      have hlength : i + 1 + remaining = conns.length := by omega
      have hrest := ih hlength
      have hsame := mapIdx_set_succ
        (f := probed ((List.range' (i + 1) remaining).find? (reopensAt conns outcome))) hi
        (probed_of_busy hbusy)
      rw [List.set_getElem_self] at hsame
      simp only [bind, Except.bind, hbusy, Bool.not_true, Bool.false_eq_true, if_false, hrest,
        hsame]
    | false =>
      cases hopens : conns[i].opens (outcome i) with
      | true =>
        rw [List.find?_cons_of_pos (by simp [hat, hbusy, hopens])]
        simp only [bind, Except.bind, hbusy, hopens, Bool.not_false, if_true, Except.ok.injEq,
          Prod.mk.injEq, and_true]
        apply List.ext_getElem?
        intro k
        by_cases hk : k = i
        · subst hk
          simp [hi, probed, hbusy]
        · rw [List.getElem?_set_ne (Ne.symm hk)]
          rcases Nat.lt_or_ge k conns.length with hlt | hge
          · by_cases hki : k < i
            · simp [hlt, hki]
            · simp [hlt, hki, probed, hk]
          · simp [hge]
      | false =>
        rw [List.find?_cons_of_neg (by simp [hat, hbusy, hopens])]
        have hlength : i + 1 + remaining = (conns.set i (conns[i].setDead true)).length := by
          rw [List.length_set]
          omega
        have hrest := ih hlength
        have hfind : (List.range' (i + 1) remaining).find?
              (reopensAt (conns.set i (conns[i].setDead true)) outcome) =
            (List.range' (i + 1) remaining).find? (reopensAt conns outcome) := by
          apply List.find?_congr
          intro k hk
          have hle := (List.mem_range'_1.mp hk).1
          exact reopensAt_set_of_ne (by omega)
        rw [hfind] at hrest
        have hdead := mapIdx_set_succ hi
          (probed_find_of_not_busy (reopensAt conns outcome) i remaining hbusy)
        simp only [bind, Except.bind, hbusy, hopens, Bool.not_false, if_true, Bool.false_eq_true,
          if_false, hrest, hdead]

/-! ## The operations on a well-formed pool -/

namespace ConnectionPool

/-- A pool whose vector holds `pool_size_ >= 1` connections. -/
structure WellFormed (p : ConnectionPool) : Prop where
  /-- There is a connection to lend. -/
  size_pos : 1 ≤ p.poolSize
  /-- `connection_pool_.size() = pool_size_`. -/
  length_eq : (p.connections.length : ℤ) = p.poolSize

/-- The slot at which the scan of `getConnection` starts, when `count_ % pool_size_`
is not negative. -/
def scanStart (p : ConnectionPool) : ℕ := (p.count.tmod p.poolSize).toNat

/-- The round in which `getConnection` visits a slot. -/
def rank (p : ConnectionPool) (i : ℕ) : ℕ := scanRank p.connections.length p.scanStart i

/-- The scan of a well-formed pool starts at a slot of its vector. -/
theorem WellFormed.scanStart_lt {p : ConnectionPool} (h : p.WellFormed) :
    p.scanStart < p.connections.length := by
  have hpos := h.size_pos
  have hlt := Int.tmod_lt_of_pos p.count (show 0 < p.poolSize by omega)
  have hlen := h.length_eq
  unfold scanStart
  omega

/-- Distinct slots of a well-formed pool have distinct ranks. -/
theorem WellFormed.rank_injective {p : ConnectionPool} (h : p.WellFormed) {i j : ℕ}
    (hi : i < p.connections.length) (hj : j < p.connections.length) (heq : p.rank i = p.rank j) :
    i = j :=
  scanRank_injective h.scanStart_lt hi hj heq

/-- With a negative remainder the first access of `getConnection` leaves the vector. -/
theorem getConnection_of_neg {p : ConnectionPool} (h : p.WellFormed) (outcome : ℕ → Bool)
    (hneg : p.count.tmod p.poolSize < 0) :
    p.getConnection outcome = .error (.outOfRange (p.count.tmod p.poolSize)) := by
  have hpos := h.size_pos
  obtain ⟨m, hm⟩ : ∃ m, p.poolSize.toNat = m + 1 := ⟨p.poolSize.toNat - 1, by omega⟩
  simp [getConnection, show p.poolSize ≠ 0 by omega, hm, scanAvailable, connectionAt_of_neg hneg,
    bind, Except.bind]

/-- With a remainder that is not negative, `getConnection` lends the first
available connection of the scan or else the first one that can be reopened. -/
theorem getConnection_eq {p : ConnectionPool} (h : p.WellFormed) (outcome : ℕ → Bool)
    (hcount : 0 ≤ p.count.tmod p.poolSize) :
    p.getConnection outcome =
      match (scanOrder p.connections.length p.scanStart p.connections.length).find?
          (availableAt p.connections) with
      | some i => .ok ({ p with count := wrapInt (p.count + 1) }, some i)
      | none =>
        let found := (List.range p.connections.length).find? (reopensAt p.connections outcome)
        .ok ({ p with connections := p.connections.mapIdx (probed found) }, found) := by
  have hpos := h.size_pos
  have hsize : p.poolSize.toNat = p.connections.length := by have := h.length_eq; omega
  have hstart : p.count.tmod p.poolSize = (p.scanStart : ℤ) := by unfold scanStart; omega
  have hscan := scanAvailable_eq p.connections.length h.scanStart_lt
  rw [h.length_eq] at hscan
  have hreopen := reopenFirst_eq outcome (Nat.zero_add p.connections.length)
  simp only [Nat.not_lt_zero, if_false, ← List.range_eq_range'] at hreopen
  have hne : p.poolSize ≠ 0 := by omega
  cases hfind : (scanOrder p.connections.length p.scanStart p.connections.length).find?
      (availableAt p.connections) with
  | some i =>
    rw [hfind] at hscan
    simp only [getConnection, hne, if_false, hsize, hstart, hscan, bind, Except.bind]
  | none =>
    rw [hfind] at hscan
    simp only [getConnection, hne, if_false, hsize, hstart, hscan, hreopen, bind, Except.bind]

/-- What a call of `getConnection` that stays inside the vector has done: it
has lent the available connection of the least rank, or, with none available,
the first connection that can be reopened, if there is one. -/
theorem getConnection_cases {p p' : ConnectionPool} {outcome : ℕ → Bool} {r : Option ℕ}
    (h : p.WellFormed) (hok : p.getConnection outcome = .ok (p', r)) :
    (∃ i, r = some i ∧ availableAt p.connections i = true ∧
      (∀ j, availableAt p.connections j = true → p.rank i ≤ p.rank j) ∧
      p' = { p with count := wrapInt (p.count + 1) }) ∨
    ((∀ j, availableAt p.connections j = false) ∧
      r = (List.range p.connections.length).find? (reopensAt p.connections outcome) ∧
      p' = { p with connections := p.connections.mapIdx (probed r) }) := by
  rcases lt_or_ge (p.count.tmod p.poolSize) 0 with hneg | hcount
  · rw [getConnection_of_neg h outcome hneg] at hok
    cases hok
  · rw [getConnection_eq h outcome hcount] at hok
    cases hfind : (scanOrder p.connections.length p.scanStart p.connections.length).find?
        (availableAt p.connections) with
    | some i =>
      left
      rw [hfind] at hok
      obtain ⟨rfl, rfl⟩ := Prod.mk.inj (Except.ok.inj hok)
      obtain ⟨havail, hleast⟩ := find_scanOrder_eq_some h.scanStart_lt hfind
      exact ⟨i, rfl, havail, hleast, rfl⟩
    | none =>
      right
      rw [hfind] at hok
      obtain ⟨rfl, rfl⟩ := Prod.mk.inj (Except.ok.inj hok)
      exact ⟨find_scanOrder_eq_none h.scanStart_lt hfind, rfl, rfl⟩

/-- `getConnection` changes neither the size of a well-formed pool nor its vector's length. -/
theorem getConnection_wellFormed {p p' : ConnectionPool} {outcome : ℕ → Bool} {r : Option ℕ}
    (h : p.WellFormed) (hok : p.getConnection outcome = .ok (p', r)) :
    p'.WellFormed ∧ p'.connections.length = p.connections.length := by
  obtain ⟨i, -, -, -, rfl⟩ | ⟨-, -, rfl⟩ := getConnection_cases h hok
  · exact ⟨⟨h.size_pos, h.length_eq⟩, rfl⟩
  · exact ⟨⟨h.size_pos, by simpa using h.length_eq⟩, by simp⟩

/-- Only a connection of the vector is handed out. -/
theorem lt_length_of_getConnection {p p' : ConnectionPool} {outcome : ℕ → Bool} {i : ℕ}
    (h : p.WellFormed) (hok : p.getConnection outcome = .ok (p', some i)) :
    i < p.connections.length := by
  obtain ⟨j, hj, havail, -, -⟩ | ⟨-, hfind, -⟩ := getConnection_cases h hok
  · obtain rfl := Option.some.inj hj
    exact lt_length_of_availableAt havail
  · exact lt_length_of_reopensAt (List.find?_some hfind.symm)

/-- The connection at an index after the flags of `release(conn, status)` are
set and before any reactivation pass. -/
def released (conn : ℕ) (status : Bool) (i : ℕ) (c : Connection) : Connection :=
  let c' := if i = conn then c.setBusy false else c
  if status then (if i = conn then c'.setDead false else c') else resetConnection i c'

/-- Whether `release` performs a reactivation pass, on the pool with its flags set. -/
def passDue (p : ConnectionPool) (status : Bool) (now : ℤ) : Bool :=
  (!status || decide ((p.connections.countP Connection.isAvailable : ℤ) < p.minSize)) &&
    decide (wrapInt (now - p.lastCheckedTime) > p.checkIntervalSec)

/-- The pool after a release: the flags set, followed by the pass when it is due. -/
def afterRelease (p : ConnectionPool) (conn : ℕ) (status : Bool) (now : ℤ)
    (outcome : ℕ → Bool) : ConnectionPool :=
  let p' := { p with connections := p.connections.mapIdx (released conn status) }
  if p'.passDue status now then
    { p' with connections := p'.connections.mapIdx (reactivate outcome), lastCheckedTime := now }
  else
    p'

/-- The reactivation pass of a well-formed pool stays inside the vector. -/
theorem reactivationPass_eq {p : ConnectionPool} (h : p.WellFormed) (now : ℤ)
    (outcome : ℕ → Bool) :
    p.reactivationPass now outcome =
      .ok (if wrapInt (now - p.lastCheckedTime) > p.checkIntervalSec then
        { p with connections := p.connections.mapIdx (reactivate outcome), lastCheckedTime := now }
      else p) := by
  have hsize : p.poolSize.toNat = p.connections.length := by have := h.length_eq; omega
  unfold reactivationPass
  split
  · simp only [hsize, updateFrom_all, bind, Except.bind]
  · rfl

/-- `release` with its two ways on from the decision about a reactivation pass
left open. -/
def releaseWith {α : Type} (p : ConnectionPool) (conn : ℕ) (status : Bool)
    (pass : ConnectionPool → Except PoolFault α) (skip : ConnectionPool → α) :
    Except PoolFault α := do
  let c ← connectionAt p.connections conn
  let conns := p.connections.set conn (c.setBusy false)
  if status then
    let p' := { p with connections := conns.set conn ((c.setBusy false).setDead false) }
    if (← p'.availableCount) < p'.minSize then pass p' else .ok (skip p')
  else
    let conns' ← updateFrom resetConnection p.poolSize.toNat 0 conns
    pass { p with connections := conns' }

/-- The pool at the point where `release` decides about a pass. -/
def atCheck (p : ConnectionPool) (conn : ℕ) (status : Bool) : ConnectionPool :=
  { p with connections := p.connections.mapIdx (released conn status) }

/-- Whether a release asks for a pass: it reports a failure, or too few
connections are available. -/
def CallsForPass (p : ConnectionPool) (conn : ℕ) (status : Bool) : Prop :=
  status = false ∨
    ((p.atCheck conn status).connections.countP Connection.isAvailable : ℤ) < p.minSize

instance (p : ConnectionPool) (conn : ℕ) (status : Bool) :
    Decidable (p.CallsForPass conn status) := by
  unfold CallsForPass
  infer_instance

/-- Setting the flags of the released connection, as a function of the index. -/
theorem set_eq_mapIdx_released {conns : List Connection} {conn : ℕ} (hconn : conn < conns.length) :
    (conns.set conn (conns[conn].setBusy false)).set conn
        ((conns[conn].setBusy false).setDead false) = conns.mapIdx (released conn true) := by
  apply List.ext_getElem?
  intro k
  by_cases hk : k = conn
  · subst hk
    simp [hconn, released]
  · cases hget : conns[k]? <;>
      simp [List.getElem?_set_ne (Ne.symm hk), hget, released, hk]

/-- Resetting the pool after a failure, as a function of the index. -/
theorem mapIdx_reset_eq_released {conns : List Connection} {conn : ℕ}
    (hconn : conn < conns.length) :
    (conns.set conn (conns[conn].setBusy false)).mapIdx resetConnection =
      conns.mapIdx (released conn false) := by
  apply List.ext_getElem?
  intro k
  by_cases hk : k = conn
  · subst hk
    simp [hconn, released]
  · cases hget : conns[k]? <;>
      simp [List.getElem?_set_ne (Ne.symm hk), hget, released, hk]

/-- The flags of a release of a connection of a well-formed pool are set inside
the vector, and the pass is left out when nothing calls for it. -/
theorem releaseWith_eq {α : Type} {p : ConnectionPool} (h : p.WellFormed) {conn : ℕ}
    (status : Bool) (pass : ConnectionPool → Except PoolFault α) (skip : ConnectionPool → α)
    (hconn : conn < p.connections.length) :
    p.releaseWith conn status pass skip =
      if p.CallsForPass conn status then pass (p.atCheck conn status)
      else .ok (skip (p.atCheck conn status)) := by
  have hsize : p.poolSize.toNat = p.connections.length := by have := h.length_eq; omega
  cases status with
  | true =>
    have hcount :=
      availableFrom_eq (Nat.zero_add (p.connections.mapIdx (released conn true)).length)
    have hlength : (p.connections.mapIdx (released conn true)).length = p.connections.length := by
      simp
    rw [hlength] at hcount
    simp only [releaseWith, connectionAt_of_lt hconn, bind, Except.bind, if_true,
      set_eq_mapIdx_released hconn, availableCount, hsize, hcount, List.drop_zero, CallsForPass,
      atCheck, Bool.true_eq_false, false_or]
  | false =>
    have hlen : (p.connections.set conn (p.connections[conn].setBusy false)).length =
        p.connections.length := by simp
    have hall := updateFrom_all resetConnection
      (p.connections.set conn (p.connections[conn].setBusy false))
    rw [hlen, mapIdx_reset_eq_released hconn] at hall
    simp only [releaseWith, connectionAt_of_lt hconn, bind, Except.bind, hsize, hall, CallsForPass,
      atCheck, Bool.false_eq_true, if_false, true_or, if_true]

/-- The pool at the check of a release is well-formed when the pool is. -/
theorem WellFormed.atCheck {p : ConnectionPool} (h : p.WellFormed) (conn : ℕ) (status : Bool) :
    (p.atCheck conn status).WellFormed :=
  ⟨h.size_pos, by simpa [ConnectionPool.atCheck] using h.length_eq⟩

/-- A pass is due when the release calls for it and the interval is over. -/
theorem passDue_atCheck_iff {p : ConnectionPool} {conn : ℕ} {status : Bool} {now : ℤ} :
    (p.atCheck conn status).passDue status now = true ↔
      p.CallsForPass conn status ∧ wrapInt (now - p.lastCheckedTime) > p.checkIntervalSec := by
  rw [passDue, Bool.and_eq_true, Bool.or_eq_true, Bool.not_eq_true', decide_eq_true_eq,
    decide_eq_true_eq]
  rfl

/-- `release` of a connection of a well-formed pool stays inside the vector. -/
theorem release_eq {p : ConnectionPool} (h : p.WellFormed) {conn : ℕ} (status : Bool) (now : ℤ)
    (outcome : ℕ → Bool) (hconn : conn < p.connections.length) :
    p.release conn status now outcome = .ok (p.afterRelease conn status now outcome) := by
  have hwith : p.release conn status now outcome =
      p.releaseWith conn status (fun q => q.reactivationPass now outcome) id := rfl
  have hafter : p.afterRelease conn status now outcome =
      if (p.atCheck conn status).passDue status now then
        { p.atCheck conn status with
          connections := (p.atCheck conn status).connections.mapIdx (reactivate outcome)
          lastCheckedTime := now }
      else p.atCheck conn status := rfl
  rw [hwith, releaseWith_eq h status _ _ hconn, reactivationPass_eq (h.atCheck conn status), hafter]
  by_cases hcalls : p.CallsForPass conn status
  · simp only [hcalls, if_true, passDue_atCheck_iff, true_and]
    rfl
  · simp only [hcalls, if_false, passDue_atCheck_iff, false_and, id]

/-- The connection at an index after a release. -/
theorem getElem?_afterRelease (p : ConnectionPool) (conn : ℕ) (status : Bool) (now : ℤ)
    (outcome : ℕ → Bool) (i : ℕ) :
    (p.afterRelease conn status now outcome).connections[i]? =
      p.connections[i]?.map fun c =>
        if ({ p with connections := p.connections.mapIdx (released conn status) } :
            ConnectionPool).passDue status now then
          reactivate outcome i (released conn status i c)
        else released conn status i c := by
  unfold afterRelease
  split
  · rename_i hdue
    simp [hdue, Function.comp_def]
  · rename_i hdue
    simp [hdue]

/-- A release keeps a well-formed pool well-formed and its vector's length. -/
theorem afterRelease_wellFormed {p : ConnectionPool} (h : p.WellFormed) (conn : ℕ) (status : Bool)
    (now : ℤ) (outcome : ℕ → Bool) :
    (p.afterRelease conn status now outcome).WellFormed ∧
      (p.afterRelease conn status now outcome).connections.length = p.connections.length := by
  simp only [afterRelease]
  split
  · exact ⟨⟨h.size_pos, by simpa using h.length_eq⟩, by simp⟩
  · exact ⟨⟨h.size_pos, by simpa using h.length_eq⟩, by simp⟩

end ConnectionPool

end ThriftProxy
