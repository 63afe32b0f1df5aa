import ThriftProxy.PoolSemantics

/-!
# Which connection is lent

The two loops of `getConnection` have different orders and different notions of
a usable connection. For every mixture of flags and every outcome of the calls
of `open()`, this file says which connection is returned, when none is, and what
becomes of the others.
-/

namespace ThriftProxy

open Machine

namespace ConnectionPool

/-- The slot that the scan of `getConnection` visits in a round. -/
def slot (p : ConnectionPool) (k : ℕ) : ℕ := (p.scanStart + k) % p.connections.length

/-- No connection is available. -/
def NoneAvailable (p : ConnectionPool) : Prop := ∀ i, availableAt p.connections i = false

/-- The second loop of `getConnection` opens the connection at an index, and
`open()` throws. -/
def ProbedInVain (p : ConnectionPool) (outcome : ℕ → Bool) (i : ℕ)
    (c : Connection) : Prop :=
  p.NoneAvailable ∧ c.isBusy = false ∧ c.opens (outcome i) = false ∧
    ∀ j < i, reopensAt p.connections outcome j = false

/-- What a call of `getConnection` returns and does. -/
structure Lends (p : ConnectionPool) (outcome : ℕ → Bool) (p' : ConnectionPool)
    (r : Option ℕ) : Prop where
  /-- If a connection is available, the first one in cyclic order is returned. -/
  first_available : ¬ p.NoneAvailable →
    ∃ k < p.connections.length, r = some (p.slot k) ∧
      availableAt p.connections (p.slot k) = true ∧
      ∀ j < k, availableAt p.connections (p.slot j) = false
  /-- Otherwise the first one in index order is returned that is not busy and opens. -/
  first_reopened : p.NoneAvailable → ∀ i, r = some i ↔
    reopensAt p.connections outcome i = true ∧ ∀ j < i, reopensAt p.connections outcome j = false
  /-- A connection returned by the second loop is marked busy. -/
  marked_busy : p.NoneAvailable → ∀ i, r = some i →
    p'.connections[i]?.any Connection.isBusy = true
  /-- NULL means that none is available and that none that is not busy opens. -/
  null_iff : r = none ↔ p.NoneAvailable ∧ ∀ (i : ℕ) (c : Connection),
    p.connections[i]? = some c → c.isBusy = false → c.opens (outcome i) = false
  /-- The transport of the returned connection is open. -/
  is_open : ∀ i, r = some i → p'.connections[i]?.any Connection.isOpen = true
  /-- A busy connection is not modified. -/
  busy_untouched : ∀ (i : ℕ) (c : Connection), p.connections[i]? = some c → c.isBusy = true →
    p'.connections[i]? = some c
  /-- The connections that are opened in vain become dead. -/
  becomes_dead : ∀ (i : ℕ) (c : Connection), p.connections[i]? = some c →
    p.ProbedInVain outcome i c → p'.connections[i]? = some (c.setDead true)
  /-- No other connection's dead flag changes. -/
  keeps_dead : ∀ (i : ℕ) (c : Connection), p.connections[i]? = some c →
    ¬ p.ProbedInVain outcome i c → p'.connections[i]?.map Connection.isDead = some c.isDead

/-- A connection that can be reopened is not busy and opens. -/
theorem reopensAt_iff {conns : List Connection} {outcome : ℕ → Bool} {i : ℕ} {c : Connection}
    (h : conns[i]? = some c) :
    reopensAt conns outcome i = true ↔ c.isBusy = false ∧ c.opens (outcome i) = true := by
  simp [reopensAt, h]

/-- The first index at which the second loop succeeds. -/
theorem find_reopensAt_iff {conns : List Connection} {outcome : ℕ → Bool} {i : ℕ} :
    (List.range conns.length).find? (reopensAt conns outcome) = some i ↔
      reopensAt conns outcome i = true ∧ ∀ j < i, reopensAt conns outcome j = false := by
  rw [List.find?_range_eq_some]
  constructor
  · rintro ⟨hreopens, -, hbefore⟩
    exact ⟨hreopens, fun j hj => by simpa using hbefore j hj⟩
  · rintro ⟨hreopens, hbefore⟩
    refine ⟨hreopens, List.mem_range.mpr (lt_length_of_reopensAt hreopens), ?_⟩
    intro j hj
    simpa using hbefore j hj

/-- The second loop fails when no connection can be reopened. -/
theorem find_reopensAt_eq_none_iff {conns : List Connection} {outcome : ℕ → Bool} :
    (List.range conns.length).find? (reopensAt conns outcome) = none ↔
      ∀ i, reopensAt conns outcome i = false := by
  rw [List.find?_range_eq_none]
  constructor
  · intro h i
    rcases Nat.lt_or_ge i conns.length with hi | hi
    · simpa using h i hi
    · simp [reopensAt, List.getElem?_eq_none hi]
  · intro h i _
    simp [h i]

/-- A call whose cursor is not negative stays inside the vector. -/
theorem exists_getConnection {p : ConnectionPool} (h : p.WellFormed) (outcome : ℕ → Bool)
    (hcount : 0 ≤ p.count.tmod p.poolSize) : ∃ p' r, p.getConnection outcome = .ok (p', r) := by
  rw [getConnection_eq h outcome hcount]
  split
  · exact ⟨_, _, rfl⟩
  · exact ⟨_, _, rfl⟩

/-- The slot of the round given by its rank. -/
theorem WellFormed.slot_rank {p : ConnectionPool} (h : p.WellFormed) {i : ℕ}
    (hi : i < p.connections.length) : p.slot (p.rank i) = i :=
  add_scanRank_mod h.scanStart_lt hi

/-- The rank of the slot visited in a round. -/
theorem WellFormed.rank_slot {p : ConnectionPool} (h : p.WellFormed) {k : ℕ}
    (hk : k < p.connections.length) : p.rank (p.slot k) = k :=
  scanRank_add_mod h.scanStart_lt hk

/-- The first loop lends the first available connection in cyclic order. -/
theorem lends_of_available {p : ConnectionPool} (h : p.WellFormed) (outcome : ℕ → Bool) {i : ℕ}
    (havail : availableAt p.connections i = true)
    (hleast : ∀ j, availableAt p.connections j = true → p.rank i ≤ p.rank j) :
    p.Lends outcome { p with count := wrapInt (p.count + 1) } (some i) where
  first_available _ := by
    have hi := lt_length_of_availableAt havail
    have hlt : p.rank i < p.connections.length := scanRank_lt h.scanStart_lt hi
    have hslot := h.slot_rank hi
    refine ⟨p.rank i, hlt, by rw [hslot], by rw [hslot]; exact havail, ?_⟩
    intro j hj
    by_contra hne
    have hle := hleast (p.slot j) (by simpa using hne)
    rw [h.rank_slot (by omega)] at hle
    omega
  first_reopened hnone := by simp [hnone i] at havail
  marked_busy hnone := by simp [hnone i] at havail
  null_iff := by
    constructor
    · intro hnull
      cases hnull
    · rintro ⟨hnone, -⟩
      simp [hnone i] at havail
  is_open j hj := by
    obtain rfl := Option.some.inj hj
    have hi := lt_length_of_availableAt havail
    simp only [availableAt, List.getElem?_eq_getElem hi, Option.any_some, Connection.isAvailable,
      Bool.and_eq_true] at havail
    simp [hi, havail.2]
  busy_untouched _ _ hc _ := hc
  becomes_dead _ _ _ hvain := by
    have hnone := hvain.1 i
    simp [hnone] at havail
  keeps_dead _ _ hc _ := by simp [hc]

/-- Where the second loop has not succeeded before, it fails at a connection
that is not busy exactly when the connection does not open. -/
theorem probed_of_probedInVain {p : ConnectionPool} {outcome : ℕ → Bool} {i : ℕ} {c : Connection}
    (hc : p.connections[i]? = some c) (hvain : p.ProbedInVain outcome i c) :
    probed ((List.range p.connections.length).find? (reopensAt p.connections outcome)) i c =
      c.setDead true := by
  obtain ⟨-, hfree, hfails, hbefore⟩ := hvain
  cases hfound : (List.range p.connections.length).find? (reopensAt p.connections outcome) with
  | none => simp [probed, hfree]
  | some f =>
    obtain ⟨hreopens, -⟩ := find_reopensAt_iff.mp hfound
    have hlt : i < f := by
      by_contra hge
      rcases Nat.lt_or_ge f i with hfi | hif
      · simp [hbefore f hfi] at hreopens
      · obtain rfl : f = i := by omega
        simp [(reopensAt_iff hc).mp hreopens] at hfails
    simp [probed, hfree, hlt]

/-- A connection that is not opened in vain keeps its dead flag. -/
theorem probed_of_not_probedInVain {p : ConnectionPool} {outcome : ℕ → Bool} {i : ℕ}
    {c : Connection} (hnone : p.NoneAvailable) (hc : p.connections[i]? = some c)
    (hvain : ¬ p.ProbedInVain outcome i c) :
    (probed ((List.range p.connections.length).find? (reopensAt p.connections outcome)) i
      c).isDead = c.isDead := by
  cases hbusy : c.isBusy with
  | true => rw [probed_of_busy hbusy]
  | false =>
    cases hfound : (List.range p.connections.length).find? (reopensAt p.connections outcome) with
    | none =>
      have hnever := find_reopensAt_eq_none_iff.mp hfound
      have hfails : c.opens (outcome i) = false := by
        have hi := hnever i
        simpa [reopensAt, hc, hbusy] using hi
      exact absurd ⟨hnone, hbusy, hfails, fun j _ => hnever j⟩ hvain
    | some f =>
      obtain ⟨-, hbefore⟩ := find_reopensAt_iff.mp hfound
      have hge : ¬ i < f := by
        intro hlt
        have hfails : c.opens (outcome i) = false := by
          have hi := hbefore i hlt
          simpa [reopensAt, hc, hbusy] using hi
        exact hvain ⟨hnone, hbusy, hfails, fun j hj => hbefore j (by omega)⟩
      by_cases heq : i = f
      · simp [probed, hbusy, heq, Connection.openTransport, Connection.setBusy]
      · simp [probed, hbusy, hge, heq]

/-- The second loop lends the first connection that can be reopened. -/
theorem lends_of_noneAvailable {p : ConnectionPool} {outcome : ℕ → Bool} {r : Option ℕ}
    (hnone : p.NoneAvailable)
    (hr : r = (List.range p.connections.length).find? (reopensAt p.connections outcome)) :
    p.Lends outcome { p with connections := p.connections.mapIdx (probed r) } r where
  first_available hsome := absurd hnone hsome
  first_reopened _ i := by rw [hr, find_reopensAt_iff]
  marked_busy _ i hi := by
    obtain ⟨hreopens, -⟩ := find_reopensAt_iff.mp (hr ▸ hi)
    have hlt := lt_length_of_reopensAt hreopens
    have hfree := ((reopensAt_iff (List.getElem?_eq_getElem hlt)).mp hreopens).1
    simp [hi, hlt, probed, hfree, Connection.setBusy]
  null_iff := by
    rw [hr, find_reopensAt_eq_none_iff]
    constructor
    · intro hnever
      refine ⟨hnone, ?_⟩
      intro i c hc hbusy
      simpa [reopensAt, hc, hbusy] using hnever i
    · rintro ⟨-, hfails⟩ i
      cases hc : p.connections[i]? with
      | none => simp [reopensAt, hc]
      | some c =>
        cases hbusy : c.isBusy with
        | true => simp [reopensAt, hc, hbusy]
        | false => simp [reopensAt, hc, hfails i c hc hbusy]
  is_open i hi := by
    obtain ⟨hreopens, -⟩ := find_reopensAt_iff.mp (hr ▸ hi)
    have hlt := lt_length_of_reopensAt hreopens
    have hfree := ((reopensAt_iff (List.getElem?_eq_getElem hlt)).mp hreopens).1
    simp [hi, hlt, probed, hfree, Connection.setBusy, Connection.openTransport]
  busy_untouched i c hc hbusy := by simp [hc, probed_of_busy hbusy]
  becomes_dead i c hc hvain := by
    simp only [List.getElem?_mapIdx, hc, Option.map_some, hr, probed_of_probedInVain hc hvain]
  keeps_dead i c hc hvain := by
    simp only [List.getElem?_mapIdx, hc, Option.map_some, hr,
      probed_of_not_probedInVain hnone hc hvain]

/-- **A connection is found whenever one can be had.** For every mixture of
flags and every outcome of the calls of `open()`, a call of `getConnection` with
a counter that is not negative returns and lends as `Lends` says. -/
theorem getConnection_lends {p : ConnectionPool} (h : p.WellFormed) (hcount : 0 ≤ p.count)
    (outcome : ℕ → Bool) :
    ∃ p' r, p.getConnection outcome = .ok (p', r) ∧ p.Lends outcome p' r := by
  have hpos := h.size_pos
  have hcursor : 0 ≤ p.count.tmod p.poolSize := Int.tmod_nonneg _ hcount
  obtain ⟨p', r, hok⟩ := exists_getConnection h outcome hcursor
  refine ⟨p', r, hok, ?_⟩
  obtain ⟨i, rfl, havail, hleast, rfl⟩ | ⟨hnone, hr, rfl⟩ := getConnection_cases h hok
  · exact lends_of_available h outcome havail hleast
  · exact lends_of_noneAvailable hnone hr

end ConnectionPool

/-- A pool of three connections: one in use, one closed and one dead. -/
def mixedPool : ConnectionPool :=
  { connections := [(Connection.init "10.1.1.83" 9093 true).setBusy true,
      (Connection.init "10.1.1.83" 9093 true).closeTransport,
      Connection.init "10.1.1.83" 9093 false],
    poolSize := 3, minSize := 2, maxIdleSec := 10, checkIntervalSec := 5, count := 7,
    serverName := "tis", lastCheckedTime := 0, ipPortPair := [("10.1.1.83", 9093)] }

/-- The mixed pool when its second connection fails to open and its third opens. -/
theorem getConnection_lends_mixedPool :
    ∃ p' r, mixedPool.getConnection (fun i => i == 2) = .ok (p', r) ∧
      mixedPool.Lends (fun i => i == 2) p' r :=
  ConnectionPool.getConnection_lends ⟨by decide, by decide⟩ (by decide) _

end ThriftProxy
