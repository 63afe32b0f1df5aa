import ThriftProxy.ConnectionPool
import ThriftProxy.Lib.Text
import ThriftProxy.Lib.Residues

/-!
# The layout of an initialised pool

`Proxy::Init` takes the addresses of a service out of one configuration string
and builds a pool of connections to them. `init` opens whole rounds over the
addresses, while the other functions of the pool loop up to `pool_size_`: the two
agree exactly when the addresses that the parser accepts divide the pool's size.
-/

namespace ThriftProxy

open Machine Residues

/-! ## The address string -/

/-- The delimiter of addresses. -/
def semicolon : UInt8 := 59

/-- The delimiter inside an address. -/
def colon : UInt8 := 58

/-- The bytes of a `std::string` as text. -/
def textOf (bytes : List UInt8) : String := String.ofList (bytes.map fun b => Char.ofNat b.toNat)

/-- One address of the string. Without a colon it is dropped. -/
def ipPortPairOf (addr : List UInt8) : Option (String × ℤ) :=
  match addr.idxOf? colon with
  | none => none
  | some n => some (textOf (addr.take n), Text.atoi (addr.drop (n + 1)))

/-- `string_to_ip_port_pairs`. -/
def stringToIpPortPairs (addrs : List UInt8) : List (String × ℤ) :=
  (Text.pieces semicolon addrs).filterMap ipPortPairOf

/-- The number of addresses in the string that have a colon. -/
def addressCount (addrs : List UInt8) : ℕ :=
  (Text.pieces semicolon addrs).countP fun addr => colon ∈ addr

/-- The parser accepts the addresses that have a colon. -/
theorem length_stringToIpPortPairs (addrs : List UInt8) :
    (stringToIpPortPairs addrs).length = addressCount addrs := by
  unfold stringToIpPortPairs addressCount
  rw [List.length_filterMap_eq_countP]
  apply List.countP_congr
  intro addr _
  unfold ipPortPairOf
  cases hfind : addr.idxOf? colon with
  | none => simpa using List.idxOf?_eq_none_iff.mp hfind
  | some n =>
    have hmem : colon ∈ addr := by
      by_contra hnot
      rw [List.idxOf?_eq_none_iff.mpr hnot] at hfind
      cases hfind
    simp [hmem]

/-! ## The vector -/

namespace ConnectionPool

/-- The pool that `Proxy::Init` builds from a configuration string. -/
def ofConfig (serverName : String) (addrs : List UInt8) (poolSize minSize checkIntervalSec : ℤ)
    (memory : ℤ) (outcome : ℕ → Bool) : Except PoolFault ConnectionPool :=
  ((new serverName (stringToIpPortPairs addrs) memory).configure poolSize minSize
    checkIntervalSec).init outcome

/-- A pool whose vector has as many entries as the loops over it visit, shared
out evenly among the addresses. -/
structure LaidOut (p : ConnectionPool) : Prop where
  /-- `connection_pool_.size() = pool_size_`. -/
  size_eq : (p.connections.length : ℤ) = p.poolSize
  /-- Every index below `pool_size_` exists. -/
  index_exists : ∀ i : ℕ, (i : ℤ) < p.poolSize → ∃ c, connectionAt p.connections i = .ok c
  /-- Each connection leads to an entry of the address list, and the numbers of
  connections of two entries differ by at most one. -/
  balanced : ∃ entry : ℕ → ℕ,
    (∀ i c, p.connections[i]? = some c → p.ipPortPair[entry i]? = some (c.ip, c.port)) ∧
    ∀ j < p.ipPortPair.length, ∀ j' < p.ipPortPair.length,
      Nat.count (fun i => entry i = j) p.connections.length ≤
        Nat.count (fun i => entry i = j') p.connections.length + 1

end ConnectionPool

/-- The connections of some whole rounds over the addresses. -/
def roundsOf (addrs : List (String × ℤ)) (outcome : ℕ → Bool) (rounds : ℕ) : List Connection :=
  (List.range rounds).flatMap fun i =>
    addrs.mapIdx fun j addr => Connection.init addr.1 addr.2 (outcome (i * addrs.length + j))

/-- The number of connections of whole rounds. -/
theorem length_roundsOf (addrs : List (String × ℤ)) (outcome : ℕ → Bool) (rounds : ℕ) :
    (roundsOf addrs outcome rounds).length = rounds * addrs.length := by
  simp [roundsOf, List.length_flatMap]

/-- The connections go round the addresses. -/
theorem address_of_roundsOf {addrs : List (String × ℤ)} {outcome : ℕ → Bool} {rounds k : ℕ}
    {c : Connection} (h : (roundsOf addrs outcome rounds)[k]? = some c) :
    addrs[k % addrs.length]? = some (c.ip, c.port) := by
  induction rounds with
  | zero => simp [roundsOf] at h
  | succ rounds ih =>
    have hsplit : roundsOf addrs outcome (rounds + 1) = roundsOf addrs outcome rounds ++
        addrs.mapIdx fun j addr =>
          Connection.init addr.1 addr.2 (outcome (rounds * addrs.length + j)) := by
      simp [roundsOf, List.range_succ]
    rw [hsplit] at h
    rcases Nat.lt_or_ge k (roundsOf addrs outcome rounds).length with hlt | hge
    · rw [List.getElem?_append_left hlt] at h
      exact ih h
    · rw [List.getElem?_append_right hge, length_roundsOf, List.getElem?_mapIdx,
        Option.map_eq_some_iff] at h
      rw [length_roundsOf] at hge
      obtain ⟨addr, haddr, rfl⟩ := h
      have hlt : k - rounds * addrs.length < addrs.length := by
        by_contra hout
        simp [List.getElem?_eq_none (Nat.le_of_not_lt hout)] at haddr
      have hmod : k % addrs.length = k - rounds * addrs.length := by
        rw [← Nat.mod_eq_of_lt hlt, Nat.mul_comm, Nat.sub_mul_mod (by rwa [Nat.mul_comm])]
      rw [hmod, haddr]
      rfl

namespace ConnectionPool

/-- The pool built from at least one address has whole rounds of connections. -/
theorem ofConfig_eq (serverName : String) {addrs : List UInt8} {poolSize : ℤ}
    (minSize checkIntervalSec memory : ℤ) (outcome : ℕ → Bool) (hpos : 1 ≤ poolSize)
    (hint : poolSize < 2 ^ 31) (haddrs : 0 < addressCount addrs) :
    ofConfig serverName addrs poolSize minSize checkIntervalSec memory outcome =
      .ok { (new serverName (stringToIpPortPairs addrs) memory).configure poolSize minSize
          checkIntervalSec with
        connections := roundsOf (stringToIpPortPairs addrs) outcome
          (poolSize.toNat / addressCount addrs) } := by
  have hsize : (poolSize % 2 ^ 64).toNat = poolSize.toNat := by
    rw [Int.emod_eq_of_lt (by omega) (by omega)]
  have hrounds : ¬ 2 ^ 32 ≤ poolSize.toNat / addressCount addrs := by
    have := Nat.div_le_self poolSize.toNat (addressCount addrs)
    omega
  have hne : addressCount addrs ≠ 0 := by omega
  simp only [ofConfig, init, configure, new, length_stringToIpPortPairs, hsize, hne, hrounds,
    if_false, List.nil_append, roundsOf]

/-- A pool of whole rounds that fill it is laid out. -/
theorem laidOut_of_roundsOf {p : ConnectionPool} {outcome : ℕ → Bool} {rounds : ℕ}
    (hconns : p.connections = roundsOf p.ipPortPair outcome rounds)
    (hsize : ((rounds * p.ipPortPair.length : ℕ) : ℤ) = p.poolSize) : p.LaidOut where
  size_eq := by rw [hconns, length_roundsOf, hsize]
  index_exists i hi := by
    have hlt : i < p.connections.length := by
      rw [hconns, length_roundsOf]
      omega
    have hneg : ¬ (i : ℤ) < 0 := by omega
    exact ⟨p.connections[i], by simp [connectionAt, hneg, hlt]⟩
  balanced := by
    refine ⟨fun i => i % p.ipPortPair.length, ?_, ?_⟩
    · intro i c hc
      rw [hconns] at hc
      exact address_of_roundsOf hc
    · intro j hj j' hj'
      rw [hconns, length_roundsOf, count_mod hj, count_mod hj']
      omega

end ConnectionPool

/-- **Pool layout.** For every configuration string and pool size, the pool is
built with a vector of `pool_size_` connections, shared out evenly, if and only
if there is an address with a colon and their number divides the pool's size. -/
theorem laidOut_iff (serverName : String) (addrs : List UInt8)
    (poolSize minSize checkIntervalSec memory : ℤ) (outcome : ℕ → Bool) (hpos : 1 ≤ poolSize)
    (hint : poolSize < 2 ^ 31) :
    (∃ p, ConnectionPool.ofConfig serverName addrs poolSize minSize checkIntervalSec memory
        outcome = .ok p ∧ p.LaidOut) ↔
      0 < addressCount addrs ∧ (addressCount addrs : ℤ) ∣ poolSize := by
  constructor
  · rintro ⟨p, hok, hlaid⟩
    have haddrs : 0 < addressCount addrs := by
      by_contra hzero
      simp [ConnectionPool.ofConfig, ConnectionPool.init, ConnectionPool.configure,
        ConnectionPool.new, length_stringToIpPortPairs, Nat.eq_zero_of_not_pos hzero] at hok
    refine ⟨haddrs, ?_⟩
    rw [ConnectionPool.ofConfig_eq serverName minSize checkIntervalSec memory outcome hpos hint
      haddrs] at hok
    obtain rfl := Except.ok.inj hok
    have hsize : ((poolSize.toNat / addressCount addrs * addressCount addrs : ℕ) : ℤ) =
        poolSize := by
      have hsize := hlaid.size_eq
      simp only [length_roundsOf, length_stringToIpPortPairs] at hsize
      exact hsize
    rw [← hsize]
    exact Int.natCast_dvd_natCast.mpr (Nat.dvd_mul_left _ _)
  · rintro ⟨haddrs, hdvd⟩
    refine ⟨_, ConnectionPool.ofConfig_eq serverName minSize checkIntervalSec memory outcome hpos
      hint haddrs, ConnectionPool.laidOut_of_roundsOf rfl ?_⟩
    have hround : poolSize.toNat / addressCount addrs * addressCount addrs = poolSize.toNat := by
      apply Nat.div_mul_cancel
      rw [← Int.natCast_dvd_natCast, Int.toNat_of_nonneg (by omega)]
      exact hdvd
    rw [ConnectionPool.configure, ConnectionPool.new, length_stringToIpPortPairs, hround,
      Int.toNat_of_nonneg (by omega)]

/-- Three addresses. -/
def threeAddrs : List UInt8 := [49, 58, 49, 59, 50, 58, 49, 59, 51, 58, 49]

/-- With three addresses, a pool of twenty connections gets eighteen, and with
an address string that has no colon the pool's size is divided by zero. -/
theorem not_laidOut :
    (∃ p, ConnectionPool.ofConfig "tis" threeAddrs 20 18 1 0 (fun _ => true) = .ok p ∧
      p.connections.length = 18 ∧ ¬ p.LaidOut) ∧
    ConnectionPool.ofConfig "tis" [108, 111, 99, 97, 108] 20 18 1 0 (fun _ => true) =
      .error .divideByZero := by
  refine ⟨⟨_, ConnectionPool.ofConfig_eq "tis" 18 1 0 _ (by decide) (by decide) (by decide), ?_⟩,
    rfl⟩
  refine ⟨by decide, ?_⟩
  intro hlaid
  exact absurd hlaid.size_eq (by decide)

/-- Three addresses share a pool of twenty-one connections evenly. -/
theorem laidOut_iff_threeAddrs :
    ∃ p, ConnectionPool.ofConfig "tis" threeAddrs 21 18 1 0 (fun _ => true) = .ok p ∧
      p.LaidOut :=
  (laidOut_iff "tis" threeAddrs 21 18 1 0 _ (by decide) (by decide)).mpr ⟨by decide, by decide⟩

end ThriftProxy
