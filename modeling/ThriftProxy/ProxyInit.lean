import ThriftProxy.ConfigSnapshots
import ThriftProxy.Refinement
import ThriftProxy.PoolWorkers

/-!
# Starting the proxy

`Proxy::Init` turns a configuration into the state from which every run starts. It
gives up when the platform refuses it memory or a service has no address. It does not
look at the addresses: a list without a single usable one stops the process.
-/

namespace ThriftProxy

open Machine Text

/-! ## What `Init` reads -/

/-- What the platform answers while `Init` runs. Threads can be created, and what C++
allocates by itself is there. -/
structure Platform where
  /-- `rlim_max`, when `getrlimit` succeeds. -/
  rlimMax : Option ℕ
  /-- `malloc` finds room for `g_client_fd_list`. -/
  fdListAllocated : Bool
  /-- `calloc` finds room for `g_mempool`. -/
  mempoolAllocated : Bool
  /-- The first chunk of the pool that `malloc` returns, or NULL. -/
  chunk : ℕ
  /-- `getpagesize()`. -/
  pagesize : ℕ
  /-- `sizeof(ClientInfo)`. -/
  sizeofClientInfo : ℕ
  /-- What the memory of each service's pool held at `last_checked_time_`. -/
  lastChecked : String → ℤ
  /-- Which connections of a service can be opened. -/
  opened : String → ℕ → Bool

/-- The memory that `Init` asks for is there. -/
def Platform.Allocates (platform : Platform) : Prop :=
  platform.fdListAllocated = true ∧ platform.mempoolAllocated = true ∧ platform.chunk ≠ 0

instance (platform : Platform) : Decidable platform.Allocates :=
  inferInstanceAs (Decidable (_ ∧ _ ∧ _))

/-- Pages are not empty and a chunk lies within the address space. -/
structure Platform.Lawful (platform : Platform) : Prop where
  pagesize_pos : 0 < platform.pagesize
  chunk_le : platform.chunk + mempoolAllocSize platform.pagesize
    (mempoolItemSize platform.sizeofClientInfo) (platform.pagesize * 4096) ≤ 2 ^ 64

/-- The settings of one of the two blocks of `Init` that build a pool. -/
structure Service where
  /-- The name under which the handlers ask for the pool. -/
  server : String
  /-- The key of the addresses. -/
  addrKey : List UInt8
  /-- The default of `pool_size`. -/
  poolSize : ℤ
  /-- The default of `min_size`. -/
  minSize : ℤ
  /-- The default of `check_interval_sec`. -/
  checkIntervalSec : ℤ

/-- The moderation service. -/
def tisService : Service :=
  { server := "tis", addrKey := keyOf "tis_server_addr", poolSize := 20, minSize := 18,
    checkIntervalSec := 1 }

/-- The message store. -/
def dbserService : Service :=
  { server := "dbser", addrKey := keyOf "dbser_server_addr", poolSize := 10, minSize := 8,
    checkIntervalSec := 1 }

/-- What `Init` sets. -/
structure Globals where
  /-- The list array, the memory pool, the timer and their settings. -/
  store : Store
  /-- `conn_pool_map_`. -/
  connPools : ConnectionPoolMap
  /-- `g_cmd_handler`. -/
  cmdHandlers : CmdHandler
  /-- The number of threads that `g_thread_pool` has started. -/
  threads : ℕ

/-- The static variables of a process that has just been loaded, over memory with any
contents. -/
structure Globals.Loaded (g : Globals) : Prop where
  map : g.store.clientInfoMap = fun _ => none
  serial : g.store.serializedNo = 0
  accepted : g.store.accepted = 0
  owner : g.store.owner = fun _ => none
  pools : g.connPools = fun _ => none
  threads : g.threads = 0

/-! ## `Init` -/

section

variable (cm : Option ConfigManager) (platform : Platform)

/-- `RLIM_INFINITY`. -/
def rlimInfinity : ℕ := 2 ^ 64 - 1

/-- `g_max_open_fd` as `InitFdList` sets it. The limit of the platform is cut to an `int`. -/
def maxOpenFdOf : ℤ :=
  match platform.rlimMax with
  | none => configGetIntval (keyOf "max_open_fd") 100000 cm
  | some limit =>
    if limit = rlimInfinity then configGetIntval (keyOf "max_open_fd") 100000 cm
    else wrapInt limit

/-- `InitFdList`. -/
def Globals.initFdList (g : Globals) : ℤ × Globals :=
  let st := { g.store with maxOpenFd := maxOpenFdOf cm platform }
  if platform.fdListAllocated then
    (0, { g with store :=
      { st with fdLists := ThriftProxy.initFdList st.fdLists st.maxOpenFd.toNat } })
  else
    (-1, { g with store := st })

/-- The pool that `mempool_create` returns, with the memory after it, or NULL. -/
def createMempool (words : ℕ → ℕ) : Option (Mempool × (ℕ → ℕ)) :=
  if platform.mempoolAllocated then
    if platform.chunk = 0 then none
    else some (mempoolCreate platform.pagesize platform.sizeofClientInfo (platform.pagesize * 4096)
      platform.chunk words)
  else none

/-- `pool_size` as a block reads it. -/
def poolSizeOf (service : Service) : ℤ :=
  configGetIntval (keyOf "pool_size") service.poolSize cm

/-- The pool that a block builds from its list of addresses. -/
def buildPool (service : Service) (addrs : List UInt8) : Except PoolFault ConnectionPool :=
  ConnectionPool.ofConfig service.server addrs (poolSizeOf cm service)
    (configGetIntval (keyOf "min_size") service.minSize cm)
    (configGetIntval (keyOf "check_interval_sec") service.checkIntervalSec cm)
    (platform.lastChecked service.server) (platform.opened service.server)

/-- A block of `Init` that builds a pool: the table with it, or nothing when the
service has no addresses. -/
def initService (service : Service) (pools : ConnectionPoolMap) :
    Except PoolFault (Option ConnectionPoolMap) :=
  match configGetStrval service.addrKey none cm with
  | none => .ok none
  | some tmpbuf =>
    match buildPool cm platform service tmpbuf with
    | .ok connPool => .ok (some (pools.addConnPool connPool))
    | .error fault => .error fault

/-- The end of `Init`, behind the two blocks. -/
def Globals.finishInit (g : Globals) : Globals :=
  { g with
    cmdHandlers := CmdHandler.registerCmd [] 0x4702 (some .tisProtoHandler)
    threads := (configGetIntval (keyOf "thread_num") 5 cm).toNat }

/-- `Proxy::Init`. -/
def Globals.init (g : Globals) : Except PoolFault (ℤ × Globals) :=
  let (ret, g) := g.initFdList cm platform
  if ret ≠ 0 then .ok (-1, g)
  else
    match createMempool platform g.store.words with
    | none => .ok (-1, g)
    | some (pool, words) =>
      let g := { g with store :=
        { g.store with
          words := words
          pool := pool
          timeoutS := configGetIntval (keyOf "timeout_s") 2 cm
          netTimer := timerInit g.store.netTimer (.head ()) } }
      match initService cm platform tisService g.connPools with
      | .error fault => .error fault
      | .ok none => .ok (-1, g)
      | .ok (some pools) =>
        let g := { g with connPools := pools }
        match initService cm platform dbserService g.connPools with
        | .error fault => .error fault
        | .ok none => .ok (-1, g)
        | .ok (some pools) => .ok (0, { g with connPools := pools }.finishInit cm)

/-! ## The pools -/

/-- Addresses from which a pool can be built: there is one with a colon, and the rounds
over them stay below the end of a 32-bit counter. -/
def Usable (service : Service) (addrs : List UInt8) : Prop :=
  addressCount addrs ≠ 0 ∧
    ((poolSizeOf cm service % 2 ^ 64).toNat / addressCount addrs) < 2 ^ 32

instance (service : Service) (addrs : List UInt8) : Decidable (Usable cm service addrs) :=
  inferInstanceAs (Decidable (_ ∧ _))

/-- A service with a configured list of addresses from which its pool can be built. -/
def Configures (service : Service) : Prop :=
  ∃ addrs, configGetStrval service.addrKey none cm = some addrs ∧ Usable cm service addrs

/-- The pool is built from usable addresses and from no others. -/
theorem exists_buildPool_iff (service : Service) (addrs : List UInt8) :
    (∃ p, buildPool cm platform service addrs = .ok p) ↔ Usable cm service addrs := by
  simp only [buildPool, ConnectionPool.ofConfig, ConnectionPool.init, ConnectionPool.configure,
    ConnectionPool.new, length_stringToIpPortPairs, Usable]
  split
  · simp_all
  · split
    · simp_all
    · simp_all

end

section

variable {cm : Option ConfigManager} {platform : Platform} {service : Service}
  {addrs : List UInt8} {p : ConnectionPool} {pools pools' : ConnectionPoolMap}

/-- A setting of the configuration is an `int`. -/
theorem configGetIntval_lt {defult : ℤ} (hdefult : defult < 2 ^ 31) (key : List UInt8) :
    configGetIntval key defult cm < 2 ^ 31 := by
  rw [configGetIntval_eq]
  cases (serving cm).bind fun entries => entries.lookup key with
  | none => exact hdefult
  | some text =>
    have hbmod : wrapInt (strtol text) < ((2 ^ 32 : ℕ) + 1) / 2 := Int.bmod_lt (by decide)
    exact lt_of_lt_of_le hbmod (by norm_num)

/-- The pool that a block builds. -/
theorem buildPool_eq (h : buildPool cm platform service addrs = .ok p) :
    p.serverName = service.server ∧ p.poolSize = poolSizeOf cm service ∧
      p.connections.length =
        (poolSizeOf cm service % 2 ^ 64).toNat / addressCount addrs * addressCount addrs := by
  have husable := (exists_buildPool_iff cm platform service addrs).mp ⟨p, h⟩
  simp only [buildPool, ConnectionPool.ofConfig, ConnectionPool.init, ConnectionPool.configure,
    ConnectionPool.new, length_stringToIpPortPairs, husable.1, Nat.not_le.mpr husable.2,
    if_false, List.nil_append] at h
  obtain rfl := Except.ok.inj h
  refine ⟨rfl, rfl, ?_⟩
  simp [List.length_flatMap, length_stringToIpPortPairs]

/-- The vector of a built pool is full when the number of addresses divides its size. -/
theorem buildPool_initialised_iff (hsize : service.poolSize < 2 ^ 31)
    (h : buildPool cm platform service addrs = .ok p) :
    p.Initialised ↔
      1 ≤ poolSizeOf cm service ∧ (addressCount addrs : ℤ) ∣ poolSizeOf cm service := by
  obtain ⟨-, hpool, hlength⟩ := buildPool_eq h
  have hlt : poolSizeOf cm service < 2 ^ 31 := configGetIntval_lt hsize _
  rw [ConnectionPool.Initialised, hpool, hlength]
  constructor
  · rintro ⟨-, hpos, hfull⟩
    refine ⟨hpos, ?_⟩
    rw [← hfull]
    exact Int.natCast_dvd_natCast.mpr (Nat.dvd_mul_left _ _)
  · rintro ⟨hpos, hdvd⟩
    refine ⟨⟨_, _, _, _, _, _, _, h⟩, hpos, ?_⟩
    rw [Int.emod_eq_of_lt (by omega) (by omega), Nat.div_mul_cancel, Int.toNat_of_nonneg (by omega)]
    rwa [← Int.natCast_dvd_natCast, Int.toNat_of_nonneg (by omega)]

/-- What a block of `Init` does. -/
theorem initService_cases (cm : Option ConfigManager) (platform : Platform) (service : Service)
    (pools : ConnectionPoolMap) :
    (configGetStrval service.addrKey none cm = none ∧
      initService cm platform service pools = .ok none) ∨
    (∃ addrs p, configGetStrval service.addrKey none cm = some addrs ∧
      Usable cm service addrs ∧ buildPool cm platform service addrs = .ok p ∧
      initService cm platform service pools = .ok (some (pools.addConnPool p))) ∨
    (∃ addrs fault, configGetStrval service.addrKey none cm = some addrs ∧
      ¬ Usable cm service addrs ∧ initService cm platform service pools = .error fault) := by
  unfold initService
  cases haddrs : configGetStrval service.addrKey none cm with
  | none => exact .inl ⟨rfl, rfl⟩
  | some addrs =>
    right
    cases hbuild : buildPool cm platform service addrs with
    | ok p =>
      exact .inl ⟨addrs, p, rfl, (exists_buildPool_iff cm platform service addrs).mp ⟨p, hbuild⟩,
        hbuild, by simp only [hbuild]⟩
    | error fault =>
      refine .inr ⟨addrs, fault, rfl, ?_, by simp only [hbuild]⟩
      rw [← exists_buildPool_iff cm platform]
      rintro ⟨p, hp⟩
      rw [hbuild] at hp
      cases hp

end

/-! ## What `Init` does -/

/-- The services that `Init` builds pools for. -/
def services : List Service := [tisService, dbserService]

/-- A service with a configured list of addresses from which no pool can be built. -/
def Stops (cm : Option ConfigManager) (service : Service) : Prop :=
  ∃ addrs, configGetStrval service.addrKey none cm = some addrs ∧ ¬ Usable cm service addrs

/-- The store as `Init` leaves it before it reads the addresses. -/
def Globals.storeReady (cm : Option ConfigManager) (platform : Platform) (g : Globals) : Store :=
  Store.init g.store (maxOpenFdOf cm platform) (configGetIntval (keyOf "timeout_s") 2 cm)
    platform.sizeofClientInfo platform.pagesize platform.chunk

/-- A process that has been started and serves its clients. -/
structure Globals.Serves (cm : Option ConfigManager) (platform : Platform) (g g' : Globals) :
    Prop where
  /-- The event loop starts with an empty store. -/
  store : g'.store = g.storeReady cm platform
  represents : g'.store.Represents []
  /-- Each service has its pool. -/
  known : ∀ server, (g'.connPools server).isSome ↔ ∃ service ∈ services, service.server = server
  /-- The pools are as full as the loops over them require exactly when the number of
  addresses of each service divides the size of its pool. -/
  initialised : g'.connPools.Initialised ↔ ∀ service ∈ services, ∀ addrs,
    configGetStrval service.addrKey none cm = some addrs →
      1 ≤ poolSizeOf cm service ∧ (addressCount addrs : ℤ) ∣ poolSizeOf cm service
  /-- The handler of moderation requests is registered. -/
  cmdHandlers : g'.cmdHandlers = cmdHandler
  threads : g'.threads = (configGetIntval (keyOf "thread_num") 5 cm).toNat

section

variable {cm : Option ConfigManager} {platform : Platform} {g g' : Globals}

/-- `Init` gives up without the memory that it asks for. -/
theorem init_of_not_allocates (h : ¬ platform.Allocates) :
    ∃ g', g.init cm platform = .ok (-1, g') ∧ g'.threads = g.threads := by
  unfold Globals.init Globals.initFdList createMempool
  by_cases hfd : platform.fdListAllocated = true
  · by_cases hpool : platform.mempoolAllocated = true
    · have hchunk : platform.chunk = 0 := by
        by_contra hne
        exact h ⟨hfd, hpool, hne⟩
      simp [hfd, hpool, hchunk]
    · simp [hfd, hpool]
  · simp [hfd]

/-- With the memory that it asks for, `Init` goes on to the two blocks. -/
theorem init_of_allocates (hload : g.Loaded) (h : platform.Allocates) :
    g.init cm platform =
      match initService cm platform tisService g.connPools with
      | .error fault => .error fault
      | .ok none => .ok (-1, { g with store := g.storeReady cm platform })
      | .ok (some pools) =>
        match initService cm platform dbserService pools with
        | .error fault => .error fault
        | .ok none => .ok (-1, { g with store := g.storeReady cm platform, connPools := pools })
        | .ok (some pools) => .ok (0,
          { g with store := g.storeReady cm platform, connPools := pools }.finishInit cm) := by
  obtain ⟨hfd, hpool, hchunk⟩ := h
  have hready : g.storeReady cm platform =
      { g.store with
        maxOpenFd := maxOpenFdOf cm platform
        fdLists := ThriftProxy.initFdList g.store.fdLists (maxOpenFdOf cm platform).toNat
        words := (mempoolCreate platform.pagesize platform.sizeofClientInfo
          (platform.pagesize * 4096) platform.chunk g.store.words).2
        pool := (mempoolCreate platform.pagesize platform.sizeofClientInfo
          (platform.pagesize * 4096) platform.chunk g.store.words).1
        timeoutS := configGetIntval (keyOf "timeout_s") 2 cm
        netTimer := timerInit g.store.netTimer (.head ()) } := by
    simp only [Globals.storeReady, Store.init, ← hload.map, ← hload.serial, ← hload.accepted,
      ← hload.owner]
  rw [hready]
  simp [Globals.init, Globals.initFdList, createMempool, hfd, hpool, hchunk]

/-- The table after both blocks. -/
theorem lookup_both {p p' : ConnectionPool} (hp : p.serverName = tisService.server)
    (hp' : p'.serverName = dbserService.server) (server : String) :
    (ConnectionPoolMap.addConnPool (ConnectionPoolMap.addConnPool (fun _ => none) p) p') server =
      if server = dbserService.server then some p'
      else if server = tisService.server then some p else none := by
  have hne : dbserService.server ≠ tisService.server := by decide
  have hfree : (ConnectionPoolMap.addConnPool (fun _ => none) p) p'.serverName = none := by
    rw [ConnectionPoolMap.addConnPool_of_none rfl, hp, hp', Function.update_of_ne hne]
  rw [ConnectionPoolMap.addConnPool_of_none hfree, ConnectionPoolMap.addConnPool_of_none rfl, hp,
    hp']
  simp only [Function.update_apply]

/-- What is set when both blocks have built their pools. -/
theorem serves_of_built (hplat : platform.Lawful) (hload : g.Loaded) (h : platform.Allocates)
    {addrs addrs' : List UInt8} {p p' : ConnectionPool}
    (haddrs : configGetStrval tisService.addrKey none cm = some addrs)
    (hbuild : buildPool cm platform tisService addrs = .ok p)
    (haddrs' : configGetStrval dbserService.addrKey none cm = some addrs')
    (hbuild' : buildPool cm platform dbserService addrs' = .ok p') :
    g.Serves cm platform ({ g with
      store := g.storeReady cm platform
      connPools := (g.connPools.addConnPool p).addConnPool p' }.finishInit cm) := by
  have hlookup := lookup_both (buildPool_eq hbuild).1 (buildPool_eq hbuild').1
  have hpools : g.connPools = fun _ => none := hload.pools
  constructor
  case store => rfl
  case represents =>
    exact represents_init g.store _ _ platform.sizeofClientInfo hplat.pagesize_pos h.2.2
      hplat.chunk_le
  case known =>
    intro server
    simp only [Globals.finishInit, hpools, hlookup, services, List.mem_cons, List.not_mem_nil,
      or_false, exists_eq_or_imp, exists_eq_left]
    split_ifs with hdbser htis
    · simp [hdbser]
    · simp [htis]
    · simp [Ne.symm hdbser, Ne.symm htis]
  case initialised =>
    have htis := buildPool_initialised_iff (by decide) hbuild
    have hdbser := buildPool_initialised_iff (by decide) hbuild'
    simp only [services, List.forall_mem_cons, List.not_mem_nil, IsEmpty.forall_iff, implies_true,
      and_true, haddrs, haddrs', Option.some.injEq, forall_eq', ← htis, ← hdbser]
    simp only [ConnectionPoolMap.Initialised, Globals.finishInit, hpools, hlookup]
    constructor
    · intro hall
      exact ⟨hall "tis" p rfl, hall "dbser" p' rfl⟩
    · rintro ⟨hinit, hinit'⟩ server q hq
      split_ifs at hq with hserver hserver'
      · exact Option.some.inj hq ▸ hinit'
      · exact Option.some.inj hq ▸ hinit
  case cmdHandlers => rfl
  case threads => rfl

end

/-- **Starting.** Where threads can be created and nothing that C++ allocates by itself is
missing, `Init` returns 0 exactly when it gets its memory and both services have usable
addresses, and then the process serves. It stops the process exactly when the addresses of
a service whose turn comes are unusable. Otherwise it returns -1 and starts no thread. -/
theorem init_starts_or_stops {platform : Platform} (hplat : platform.Lawful) {g : Globals}
    (hload : g.Loaded) (cm : Option ConfigManager) :
    ((∃ g', g.init cm platform = .ok (0, g')) ↔
      platform.Allocates ∧ ∀ service ∈ services, Configures cm service) ∧
    ((∃ fault, g.init cm platform = .error fault) ↔
      platform.Allocates ∧
        (Stops cm tisService ∨ (Configures cm tisService ∧ Stops cm dbserService))) ∧
    ∀ ret g', g.init cm platform = .ok (ret, g') →
      (ret = 0 ∧ g.Serves cm platform g') ∨ (ret = -1 ∧ g'.threads = 0) := by
  by_cases h : platform.Allocates
  swap
  · obtain ⟨g', hinit, hthreads⟩ : ∃ g', g.init cm platform = .ok (-1, g') ∧
        g'.threads = g.threads := init_of_not_allocates h
    rw [hload.threads] at hthreads
    simp [hinit, h, hthreads]
  have hinit : g.init cm platform = _ := init_of_allocates hload h
  simp only [services, List.forall_mem_cons, List.not_mem_nil, IsEmpty.forall_iff, implies_true,
    and_true, h, true_and]
  obtain ⟨haddrs, htis⟩ | ⟨addrs, p, haddrs, husable, hbuild, htis⟩ |
    ⟨addrs, fault, haddrs, hunusable, htis⟩ :=
      initService_cases cm platform tisService g.connPools
  · simp [hinit, htis, Configures, Stops, haddrs, hload.threads]
  · have hconf : Configures cm tisService := ⟨addrs, haddrs, husable⟩
    have hgoes : ¬ Stops cm tisService := by simp [Stops, haddrs, husable]
    obtain ⟨haddrs', hdbser⟩ | ⟨addrs', p', haddrs', husable', hbuild', hdbser⟩ |
      ⟨addrs', fault, haddrs', hunusable', hdbser⟩ :=
        initService_cases cm platform dbserService (g.connPools.addConnPool p)
    · have hnot : ¬ Configures cm dbserService := by simp [Configures, haddrs']
      have hgoes' : ¬ Stops cm dbserService := by simp [Stops, haddrs']
      simp [hinit, htis, hdbser, hnot, hgoes, hgoes', hload.threads]
    · have hconf' : Configures cm dbserService := ⟨addrs', haddrs', husable'⟩
      have hgoes' : ¬ Stops cm dbserService := by simp [Stops, haddrs', husable']
      have hserves := serves_of_built hplat hload h haddrs hbuild haddrs' hbuild'
      simp [hinit, htis, hdbser, hconf, hconf', hgoes, hgoes', hserves]
    · have hnot : ¬ Configures cm dbserService := by simp [Configures, haddrs', hunusable']
      have hstops : Stops cm dbserService := ⟨addrs', haddrs', hunusable'⟩
      simp [hinit, htis, hdbser, hconf, hnot, hstops]
  · have hnot : ¬ Configures cm tisService := by simp [Configures, haddrs, hunusable]
    have hstops : Stops cm tisService := ⟨addrs, haddrs, hunusable⟩
    simp [hinit, htis, hnot, hstops]

/-- The configuration that comes with the program, up to the settings that `Init` reads. -/
def shippedConfig : ConfigManager :=
  { configMap := [(keyOf "timeout_s", keyOf "10"), (keyOf "tis_server_addr", keyOf "10.1.1.83:9093"),
      (keyOf "dbser_server_addr", keyOf "10.1.1.83:21147"), (keyOf "thread_num", keyOf "10"),
      (keyOf "pool_size", keyOf "20"), (keyOf "min_size", keyOf "18"),
      (keyOf "check_interval_sec", keyOf "5")]
    loaded := true }

/-- A platform with a limit of 1024 descriptors. -/
def somePlatform : Platform :=
  { rlimMax := some 1024, fdListAllocated := true, mempoolAllocated := true, chunk := 4096,
    pagesize := 4096, sizeofClientInfo := 4248, lastChecked := fun _ => 0,
    opened := fun _ _ => true }

/-- The variables of a process over memory full of zeros. -/
def zeroGlobals : Globals :=
  { store := zeroMemory, connPools := fun _ => none, cmdHandlers := [], threads := 0 }

/-- With the configuration that comes with the program, the proxy starts. -/
theorem init_starts_or_stops_shippedConfig :
    ∃ g', zeroGlobals.init (some shippedConfig) somePlatform = .ok (0, g') := by
  refine (init_starts_or_stops ⟨by decide, by decide⟩ ⟨rfl, rfl, rfl, rfl, rfl, rfl⟩
    (some shippedConfig)).1.mpr ⟨by decide, ?_⟩
  simp only [services, List.forall_mem_cons, List.not_mem_nil, IsEmpty.forall_iff, implies_true,
    and_true]
  exact ⟨⟨_, rfl, by decide⟩, ⟨_, rfl, by decide⟩⟩

end ThriftProxy
