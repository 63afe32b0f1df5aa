import ThriftProxy.Lib.Memory

/-!
# The connection pool

The pool of thrift connections to one back-end service (`connection.h`,
`connection_pool.cpp`). A `Connection` is known to its clients by its index in
the pool's vector, which never changes after `init`. The outcome of each
`open()` is supplied by the environment as a function of that index, since no
operation opens one connection twice.
-/

namespace ThriftProxy

open Machine

/-! ## Connections -/

/-- `Connection`: the flags of `connection.h` and the state of its transport. -/
structure Connection where
  /-- The address of the server. -/
  ip : String
  /-- The port of the server. -/
  port : ℤ
  /-- `is_busy_`: whether the connection is in use. -/
  isBusy : Bool
  /-- `is_dead_`. -/
  isDead : Bool
  /-- `transport_->isOpen()`. -/
  isOpen : Bool
  deriving DecidableEq

namespace Connection

/-- The constructor followed by `init()`, whose `open()` succeeds or throws. -/
def init (ip : String) (port : ℤ) (opened : Bool) : Connection :=
  { ip := ip, port := port, isBusy := false, isDead := !opened, isOpen := opened }

/-- `isAvailable()`. -/
def isAvailable (c : Connection) : Bool := !c.isBusy && !c.isDead && c.isOpen

/-- `setBusy`. -/
def setBusy (c : Connection) (busy : Bool) : Connection := { c with isBusy := busy }

/-- `setDead`. -/
def setDead (c : Connection) (dead : Bool) : Connection := { c with isDead := dead }

/-- Whether `getTransport()->open()` returns: an open transport is left alone,
a closed one is opened or throws. -/
def opens (c : Connection) (outcome : Bool) : Bool := c.isOpen || outcome

/-- The connection after `getTransport()->open()` has returned. -/
def openTransport (c : Connection) : Connection := { c with isOpen := true }

/-- `getTransport()->close()`. -/
def closeTransport (c : Connection) : Connection := { c with isOpen := false }

end Connection

/-! ## The pool -/

/-- Behaviour of the pool that C++ leaves undefined or that never ends. -/
inductive PoolFault
  /-- An index outside `connection_pool_`. -/
  | outOfRange (index : ℤ)
  /-- An integer division by zero. -/
  | divideByZero
  /-- `init` pushes connections until memory runs out. -/
  | outOfMemory
  deriving DecidableEq

/-- `ConnectionPool`. The mutex `mu_` is not a field: every operation below is
one critical section. -/
structure ConnectionPool where
  /-- `connection_pool_`. -/
  connections : List Connection
  /-- `pool_size_`. -/
  poolSize : ℤ
  /-- `min_size_`. -/
  minSize : ℤ
  /-- `max_idle_sec_`. -/
  maxIdleSec : ℤ
  /-- `check_interval_sec_`. -/
  checkIntervalSec : ℤ
  /-- `count_`, the round-robin cursor. -/
  count : ℤ
  /-- `server_name_`. -/
  serverName : String
  /-- `last_checked_time_`. -/
  lastCheckedTime : ℤ
  /-- `ip_port_pair_`. -/
  ipPortPair : List (String × ℤ)
  deriving DecidableEq

/-- `connection_pool_[index]`. -/
def connectionAt (conns : List Connection) (index : ℤ) : Except PoolFault Connection :=
  if index < 0 then .error (.outOfRange index)
  else match conns[index.toNat]? with
    | some conn => .ok conn
    | none => .error (.outOfRange index)

/-- A loop `for (int i = first; ...; ++i)` of `remaining` rounds that replaces
each connection by a function of it. -/
def updateFrom (f : ℕ → Connection → Connection) :
    ℕ → ℕ → List Connection → Except PoolFault (List Connection)
  | 0, _, conns => .ok conns
  | remaining + 1, i, conns => do
    let conn ← connectionAt conns i
    updateFrom f remaining (i + 1) (conns.set i (f i conn))

/-- The first loop of `getConnection`: `remaining` slots in cyclic order from
`index` on, up to an available connection. -/
def scanAvailable (conns : List Connection) (poolSize : ℤ) :
    ℕ → ℤ → Except PoolFault (Option ℕ)
  | 0, _ => .ok none
  | remaining + 1, index => do
    let conn ← connectionAt conns index
    if !conn.isAvailable then
      scanAvailable conns poolSize remaining ((index + 1).tmod poolSize)
    else
      .ok (some index.toNat)

/-- The second loop of `getConnection`: the connections that are not busy are
opened in index order, up to one that succeeds. -/
def reopenFirst (outcome : ℕ → Bool) :
    ℕ → ℕ → List Connection → Except PoolFault (List Connection × Option ℕ)
  | 0, _, conns => .ok (conns, none)
  | remaining + 1, i, conns => do
    let conn ← connectionAt conns i
    if !conn.isBusy then
      if conn.opens (outcome i) then
        .ok (conns.set i (conn.openTransport.setBusy true), some i)
      else
        reopenFirst outcome remaining (i + 1) (conns.set i (conn.setDead true))
    else
      reopenFirst outcome remaining (i + 1) conns

/-- The body of the reactivation loop of `release`. -/
def reactivate (outcome : ℕ → Bool) (i : ℕ) (conn : Connection) : Connection :=
  if !conn.isBusy then
    if conn.opens (outcome i) then conn.openTransport.setDead false else conn.setDead true
  else
    conn

/-- The body of the loop by which a failed `release` resets the pool. -/
def resetConnection (_ : ℕ) (conn : Connection) : Connection :=
  conn.closeTransport.setDead true

namespace ConnectionPool

/-- The constructor. `last_checked_time_` is not initialised: it keeps whatever
the memory held. -/
def new (serverName : String) (ipPortPair : List (String × ℤ)) (memory : ℤ) : ConnectionPool :=
  { connections := [], poolSize := 20, minSize := 18, maxIdleSec := 10, checkIntervalSec := 5,
    count := 0, serverName := serverName, lastCheckedTime := memory, ipPortPair := ipPortPair }

/-- The setters called by `Proxy::Init` between construction and `init`. -/
def configure (p : ConnectionPool) (poolSize minSize checkIntervalSec : ℤ) : ConnectionPool :=
  { p with poolSize := poolSize, minSize := minSize, checkIntervalSec := checkIntervalSec }

/-- `init()`: `pool_size_ / n` rounds over the `n` addresses. The quotient is
unsigned, and a 32-bit counter never reaches one of `2 ^ 32` or more. -/
def init (p : ConnectionPool) (outcome : ℕ → Bool) : Except PoolFault ConnectionPool :=
  let n := p.ipPortPair.length
  let rounds := (p.poolSize % 2 ^ 64).toNat / n
  if n = 0 then .error .divideByZero
  else if 2 ^ 32 ≤ rounds then .error .outOfMemory
  else .ok { p with
    connections := p.connections ++ (List.range rounds).flatMap fun i =>
      p.ipPortPair.mapIdx fun j addr => Connection.init addr.1 addr.2 (outcome (i * n + j)) }

/-- `getConnection()`: the next pool and the connection handed out. -/
def getConnection (p : ConnectionPool) (outcome : ℕ → Bool) :
    Except PoolFault (ConnectionPool × Option ℕ) := do
  if p.poolSize = 0 then .error .divideByZero
  let index := p.count.tmod p.poolSize
  match ← scanAvailable p.connections p.poolSize p.poolSize.toNat index with
  | some i => .ok ({ p with count := wrapInt (p.count + 1) }, some i)
  | none =>
    let (conns, found) ← reopenFirst outcome p.poolSize.toNat 0 p.connections
    .ok ({ p with connections := conns }, found)

/-- The loop of `availableCount()`. -/
def availableFrom (conns : List Connection) : ℕ → ℕ → Except PoolFault ℤ
  | 0, _ => .ok 0
  | remaining + 1, i => do
    let conn ← connectionAt conns i
    let rest ← availableFrom conns remaining (i + 1)
    .ok (if conn.isAvailable then rest + 1 else rest)

/-- `availableCount()`. -/
def availableCount (p : ConnectionPool) : Except PoolFault ℤ :=
  availableFrom p.connections p.poolSize.toNat 0

/-- The reactivation pass at the end of `release`. -/
def reactivationPass (p : ConnectionPool) (now : ℤ) (outcome : ℕ → Bool) :
    Except PoolFault ConnectionPool := do
  if wrapInt (now - p.lastCheckedTime) > p.checkIntervalSec then
    let conns ← updateFrom (reactivate outcome) p.poolSize.toNat 0 p.connections
    .ok { p with connections := conns, lastCheckedTime := now }
  else
    .ok p

/-- `release(conn, status)` at the clock reading `now`. -/
def release (p : ConnectionPool) (conn : ℕ) (status : Bool) (now : ℤ) (outcome : ℕ → Bool) :
    Except PoolFault ConnectionPool := do
  let c ← connectionAt p.connections conn
  let conns := p.connections.set conn (c.setBusy false)
  if status then
    let p' := { p with connections := conns.set conn ((c.setBusy false).setDead false) }
    if (← p'.availableCount) < p'.minSize then p'.reactivationPass now outcome else .ok p'
  else
    let conns' ← updateFrom resetConnection p.poolSize.toNat 0 conns
    { p with connections := conns' }.reactivationPass now outcome

end ConnectionPool

end ThriftProxy
