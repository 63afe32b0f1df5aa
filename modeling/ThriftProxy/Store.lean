import ThriftProxy.ClientInfo
import ThriftProxy.Mempool
import ThriftProxy.Timer

/-!
# The store of live requests

What the event loop keeps about the requests that have not timed out or lost
their client (`proxy.cpp`, `client_info.cpp`): the memory pool that holds them,
the map from serial numbers, a list for each file descriptor and the timer. A
`ClientInfo` is known by its address; its first word is in the word memory that
it shares with the pool, its other members and its list nodes are apart.
-/

namespace ThriftProxy

open Machine WordMemory Intrusive

/-! ## The state -/

/-- The nodes of a family of lists: their heads and the nodes inside items. -/
inductive ListNode (κ : Type)
  | head (key : κ)
  | member (item : ℕ)
  deriving DecidableEq

/-- The functions that timer events call. -/
inductive TimeoutCallback
  | doServerTimeout
  deriving DecidableEq

/-- The globals of `proxy.cpp`, the statics of `ClientInfo` and the memory behind them. -/
structure Store where
  /-- The first words of items and chunks. -/
  words : ℕ → ℕ
  /-- The other members of the `ClientInfo` at each address. -/
  items : ℕ → ClientTail
  /-- `g_client_fd_list` and the `fd_list_node` members. -/
  fdLists : Links (ListNode ℤ)
  /-- `g_net_timer` and the `event` members. -/
  netTimer : Timer (ListNode Unit) TimeoutCallback
  /-- `client_info_map`. -/
  clientInfoMap : UInt32 → Option ℕ
  /-- `serialized_no`. -/
  serializedNo : UInt32
  /-- `g_mempool`. -/
  pool : Mempool
  /-- `g_timeout_s`. -/
  timeoutS : ℤ
  /-- `g_max_open_fd`. -/
  maxOpenFd : ℤ
  /-- The number of packages accepted so far. The code does not keep it. -/
  accepted : ℕ
  /-- The request that each item is allocated to: the number of packages accepted
  before it. The code does not keep it. -/
  owner : ℕ → Option ℕ

/-- The `ClientInfo` at an address. -/
def Store.client (st : Store) (item : ℕ) : ClientInfo := clientOf (st.words item) (st.items item)

/-! ## Starting up -/

/-- `InitFdList` for an array of a given length. -/
def initFdList (l : Links (ListNode ℤ)) (count : ℕ) : Links (ListNode ℤ) :=
  (List.range count).foldl (fun l (i : ℕ) => initListHead l (.head (i : ℤ))) l

/-- `Proxy::Init` over memory with any contents, up to the connection pools and
the threads: `sizeof(ClientInfo)` and the page size are those of the platform,
and `chunk` is the block that `mempool_create` got. The chunk size, an `int` product,
overflows for pages of 2^19 bytes and more. -/
def Store.init (memory : Store) (maxOpenFd timeoutS : ℤ) (sizeofClientInfo pagesize chunk : ℕ) :
    Store :=
  let created := mempoolCreate pagesize sizeofClientInfo (pagesize * 4096) chunk memory.words
  { memory with
    words := created.2
    fdLists := initFdList memory.fdLists maxOpenFd.toNat
    netTimer := timerInit memory.netTimer (.head ())
    clientInfoMap := fun _ => none
    serializedNo := 0
    pool := created.1
    timeoutS := timeoutS
    maxOpenFd := maxOpenFd
    accepted := 0
    owner := fun _ => none }

/-! ## Accepting a package -/

/-- `a - b` in `size_t`. -/
def sizeSub (a b : ℕ) : ℕ := (a + 2 ^ 64 - b) % 2 ^ 64

/-- A subtraction in `size_t` that does not underflow. -/
theorem sizeSub_of_le {a b : ℕ} (h : b ≤ a) (ha : a < 2 ^ 64) : sizeSub a b = a - b := by
  unfold sizeSub
  omega

/-- A subtraction in `size_t` that underflows. -/
theorem sizeSub_of_lt {a b : ℕ} (h : a < b) : sizeSub a b = a + 2 ^ 64 - b := by
  unfold sizeSub
  omega

/-- The `ClientInfo` that a package is copied to, before it has a serial number
and a handler, where the copy stays in `buf`. Where it does not, the outcome
`Faults` and this is not what is in memory. -/
def clientOfPackage (fd : Int32) (pkg : List UInt8) (procTime : Timeval) (old : ClientTail) :
    ClientInfo :=
  let header := ProtoHeader.decode pkg
  { old with
    procTime := procTime
    cliSeq := header.seqNum
    cliFd := fd
    cliCmd := header.cmdId
    userid := header.userId
    len := UInt32.ofNat (sizeSub pkg.length sizeofProtoHeader)
    buf := Buffer.zeroFilled bufSize (pkg.drop sizeofProtoHeader) }

/-- What `ProcPkgCli` does: the store it leaves, the accesses it makes to the
package, to `ClientInfo::buf` and to `g_client_fd_list`, the reply it sends
itself, and the task it gives to the thread pool. -/
structure PkgOutcome where
  store : Store
  accesses : List Access
  reply : Option (Int32 × List UInt8)
  task : Option ℕ

/-- An access leaves the object it is made to. From 4115 bytes on the body of a
package runs over the end of `buf` into `call_back_func`, which is assigned to
next, and into the items behind, so nothing is known of the store and of the
task then. -/
def PkgOutcome.Faults (out : PkgOutcome) : Prop := ∃ access ∈ out.accesses, ¬ access.InRange

instance (out : PkgOutcome) : Decidable out.Faults := by
  unfold PkgOutcome.Faults
  infer_instance

/-- The accesses by which the members of the package header are read. -/
def headerAccesses (len : ℕ) : List Access := [⟨len, 4, 4⟩, ⟨len, 8, 2⟩, ⟨len, 14, 4⟩]

/-- The accesses by which a package is copied and linked in. -/
def acceptAccesses (st : Store) (fd : Int32) (len : ℕ) : List Access :=
  let count := sizeSub len sizeofProtoHeader
  headerAccesses len ++
    [⟨bufSize, 0, bufSize⟩, ⟨len, sizeofProtoHeader, count⟩, ⟨bufSize, 0, count⟩,
      ⟨st.maxOpenFd.toNat, fd.toInt, 1⟩]

/-- The package sent by the other overload of `SendToClient`. -/
def refusal (header : ProtoHeader) : List UInt8 :=
  ProtoHeader.encode { header with pkgLen := UInt32.ofNat sizeofProtoHeader, statusCode := 1001 }

/-- The part of `ProcPkgCli` behind a successful allocation: the item is filled
in, gets the next serial number and is entered in the map, the list of its file
descriptor and the timer. The other items are left alone unless the body runs over
the end of `buf`, where the outcome `Faults`. -/
def Store.enter (st : Store) (ci : ℕ) (fd : Int32) (pkg : List UInt8) (procTime : Timeval)
    (now : ℤ) : Store :=
  let client := clientOfPackage fd pkg procTime (st.items ci)
  let func := cmdHandler.getHandler client.cliCmd.toNat
  let sn := st.serializedNo
  { st with
    words := store st.words ci (packFirstWord client.cliFd client.cliSeq)
    items := Function.update st.items ci
      { client.toClientTail with serSeq := sn, callBackFunc := func }
    serializedNo := sn + 1
    clientInfoMap := Function.update st.clientInfoMap sn (some ci)
    fdLists := listAddTail st.fdLists (.member ci) (.head fd.toInt)
    netTimer := timerAddEvent (eventInit st.netTimer (.member ci)) (.head ()) (.member ci)
      (now + st.timeoutS) (some .doServerTimeout) ci 0
    accepted := st.accepted + 1
    owner := Function.update st.owner ci (some st.accepted) }

/-- `ProcPkgCli(fd, buf, len)` for a package of `len` bytes, up to the call of
`ThreadPool::put`. -/
def procPkgCli (st : Store) (fd : Int32) (pkg : List UInt8) (malloc : Option ℕ)
    (procTime : Timeval) (now : ℤ) : PkgOutcome :=
  if 8192 < pkg.length then { store := st, accesses := [], reply := none, task := none }
  else
    match mempoolCalloc malloc st.pool st.words with
    | (pool, words, none) =>
      { store := { st with pool := pool, words := words }
        accesses := headerAccesses pkg.length
        reply := some (fd, refusal (ProtoHeader.decode pkg))
        task := none }
    | (pool, words, some ci) =>
      { store := { st with pool := pool, words := words }.enter ci fd pkg procTime now
        accesses := acceptAccesses st fd pkg.length
        reply := none
        task := some ci }

/-! ## Removing requests -/

/-- `DestroyClient`. -/
def destroyClient (st : Store) (sn : UInt32) : Store :=
  match st.clientInfoMap sn with
  | none => st
  | some ci =>
    let freed := mempoolFree st.pool st.words ci
    { st with
      fdLists := listDelInit st.fdLists (.member ci)
      pool := freed.1
      words := freed.2
      owner := Function.update st.owner ci none
      clientInfoMap := Function.update st.clientInfoMap sn none
      netTimer := timerDelEvent st.netTimer (.member ci) }

/-- `DoServerTimeout`. -/
def doServerTimeout (st : Store) (owner : ℕ) : Store := destroyClient st (st.items owner).serSeq

/-- The timer in the store. -/
def storeTimer : TimerHost Store (ListNode Unit) TimeoutCallback where
  timer st := st.netTimer
  withTimer st t := { st with netTimer := t }
  call func owner _ st :=
    match func with
    | .doServerTimeout => some (doServerTimeout st owner)

/-- `TimeEvent` at the clock reading `now`. -/
def timeEvent (rounds : ℕ) (now : ℤ) (st : Store) : Option Store :=
  timerCheckEvent storeTimer (.head ()) now rounds st

/-- The loop of `LinkDownCli` from `entry` and `next` on, for a bounded number of rounds. -/
def linkDownLoop (fd : ℤ) : ℕ → ListNode ℤ → ListNode ℤ → Store → Option Store
  | 0, _, _, _ => none
  | rounds + 1, entry, next, st =>
    if entry = .head fd then some st
    else
      match entry with
      | .head _ => none
      | .member ci =>
        let st := destroyClient st (st.items ci).serSeq
        linkDownLoop fd rounds next (st.fdLists.next next) st

/-- `LinkDownCli`. -/
def linkDownCli (rounds : ℕ) (fd : Int32) (st : Store) : Option Store :=
  if fd.toInt < 0 ∨ st.maxOpenFd ≤ fd.toInt then some st
  else
    let entry := st.fdLists.next (.head fd.toInt)
    linkDownLoop fd.toInt rounds entry (st.fdLists.next entry) st

end ThriftProxy
