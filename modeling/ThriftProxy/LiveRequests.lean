import ThriftProxy.Store
import ThriftProxy.MempoolSemantics

/-!
# The set of live requests

What the store stands for: a list of live requests in the order of their
arrival. The pool, the map, the lists of the file descriptors and the timer each
hold every live request once and nothing else. While a timer scan is at work,
the request at hand is already out of the timer list, so the requests in that
list are described apart.
-/

namespace ThriftProxy

open Machine WordMemory Intrusive

/-- A live request. -/
structure Request where
  /-- The number of packages accepted before it. -/
  id : ℕ
  /-- The address of its `ClientInfo`. -/
  item : ℕ
  /-- The `ClientInfo` that `ProcPkgCli` has filled in. -/
  client : ClientInfo
  /-- When its timer event expires. -/
  deadline : ℤ

namespace Request

/-- The file descriptor it was received on. -/
def fd (r : Request) : Int32 := r.client.cliFd

/-- Its serial number. -/
def sn (r : Request) : UInt32 := r.client.serSeq

/-- The timer event of a live request. -/
def event (r : Request) : TimerEvent TimeoutCallback :=
  { expireTime := r.deadline, func := some .doServerTimeout, owner := r.item, arg := 0 }

end Request

/-- The list nodes of some requests. -/
def nodes (κ : Type) (requests : List Request) : List (ListNode κ) :=
  requests.map fun r => .member r.item

/-- The requests received on a file descriptor. -/
def onFd (fd : ℤ) (requests : List Request) : List Request :=
  requests.filter fun r => r.fd.toInt = fd

/-- The requests other than the one at an address. -/
def without (item : ℕ) (requests : List Request) : List Request :=
  requests.filter fun r => r.item ≠ item

/-- The structures of the store describe the given live requests, of which the
given ones are in the timer list. -/
structure Store.Holds (st : Store) (live timed : List Request) : Prop where
  /-- The live items of the pool are those of the live requests. -/
  pool : ∃ older free, st.pool.Holds st.words older free (live.map Request.item)
  /-- The map leads from each serial number to the item of its request. -/
  map : ∀ sn item, st.clientInfoMap sn = some item ↔ ∃ r ∈ live, r.sn = sn ∧ r.item = item
  /-- Live requests were received on valid file descriptors. -/
  fd_range : ∀ r ∈ live, 0 ≤ r.fd.toInt ∧ r.fd.toInt < st.maxOpenFd
  /-- The list of each file descriptor has the requests received on it. -/
  fd_ring : ∀ fd, 0 ≤ fd → fd < st.maxOpenFd →
    IsRing st.fdLists (.head fd) (nodes ℤ (onFd fd live))
  /-- Only live requests are in the timer list. -/
  timed_live : timed.Sublist live
  /-- The timer list. -/
  timer_ring : IsRing st.netTimer.links (.head ()) (nodes Unit timed)
  /-- The other live requests are in no timer list. -/
  untimed : ∀ r ∈ live, r ∉ timed → Isolated st.netTimer.links (.member r.item)
  /-- The timer events of the requests in the timer list. -/
  event : ∀ r ∈ timed, st.netTimer.event (.member r.item) = r.event
  /-- The items of live requests are as `ProcPkgCli` has left them. -/
  client : ∀ r ∈ live, st.client r.item = r.client
  /-- The items of live requests are allocated to them. -/
  owner : ∀ r ∈ live, st.owner r.item = some r.id

/-- The store stands for the given live requests. -/
def Store.Represents (st : Store) (live : List Request) : Prop := st.Holds live live

namespace Store.Holds

variable {st : Store} {live timed : List Request}

/-- The items of live requests differ. -/
theorem item_nodup (h : st.Holds live timed) : (live.map Request.item).Nodup := by
  obtain ⟨older, free, hpool⟩ := h.pool
  exact (List.nodup_append.mp hpool.nodup).2.1

/-- A live request is known by its item. -/
theorem eq_of_item (h : st.Holds live timed) {q r : Request} (hq : q ∈ live) (hr : r ∈ live)
    (heq : q.item = r.item) : q = r :=
  List.inj_on_of_nodup_map h.item_nodup hq hr heq

/-- A live request is known by its serial number. -/
theorem eq_of_sn (h : st.Holds live timed) {q r : Request} (hq : q ∈ live) (hr : r ∈ live)
    (heq : q.sn = r.sn) : q = r := by
  have hqmap := (h.map q.sn q.item).mpr ⟨q, hq, rfl, rfl⟩
  have hrmap := (h.map r.sn r.item).mpr ⟨r, hr, rfl, rfl⟩
  rw [heq, hrmap, Option.some.injEq] at hqmap
  exact h.eq_of_item hq hr hqmap.symm

/-- The serial number in the item of a live request. -/
theorem serSeq_eq (h : st.Holds live timed) {r : Request} (hr : r ∈ live) :
    (st.items r.item).serSeq = r.sn := by
  have hclient := congrArg (fun c => c.serSeq) (h.client r hr)
  exact hclient

end Store.Holds

/-! ## Nodes -/

section

variable (κ : Type) (requests : List Request)

/-- The nodes of the other requests. -/
theorem nodes_without [DecidableEq κ] (item : ℕ) :
    nodes κ (without item requests) = (nodes κ requests).filter (· ≠ .member item) := by
  unfold nodes without
  rw [List.filter_map]
  congr 1
  apply List.filter_congr
  intro r _
  simp

/-- The other requests on a file descriptor. -/
theorem onFd_without (fd : ℤ) (item : ℕ) :
    onFd fd (without item requests) = without item (onFd fd requests) := by
  unfold onFd without
  rw [List.filter_filter, List.filter_filter]
  apply List.filter_congr
  intro r _
  rw [Bool.and_comm]

end

section
variable {κ : Type} {live requests : List Request}

/-- The nodes of requests with different items differ. -/
theorem mem_nodes {item : ℕ} : ListNode.member item ∈ nodes κ requests ↔
    ∃ r ∈ requests, r.item = item := by
  simp [nodes]

/-- No head is among the nodes of requests. -/
theorem head_notMem_nodes (key : κ) : ListNode.head key ∉ nodes κ requests := by
  simp [nodes]

/-- The items of the other requests, once one is taken out. -/
theorem perm_without (hnodup : (live.map Request.item).Nodup) {r : Request} (hr : r ∈ live) :
    (live.map Request.item).Perm (r.item :: (without r.item live).map Request.item) := by
  have herase : (without r.item live).map Request.item = (live.map Request.item).erase r.item := by
    rw [hnodup.erase_eq_filter, List.filter_map]
    unfold without
    congr 1
    apply List.filter_congr
    intro q _
    by_cases heq : q.item = r.item <;> simp [heq]
  rw [herase]
  exact List.perm_cons_erase (List.mem_map_of_mem hr)

/-- The requests but the one in an item. -/
theorem mem_without {item : ℕ} {r : Request} :
    r ∈ without item requests ↔ r ∈ requests ∧ r.item ≠ item := by
  simp [without]

/-- The requests of one client. -/
theorem mem_onFd {fd : ℤ} {r : Request} :
    r ∈ onFd fd requests ↔ r ∈ requests ∧ r.fd.toInt = fd := by
  simp [onFd]
end

namespace Store.Holds

variable {st : Store} {live timed : List Request}

/-- The nodes of the requests on two file descriptors differ, and so do the heads. -/
theorem fdNodes_disjoint (h : st.Holds live timed) {fd fd' : ℤ} (hne : fd ≠ fd') :
    List.Disjoint (.head fd :: nodes ℤ (onFd fd live)) (.head fd' :: nodes ℤ (onFd fd' live)) := by
  intro x hx hx'
  rcases List.mem_cons.mp hx with rfl | hx
  · rcases List.mem_cons.mp hx' with heq | hx'
    · exact hne (ListNode.head.inj heq)
    · exact head_notMem_nodes _ hx'
  · rcases List.mem_cons.mp hx' with rfl | hx'
    · exact head_notMem_nodes _ hx
    · obtain ⟨q, hq, rfl⟩ := List.mem_map.mp hx
      obtain ⟨q', hq', heq⟩ := List.mem_map.mp hx'
      obtain ⟨hlive, hfd⟩ := mem_onFd.mp hq
      obtain ⟨hlive', hfd'⟩ := mem_onFd.mp hq'
      rw [h.eq_of_item hlive' hlive (ListNode.member.inj heq)] at hfd'
      exact hne (hfd.symm.trans hfd')

/-- Erasing a serial number from the map removes its request. -/
theorem map_erase (h : st.Holds live timed) {r : Request} (hr : r ∈ live) (sn : UInt32)
    (item : ℕ) : Function.update st.clientInfoMap r.sn none sn = some item ↔
      ∃ q ∈ without r.item live, q.sn = sn ∧ q.item = item := by
  by_cases hsn : sn = r.sn
  · subst hsn
    simp only [Function.update_self, reduceCtorEq, false_iff, not_exists, not_and]
    intro q hq hqsn _
    obtain ⟨hqlive, hqne⟩ := mem_without.mp hq
    exact hqne (congrArg Request.item (h.eq_of_sn hqlive hr hqsn))
  · rw [Function.update_of_ne hsn, h.map]
    constructor
    · rintro ⟨q, hq, hqsn, hqitem⟩
      refine ⟨q, mem_without.mpr ⟨hq, ?_⟩, hqsn, hqitem⟩
      intro heq
      exact hsn (hqsn.symm.trans (congrArg Request.sn (h.eq_of_item hq hr heq)))
    · rintro ⟨q, hq, hqsn, hqitem⟩
      exact ⟨q, (mem_without.mp hq).1, hqsn, hqitem⟩

/-- Unlinking the node of a request removes it from the list of its file descriptor. -/
theorem fdRing_unlink (h : st.Holds live timed) {r : Request} (hr : r ∈ live) {fd : ℤ}
    (hlow : 0 ≤ fd) (hhigh : fd < st.maxOpenFd) :
    IsRing (st.fdLists.unlink (.member r.item)) (.head fd)
      (nodes ℤ (onFd fd (without r.item live))) := by
  have hring := h.fd_ring fd hlow hhigh
  rw [onFd_without, nodes_without]
  by_cases hfd : r.fd.toInt = fd
  · exact hring.unlink_filter (mem_nodes.mpr ⟨r, mem_onFd.mpr ⟨hr, hfd⟩, rfl⟩)
  · obtain ⟨hrlow, hrhigh⟩ := h.fd_range r hr
    have hmem : ListNode.member r.item ∈ nodes ℤ (onFd r.fd.toInt live) :=
      mem_nodes.mpr ⟨r, mem_onFd.mpr ⟨hr, rfl⟩, rfl⟩
    have hdisjoint := h.fdNodes_disjoint (Ne.symm hfd)
    have hself : (nodes ℤ (onFd fd live)).filter (· ≠ .member r.item) =
        nodes ℤ (onFd fd live) := by
      rw [List.filter_eq_self]
      intro x hx
      have hne : x ≠ .member r.item := by
        rintro rfl
        exact hdisjoint (List.mem_cons_of_mem _ hx) (List.mem_cons_of_mem _ hmem)
      simpa using hne
    rw [hself]
    exact hring.unlink_frame (h.fd_ring _ hrlow hrhigh) hdisjoint hmem

/-- The node of a request that is not in the timer list is not in its ring. -/
theorem node_notMem (h : st.Holds live timed) {r : Request} (hr : r ∈ live) (hout : r ∉ timed) :
    ListNode.member r.item ∉ ListNode.head () :: nodes Unit timed := by
  intro hmem
  rcases List.mem_cons.mp hmem with heq | hmem
  · simp at heq
  · obtain ⟨q, hq, heq⟩ := mem_nodes.mp hmem
    rw [h.eq_of_item (h.timed_live.subset hq) hr heq] at hq
    exact hout hq

/-- Unlinking the timer node of a request leaves the timer list of the others. -/
theorem timerRing_unlink (h : st.Holds live timed) {r : Request} (hr : r ∈ live) :
    IsRing (st.netTimer.links.unlink (.member r.item)) (.head ())
      (nodes Unit (without r.item timed)) := by
  by_cases htimed : r ∈ timed
  · rw [nodes_without]
    exact h.timer_ring.unlink_filter (mem_nodes.mpr ⟨r, htimed, rfl⟩)
  · have hself : without r.item timed = timed := by
      unfold without
      rw [List.filter_eq_self]
      intro q hq
      have hne : q.item ≠ r.item := by
        intro heq
        rw [h.eq_of_item (h.timed_live.subset hq) hr heq] at hq
        exact htimed hq
      simpa using hne
    rw [hself, unlink_of_isolated (h.untimed r hr htimed)]
    exact h.timer_ring

/-- Unlinking the timer node of a request leaves the nodes outside the list isolated. -/
theorem untimed_unlink (h : st.Holds live timed) {r q : Request} (hr : r ∈ live)
    (hq : q ∈ live) (hout : q ∉ timed) :
    Isolated (st.netTimer.links.unlink (.member r.item)) (.member q.item) := by
  have hisolated := h.untimed q hq hout
  by_cases htimed : r ∈ timed
  · exact hisolated.unlink h.timer_ring (mem_nodes.mpr ⟨r, htimed, rfl⟩) (h.node_notMem hq hout)
  · rw [unlink_of_isolated (h.untimed r hr htimed)]
    exact hisolated

/-- `DestroyClient` takes one request out of every structure. -/
theorem destroyClient (h : st.Holds live timed) {r : Request} (hr : r ∈ live) :
    (destroyClient st r.sn).Holds (without r.item live) (without r.item timed) := by
  obtain ⟨older, free, hpool⟩ := h.pool
  have hpool' := hpool.perm (perm_without h.item_nodup hr)
  unfold ThriftProxy.destroyClient
  rw [(h.map r.sn r.item).mpr ⟨r, hr, rfl, rfl⟩]
  constructor
  case pool => exact ⟨older, _, hpool'.mempoolFree⟩
  case map => exact h.map_erase hr
  case fd_range => exact fun q hq => h.fd_range q (mem_without.mp hq).1
  case fd_ring => exact fun fd hlow hhigh => h.fdRing_unlink hr hlow hhigh
  case timed_live => exact h.timed_live.filter _
  case timer_ring => exact h.timerRing_unlink hr
  case untimed =>
    intro q hq hout
    obtain ⟨hqlive, hqne⟩ := mem_without.mp hq
    exact h.untimed_unlink hr hqlive fun hqtimed => hout (mem_without.mpr ⟨hqtimed, hqne⟩)
  case event =>
    intro q hq
    obtain ⟨hqtimed, hqne⟩ := mem_without.mp hq
    have hne : (ListNode.member q.item : ListNode Unit) ≠ .member r.item :=
      fun heq => hqne (ListNode.member.inj heq)
    exact (Function.update_of_ne hne _ _).trans (h.event q hqtimed)
  case client =>
    intro q hq
    obtain ⟨hqlive, -⟩ := mem_without.mp hq
    have hword := hpool'.load_mempoolFree (List.mem_map_of_mem hq)
    have hclient := h.client q hqlive
    unfold Store.client at hclient ⊢
    rw [← hclient]
    exact congrArg (clientOf · (st.items q.item)) hword
  case owner =>
    intro q hq
    obtain ⟨hqlive, hqne⟩ := mem_without.mp hq
    exact (Function.update_of_ne hqne _ _).trans (h.owner q hqlive)

/-- The item that is allocated belongs to no live request. -/
theorem notMem_item (h : st.Holds live timed) {malloc : Option ℕ}
    (hfresh : ∀ chunk ∈ malloc, st.pool.Fresh st.words chunk) {pool : Mempool} {words : ℕ → ℕ}
    {ci : ℕ} (halloc : mempoolAlloc malloc st.pool st.words = (pool, words, some ci)) :
    ∀ q ∈ live, q.item ≠ ci := by
  obtain ⟨older, free, hpool⟩ := h.pool
  obtain ⟨⟨older', free', hpool'⟩, -⟩ := hpool.alloc hfresh halloc
  intro q hq heq
  exact hpool'.notMem_of_cons (heq ▸ List.mem_map_of_mem hq)

end Store.Holds

/-! ## Accepting a package -/

/-- The request that a package becomes in an item. -/
def Store.newRequest (st : Store) (ci : ℕ) (fd : Int32) (pkg : List UInt8) (procTime : Timeval)
    (now : ℤ) : Request :=
  let client := clientOfPackage fd pkg procTime (st.items ci)
  { id := st.accepted
    item := ci
    client := { client with
      serSeq := st.serializedNo, callBackFunc := cmdHandler.getHandler client.cliCmd.toNat }
    deadline := now + st.timeoutS }

/-- An item that was entered holds the `ClientInfo` of the new request. -/
theorem Store.client_enter (st : Store) (ci : ℕ) (fd : Int32) (pkg : List UInt8)
    (procTime : Timeval) (now : ℤ) : (st.enter ci fd pkg procTime now).client ci =
      (st.newRequest ci fd pkg procTime now).client := by
  have hword : (st.enter ci fd pkg procTime now).words ci =
      packFirstWord fd (ProtoHeader.decode pkg).seqNum := Function.update_self _ _ _
  have htail : (st.enter ci fd pkg procTime now).items ci =
      (st.newRequest ci fd pkg procTime now).client.toClientTail := Function.update_self _ _ _
  rw [Store.client, hword, htail, clientOf_packFirstWord]
  rfl

namespace Store.Represents

variable {st : Store} {live : List Request}

section

variable {malloc : Option ℕ} {pool : Mempool} {words : ℕ → ℕ} {ci : ℕ} {fd : Int32}
  {pkg : List UInt8} {procTime : Timeval} {now : ℤ}

/-- Entering the next serial number adds the new request to the map. -/
theorem map_enter (h : st.Represents live) (hserial : st.clientInfoMap st.serializedNo = none)
    (sn : UInt32) (item : ℕ) :
    Function.update st.clientInfoMap st.serializedNo (some ci) sn = some item ↔
      ∃ q ∈ live ++ [st.newRequest ci fd pkg procTime now], q.sn = sn ∧ q.item = item := by
  have hnew : (st.newRequest ci fd pkg procTime now).sn = st.serializedNo := rfl
  by_cases hsn : sn = st.serializedNo
  · subst hsn
    rw [Function.update_self, Option.some.injEq]
    constructor
    · rintro rfl
      exact ⟨_, by simp, hnew, rfl⟩
    · rintro ⟨q, hq, hqsn, rfl⟩
      rcases List.mem_append.mp hq with hq | hq
      · have := (h.map q.sn q.item).mpr ⟨q, hq, rfl, rfl⟩
        rw [hqsn, hserial] at this
        simp at this
      · rw [List.mem_singleton.mp hq]
        rfl
  · rw [Function.update_of_ne hsn, h.map]
    constructor
    · rintro ⟨q, hq, hqsn, hqitem⟩
      exact ⟨q, List.mem_append_left _ hq, hqsn, hqitem⟩
    · rintro ⟨q, hq, hqsn, hqitem⟩
      rcases List.mem_append.mp hq with hq | hq
      · exact ⟨q, hq, hqsn, hqitem⟩
      · rw [List.mem_singleton.mp hq, hnew] at hqsn
        exact absurd hqsn.symm hsn

/-- Linking a new node into the list of its file descriptor. -/
theorem fdRing_enter (h : st.Represents live) (hci : ∀ q ∈ live, q.item ≠ ci)
    (hlow : 0 ≤ fd.toInt) (hhigh : fd.toInt < st.maxOpenFd) {fd' : ℤ} (hlow' : 0 ≤ fd')
    (hhigh' : fd' < st.maxOpenFd) :
    IsRing (listAddTail st.fdLists (.member ci) (.head fd.toInt)) (.head fd')
      (nodes ℤ (onFd fd' (live ++ [st.newRequest ci fd pkg procTime now]))) := by
  have hring := h.fd_ring fd' hlow' hhigh'
  have hnew : ListNode.member ci ∉ ListNode.head fd' :: nodes ℤ (onFd fd' live) := by
    intro hmem
    obtain ⟨q, hq, heq⟩ := mem_nodes.mp ((List.mem_cons.mp hmem).resolve_left (by simp))
    exact hci q (mem_onFd.mp hq).1 heq
  unfold listAddTail onFd
  rw [List.filter_append]
  by_cases hfd : fd.toInt = fd'
  · subst hfd
    rw [List.filter_cons_of_pos (by simp [Request.fd, Store.newRequest, clientOfPackage])]
    unfold nodes
    rw [List.map_append]
    exact hring.insertBetween hnew
  · rw [List.filter_cons_of_neg (by simp [Request.fd, Store.newRequest, clientOfPackage, hfd]),
      List.filter_nil, List.append_nil]
    exact hring.insertBetween_frame (h.fd_ring _ hlow hhigh)
      (h.fdNodes_disjoint (Ne.symm hfd)) hnew

/-- Linking a new event into the timer list. -/
theorem timerRing_enter (h : st.Represents live) (hci : ∀ q ∈ live, q.item ≠ ci) :
    IsRing (listAddTail (eventInit st.netTimer (.member ci)).links (.member ci) (.head ()))
      (.head ()) (nodes Unit (live ++ [st.newRequest ci fd pkg procTime now])) := by
  have hnew : ListNode.member ci ∉ ListNode.head () :: nodes Unit live := by
    intro hmem
    obtain ⟨q, hq, heq⟩ := mem_nodes.mp ((List.mem_cons.mp hmem).resolve_left (by simp))
    exact hci q hq heq
  unfold nodes
  rw [List.map_append]
  exact (h.timer_ring.isolate hnew).insertBetween hnew

/-- A package that gets an item becomes the last live request. -/
theorem enter (h : st.Represents live)
    (hfresh : ∀ chunk ∈ malloc, st.pool.Fresh st.words chunk)
    (halloc : mempoolAlloc malloc st.pool st.words = (pool, words, some ci))
    (hserial : st.clientInfoMap st.serializedNo = none)
    (hlow : 0 ≤ fd.toInt) (hhigh : fd.toInt < st.maxOpenFd) :
    (Store.enter { st with pool := pool, words := store words ci 0 } ci fd pkg procTime now).Represents
      (live ++ [st.newRequest ci fd pkg procTime now]) := by
  have hci := Store.Holds.notMem_item h hfresh halloc
  obtain ⟨older, free, hpool⟩ := h.pool
  obtain ⟨⟨older', free', hpool'⟩, hload⟩ := hpool.alloc hfresh halloc
  constructor
  case pool =>
    refine ⟨older', free', ?_⟩
    have hperm : (ci :: live.map Request.item).Perm
        ((live ++ [st.newRequest ci fd pkg procTime now]).map Request.item) := by
      rw [List.map_append]
      exact (List.perm_append_singleton _ _).symm
    exact ((hpool'.store (by simp) _).store (by simp) _).perm hperm
  case map => exact h.map_enter hserial
  case fd_range =>
    intro q hq
    rcases List.mem_append.mp hq with hq | hq
    · exact h.fd_range q hq
    · rw [List.mem_singleton.mp hq]
      exact ⟨hlow, hhigh⟩
  case fd_ring => exact fun fd' hlow' hhigh' => h.fdRing_enter hci hlow hhigh hlow' hhigh'
  case timed_live => exact List.Sublist.refl _
  case timer_ring => exact h.timerRing_enter hci
  case untimed => exact fun q hq hout => absurd hq hout
  case event =>
    intro q hq
    rcases List.mem_append.mp hq with hq | hq
    · have hne : (ListNode.member q.item : ListNode Unit) ≠ .member ci :=
        fun heq => hci q hq (ListNode.member.inj heq)
      exact ((Function.update_of_ne hne _ _).trans (Function.update_of_ne hne _ _)).trans
        (h.event q hq)
    · rw [List.mem_singleton.mp hq]
      exact Function.update_self _ _ _
  case client =>
    intro q hq
    rcases List.mem_append.mp hq with hq | hq
    · have hne := hci q hq
      have hword : load words q.item = load st.words q.item := hload _ (List.mem_map_of_mem hq)
      rw [← h.client q hq]
      show clientOf (Function.update (Function.update words ci 0) ci _ q.item)
        (Function.update st.items ci _ q.item) = clientOf (st.words q.item) (st.items q.item)
      rw [Function.update_of_ne hne, Function.update_of_ne hne, Function.update_of_ne hne]
      exact congrArg (clientOf · (st.items q.item)) hword
    · rw [List.mem_singleton.mp hq]
      exact Store.client_enter _ ci fd pkg procTime now
  case owner =>
    intro q hq
    rcases List.mem_append.mp hq with hq | hq
    · exact (Function.update_of_ne (hci q hq) _ _).trans (h.owner q hq)
    · rw [List.mem_singleton.mp hq]
      exact Function.update_self _ _ _

end

end Store.Represents

end ThriftProxy
