import ThriftProxy.StoreSteps
import ThriftProxy.Lib.Transition

/-!
# The store refines the set of live requests

The event loop as a transition system on the store, and its specification: the
list of live requests, which each step extends or filters. Serial numbers do not
repeat before `2 ^ 32` packages, and the timer list is sorted because the clock
does not run backwards.
-/

namespace ThriftProxy

open Machine Transition Intrusive

/-! ## The event loop -/

/-- A step of the event loop, with what the system supplies: the block returned by
`malloc`, if it is called, and the clock readings. -/
inductive StoreOp
  | procPkgCli (fd : Int32) (pkg : List UInt8) (malloc : Option ℕ) (procTime : Timeval) (now : ℤ)
  | timeEvent (now : ℤ)
  | linkDownCli (fd : Int32)

/-- The step from one store to the next. Behind a package whose outcome `Faults` it does not
say what is in memory. -/
def StoreStep (st : Store) : StoreOp → Store → Prop
  | .procPkgCli fd pkg malloc procTime now, st' =>
    st' = (procPkgCli st fd pkg malloc procTime now).store
  | .timeEvent now, st' => ∃ rounds, timeEvent rounds now st = some st'
  | .linkDownCli fd, st' => ∃ rounds, linkDownCli rounds fd st = some st'

namespace StoreOp

/-- The reading of `time(NULL)` that a step makes. -/
def clock : StoreOp → Option ℤ
  | procPkgCli _ _ _ _ now => some now
  | timeEvent now => some now
  | linkDownCli _ => none

/-- Packages have a header and a body that fits, and arrive on valid file descriptors. -/
def WellFormed (maxOpenFd : ℤ) : StoreOp → Prop
  | procPkgCli fd pkg _ _ _ =>
    sizeofProtoHeader ≤ pkg.length ∧ pkg.length ≤ sizeofProtoHeader + bufSize ∧
      0 ≤ fd.toInt ∧ fd.toInt < maxOpenFd
  | _ => True

/-- A block that `malloc` returns is not in use. -/
def MallocFresh (st : Store) : StoreOp → Prop
  | procPkgCli _ _ malloc _ _ => ∀ chunk ∈ malloc, st.pool.Fresh st.words chunk
  | _ => True

end StoreOp

/-! ## The specification -/

/-- What a step does to the live requests: a package adds one request unless the
pool is exhausted, a lost client takes its requests with it, and the timer takes
those whose deadline has passed. -/
def LiveStep (st : Store) : StoreOp → List Request → List Request → Prop
  | .procPkgCli fd pkg malloc procTime now, live, live' =>
    if st.pool.Exhausted malloc then live' = live
    else ∃ ci, live' = live ++ [st.newRequest ci fd pkg procTime now] ∧
      (∀ q ∈ live, q.item ≠ ci) ∧ ∀ q ∈ live, q.sn ≠ st.serializedNo
  | .timeEvent now, live, live' => live' = live.filter fun r => now ≤ r.deadline
  | .linkDownCli fd, live, live' => live' = live.filter fun r => r.fd ≠ fd

/-- In a list that is sorted by deadline, the expired requests are in front. -/
theorem dropWhile_eq_filter {live : List Request} (now : ℤ)
    (h : live.Pairwise fun q r => q.deadline ≤ r.deadline) :
    (live.dropWhile fun r => r.deadline < now) = live.filter fun r => now ≤ r.deadline := by
  induction live with
  | nil => rfl
  | cons r live ih =>
    obtain ⟨hr, hlive⟩ := List.pairwise_cons.mp h
    by_cases hexpired : r.deadline < now
    · rw [List.dropWhile_cons_of_pos (by simpa using hexpired),
        List.filter_cons_of_neg (by simpa using hexpired)]
      exact ih hlive
    · have hpending : now ≤ r.deadline := by omega
      rw [List.dropWhile_cons_of_neg (by simpa using hexpired), eq_comm, List.filter_eq_self]
      intro q hq
      rcases List.mem_cons.mp hq with rfl | hq
      · simpa using hpending
      · simpa using le_trans hpending (hr q hq)

/-! ## Starting up -/

/-- Every list head of the array is isolated after `InitFdList`. -/
theorem isRing_initFdList (l : Links (ListNode ℤ)) {count i : ℕ} (h : i < count) :
    IsRing (initFdList l count) (.head i) [] := by
  unfold initFdList
  induction count with
  | zero => omega
  | succ count ih =>
    rw [List.range_succ, List.foldl_append]
    by_cases hi : i = count
    · subst hi
      exact isRing_isolate _ _
    · refine (ih (by omega)).isolate ?_
      simp only [List.mem_singleton, ListNode.head.injEq]
      omega

/-- `Proxy::Init` leaves a store without live requests. -/
theorem represents_init (memory : Store) (maxOpenFd timeoutS : ℤ) (sizeofClientInfo : ℕ)
    {pagesize chunk : ℕ} (hpage : 0 < pagesize) (hne : chunk ≠ 0)
    (hle : chunk + mempoolAllocSize pagesize (mempoolItemSize sizeofClientInfo) (pagesize * 4096)
      ≤ 2 ^ 64) :
    (Store.init memory maxOpenFd timeoutS sizeofClientInfo pagesize chunk).Represents [] := by
  constructor
  case pool =>
    exact
      ⟨[], [], holds_mempoolCreate sizeofClientInfo (pagesize * 4096) memory.words hpage hne hle⟩
  case map => simp [Store.init]
  case fd_range => simp
  case fd_ring =>
    intro fd hlow hhigh
    obtain ⟨i, rfl⟩ := Int.eq_ofNat_of_zero_le hlow
    apply isRing_initFdList
    have : (i : ℤ) < maxOpenFd := hhigh
    omega
  case timed_live => exact List.Sublist.refl _
  case timer_ring => exact isRing_isolate _ _
  case untimed => simp
  case event => simp
  case client => simp
  case owner => simp

/-! ## The simulation -/

/-- No step takes back the acceptance of a package. -/
theorem StoreStep.accepted_le {st st' : Store} {op : StoreOp} (h : StoreStep st op st') :
    st.accepted ≤ st'.accepted := by
  cases op with
  | procPkgCli fd pkg malloc procTime now =>
    rw [h]
    by_cases hrefused : 8192 < pkg.length ∨ st.pool.Exhausted malloc
    · rw [(procPkgCli_refused fd procTime now hrefused).1]
    · rw [not_or, not_lt] at hrefused
      rw [(procPkgCli_counters fd procTime now hrefused.1 hrefused.2).1]
      exact Nat.le_succ _
  | timeEvent now =>
    obtain ⟨rounds, h⟩ := h
    exact (sameSettings_timeEvent h).accepted.ge
  | linkDownCli fd =>
    obtain ⟨rounds, h⟩ := h
    exact (sameSettings_linkDownCli h).accepted.ge

/-- No run takes back the acceptance of a package. -/
theorem accepted_le_of_run {st st' : Store} {ops : List StoreOp} (h : Run StoreStep st ops st') :
    st.accepted ≤ st'.accepted := by
  induction h with
  | nil => exact le_refl _
  | cons hstep _ ih => exact hstep.accepted_le.trans ih

/-- The store stands for the live requests, and will do so for the operations to come. -/
structure Tracks (ops : List StoreOp) (st : Store) (live : List Request) : Prop where
  represents : st.Represents live
  wellFormed : ∀ op ∈ ops, op.WellFormed st.maxOpenFd
  clock_sorted : (ops.filterMap StoreOp.clock).Pairwise (· ≤ ·)
  fresh : Along StoreStep StoreOp.MallocFresh st ops
  /-- Every live request was accepted. -/
  length_le : live.length ≤ st.accepted
  /-- Serial numbers count the packages accepted. -/
  serial : st.serializedNo = UInt32.ofNat st.accepted
  sn_id : ∀ r ∈ live, r.sn = UInt32.ofNat r.id ∧ r.id < st.accepted
  sorted : live.Pairwise fun q r => q.deadline ≤ r.deadline
  /-- No deadline is later than that of a package which is still to come. -/
  deadline_le : ∀ c ∈ ops.filterMap StoreOp.clock, ∀ r ∈ live, r.deadline ≤ c + st.timeoutS

namespace Tracks

variable {op : StoreOp} {ops : List StoreOp} {st st' : Store} {live live' : List Request}

/-- The clock readings behind the first operation. -/
theorem clock_tail : (ops.filterMap StoreOp.clock).Sublist
    ((op :: ops).filterMap StoreOp.clock) :=
  (List.sublist_cons_self op ops).filterMap _

/-- A step that only removes requests keeps track of the others. -/
theorem remove (h : Tracks (op :: ops) st live) (hstep : StoreStep st op st')
    (hsame : st.SameSettings st') (hlive : live'.Sublist live) (hst' : st'.Represents live') :
    Tracks ops st' live' where
  represents := hst'
  wellFormed := fun op' hop => hsame.maxOpenFd ▸ h.wellFormed op' (by simp [hop])
  clock_sorted := h.clock_sorted.sublist clock_tail
  fresh := (along_cons.mp h.fresh st' hstep).2
  length_le := by
    rw [hsame.accepted]
    exact hlive.length_le.trans h.length_le
  serial := by rw [hsame.serializedNo, hsame.accepted, h.serial]
  sn_id := by
    intro r hr
    rw [hsame.accepted]
    exact h.sn_id r (hlive.subset hr)
  sorted := h.sorted.sublist hlive
  deadline_le := by
    intro c hc r hr
    rw [hsame.timeoutS]
    exact h.deadline_le c (clock_tail.subset hc) r (hlive.subset hr)

/-- The next serial number belongs to no live request. -/
theorem sn_ne (h : Tracks ops st live) (hbound : st.accepted < 2 ^ 31) :
    ∀ q ∈ live, q.sn ≠ st.serializedNo := by
  intro q hq heq
  obtain ⟨hsn, hid⟩ := h.sn_id q hq
  rw [hsn, h.serial] at heq
  have hnat := congrArg UInt32.toNat heq
  rw [UInt32.toNat_ofNat_of_lt' (by unfold UInt32.size; omega),
    UInt32.toNat_ofNat_of_lt' (by unfold UInt32.size; omega)] at hnat
  omega

/-- The map has no entry for the next serial number. -/
theorem serial_free (h : Tracks ops st live) (hbound : st.accepted < 2 ^ 31) :
    st.clientInfoMap st.serializedNo = none := by
  by_contra hsome
  obtain ⟨item, hitem⟩ := Option.ne_none_iff_exists'.mp hsome
  obtain ⟨q, hq, hsn, -⟩ := (h.represents.map _ _).mp hitem
  exact h.sn_ne hbound q hq hsn

/-- A package adds one request, unless the pool is exhausted. -/
theorem procPkgCli {fd : Int32} {pkg : List UInt8} {malloc : Option ℕ} {procTime : Timeval}
    {now : ℤ} (h : Tracks (.procPkgCli fd pkg malloc procTime now :: ops) st live)
    (hstep : StoreStep st (.procPkgCli fd pkg malloc procTime now) st')
    (hbound : st'.accepted < 2 ^ 31) :
    ∃ live', LiveStep st (.procPkgCli fd pkg malloc procTime now) live live' ∧
      Tracks ops st' live' := by
  by_cases hroom : st.pool.Exhausted malloc
  · have hst : st' = st := hstep.trans (procPkgCli_refused fd procTime now (Or.inr hroom)).1
    refine ⟨live, by rw [LiveStep, if_pos hroom], ?_⟩
    exact h.remove hstep (hst ▸ .refl st) (List.Sublist.refl _) (hst ▸ h.represents)
  · obtain ⟨hshort, hlong, hlow, hhigh⟩ := h.wellFormed _ (List.mem_cons_self)
    have haccepted := hstep.accepted_le
    have hserial := h.serial_free (by omega)
    have hsn := h.sn_ne (by omega)
    have hlen : pkg.length ≤ 8192 := by
      unfold sizeofProtoHeader bufSize at hlong
      omega
    obtain ⟨hfresh, htail⟩ := along_cons.mp h.fresh st' hstep
    obtain ⟨ci, -, hitem, hst'⟩ := h.represents.procPkgCli fd procTime now
      hlen hroom hfresh hserial hlow hhigh
    obtain ⟨hcount, hnext, htimeout, hmax⟩ :=
      procPkgCli_counters fd procTime now hlen hroom
    rw [← hstep] at hst' hcount hnext htimeout hmax
    refine ⟨live ++ [st.newRequest ci fd pkg procTime now], ?_, ?_⟩
    · rw [LiveStep, if_neg hroom]
      exact ⟨ci, rfl, hitem, hsn⟩
    · have hdeadline : ∀ q ∈ live, q.deadline ≤ now + st.timeoutS :=
        h.deadline_le now (by simp [StoreOp.clock])
      exact
        { represents := hst'
          wellFormed := fun op' hop => hmax ▸ h.wellFormed op' (by simp [hop])
          clock_sorted := h.clock_sorted.sublist clock_tail
          fresh := htail
          length_le := by
            have := h.length_le
            rw [hcount, List.length_append, List.length_singleton]
            omega
          serial := by rw [hnext, hcount, h.serial, UInt32.ofNat_add]; rfl
          sn_id := by
            intro r hr
            rw [hcount]
            rcases List.mem_append.mp hr with hr | hr
            · obtain ⟨hsn, hid⟩ := h.sn_id r hr
              exact ⟨hsn, by omega⟩
            · rw [List.mem_singleton.mp hr]
              exact ⟨h.serial, Nat.lt_succ_self _⟩
          sorted := by
            rw [List.pairwise_append]
            refine ⟨h.sorted, List.pairwise_singleton _ _, ?_⟩
            intro q hq r hr
            rw [List.mem_singleton.mp hr]
            exact hdeadline q hq
          deadline_le := by
            intro c hc r hr
            rw [htimeout]
            rcases List.mem_append.mp hr with hr | hr
            · exact h.deadline_le c (clock_tail.subset hc) r hr
            · have hclock := h.clock_sorted
              simp only [List.filterMap_cons, StoreOp.clock] at hclock
              have hle := (List.pairwise_cons.mp hclock).1 c hc
              rw [List.mem_singleton.mp hr]
              show now + st.timeoutS ≤ c + st.timeoutS
              omega }

/-- Every step is matched by the specification. -/
theorem step (h : Tracks (op :: ops) st live) (hstep : StoreStep st op st')
    (hbound : st'.accepted < 2 ^ 31) :
    ∃ live', LiveStep st op live live' ∧ Tracks ops st' live' := by
  cases op with
  | procPkgCli fd pkg malloc procTime now => exact h.procPkgCli hstep hbound
  | timeEvent now =>
    obtain ⟨rounds, htime⟩ := hstep
    obtain ⟨st₁, hst₁, hrep, hsame⟩ := h.represents.timeEvent now (Nat.lt_succ_self live.length)
    obtain rfl := timeEvent_unique htime hst₁
    rw [dropWhile_eq_filter now h.sorted] at hrep
    exact ⟨_, rfl, h.remove ⟨rounds, htime⟩ hsame List.filter_sublist hrep⟩
  | linkDownCli fd =>
    obtain ⟨rounds, hdown⟩ := hstep
    obtain ⟨st₁, hst₁, hrep, hsame⟩ := h.represents.linkDownCli fd (Nat.lt_succ_self live.length)
    obtain rfl := linkDownCli_unique hdown hst₁
    exact ⟨_, rfl, h.remove ⟨rounds, hdown⟩ hsame List.filter_sublist hrep⟩

end Tracks

/-- Every step of the event loop ends when the store stands for some requests. -/
theorem StoreStep.exists_of_represents {st : Store} {live : List Request}
    (h : st.Represents live) (op : StoreOp) : ∃ st', StoreStep st op st' := by
  cases op with
  | procPkgCli fd pkg malloc procTime now => exact ⟨_, rfl⟩
  | timeEvent now =>
    obtain ⟨st', hst', -⟩ := h.timeEvent now (Nat.lt_succ_self live.length)
    exact ⟨st', _, hst'⟩
  | linkDownCli fd =>
    obtain ⟨st', hst', -⟩ := h.linkDownCli fd (Nat.lt_succ_self live.length)
    exact ⟨st', _, hst'⟩

/-- What the four structures of the store say about the live requests. -/
structure Store.Describes (st : Store) (live : List Request) : Prop where
  /-- The map, the lists, the timer and the pool hold these requests and no others. -/
  represents : st.Represents live
  /-- No two requests share a pool item. -/
  item_nodup : (live.map Request.item).Nodup
  /-- No two requests share a serial number. -/
  sn_nodup : (live.map Request.sn).Nodup
  /-- The pool counts them. -/
  refCount : st.pool.refCount = live.length

/-- **Refinement.** In every run of the event loop from `Proxy::Init`, the store
describes one set of live requests, which each step changes as specified, and
the next step always ends. -/
theorem store_refines_live {memory : Store} {maxOpenFd timeoutS : ℤ}
    {sizeofClientInfo pagesize chunk : ℕ} (hpage : 0 < pagesize) (hne : chunk ≠ 0)
    (hle : chunk + mempoolAllocSize pagesize (mempoolItemSize sizeofClientInfo) (pagesize * 4096)
      ≤ 2 ^ 64)
    {ops : List StoreOp} {st : Store}
    (hops : ∀ op ∈ ops, op.WellFormed maxOpenFd)
    (hclock : (ops.filterMap StoreOp.clock).Pairwise (· ≤ ·))
    (hmalloc : Along StoreStep StoreOp.MallocFresh
      (Store.init memory maxOpenFd timeoutS sizeofClientInfo pagesize chunk) ops)
    (hrun : Run StoreStep (Store.init memory maxOpenFd timeoutS sizeofClientInfo pagesize chunk)
      ops st)
    (hcount : st.accepted < 2 ^ 31) :
    ∃ live, Run (Paired StoreStep LiveStep)
        (Store.init memory maxOpenFd timeoutS sizeofClientInfo pagesize chunk, []) ops (st, live) ∧
      st.Describes live ∧ ∀ op, ∃ st', StoreStep st op st' := by
  have hinit : Tracks ops
      (Store.init memory maxOpenFd timeoutS sizeofClientInfo pagesize chunk) [] :=
    { represents := represents_init memory maxOpenFd timeoutS sizeofClientInfo hpage hne hle
      wellFormed := hops
      clock_sorted := hclock
      fresh := hmalloc
      length_le := Nat.zero_le _
      serial := rfl
      sn_id := by simp
      sorted := List.Pairwise.nil
      deadline_le := by simp }
  have hmatch : ∀ op ops s t s', Tracks (op :: ops) s t → StoreStep s op s' →
      Run StoreStep s' ops st → ∃ t', LiveStep s op t t' ∧ Tracks ops s' t' :=
    fun op ops s t s' h hstep hrest =>
      h.step hstep (lt_of_le_of_lt (accepted_le_of_run hrest) hcount)
  obtain ⟨live, hpaired, htracks⟩ := hrun.paired hmatch hinit
  refine ⟨live, hpaired, ?_, StoreStep.exists_of_represents htracks.represents⟩
  obtain ⟨older, free, hpool⟩ := htracks.represents.pool
  have hlength := htracks.length_le
  refine ⟨htracks.represents, htracks.represents.item_nodup, ?_, ?_⟩
  · refine List.Nodup.map_on ?_ (List.Nodup.of_map _ htracks.represents.item_nodup)
    exact fun q hq r hr heq => htracks.represents.eq_of_sn hq hr heq
  · rw [hpool.count, List.length_map]
    exact wrapInt_eq_self (by omega) (by omega)

/-- Memory full of zeros. -/
def zeroMemory : Store :=
  { words := fun _ => 0
    items := fun _ =>
      { cliCmd := 0, userid := 0, serSeq := 0, len := 0, procTime := ⟨0, 0⟩,
        buf := Buffer.zeroFilled bufSize [], callBackFunc := .defaultProtoHandler }
    fdLists := { next := fun n => n, prev := fun n => n }
    netTimer := { links := { next := fun n => n, prev := fun n => n }, event := fun _ => .cleared }
    clientInfoMap := fun _ => none
    serializedNo := 0
    pool :=
      { itemSize := 0, allocSize := 0, totalAllocItem := 0, reusePtr := 0, allocPtr := 0,
        allocPoolPos := 0, refCount := 0 }
    timeoutS := 0
    maxOpenFd := 0
    accepted := 0
    owner := fun _ => none }

/-- The store that `Proxy::Init` sets up in it, for sixteen file descriptors and two seconds. -/
def freshStore : Store := Store.init zeroMemory 16 2 4248 4096 4096

/-- A package without a body on file descriptor 7. -/
def emptyPackage : List UInt8 :=
  ProtoHeader.encode { pkgLen := 18, seqNum := 1, cmdId := 1, statusCode := 0, userId := 100 }

/-- Two requests come. The first times out, and the client of the second goes. -/
theorem store_refines_live_freshStore : ∃ st live,
    Run (Paired StoreStep LiveStep) (freshStore, [])
      [.procPkgCli 7 emptyPackage none ⟨100, 0⟩ 100, .procPkgCli 9 emptyPackage none ⟨101, 0⟩ 101,
        .timeEvent 103, .linkDownCli 9] (st, live) ∧
    st.Describes live ∧ ∀ op, ∃ st', StoreStep st op st' := by
  refine ⟨_, @store_refines_live zeroMemory 16 2 4248 4096 4096 (by decide) (by decide)
    (by decide) _ _ ?_ ?_ ?_
    (Run.cons rfl (Run.cons rfl (Run.cons ⟨2, rfl⟩ (Run.cons ⟨2, rfl⟩ (Run.nil _))))) ?_⟩
  · simp [StoreOp.WellFormed]
    decide
  · decide
  · simp [along_cons, StoreOp.MallocFresh]
  · decide

end ThriftProxy
