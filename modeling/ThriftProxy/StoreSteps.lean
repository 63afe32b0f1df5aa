import ThriftProxy.LiveRequests

/-!
# The steps of the event loop on live requests

What `ProcPkgCli`, `TimeEvent` and `LinkDownCli` do to the set of live requests.
The two scans take requests off the front of a list that they follow, so each is
proved by induction on the requests that are still in the list.
-/

namespace ThriftProxy

open Machine WordMemory Intrusive

/-- What no step but the acceptance of a package changes. -/
structure Store.SameSettings (st st' : Store) : Prop where
  serializedNo : st'.serializedNo = st.serializedNo
  accepted : st'.accepted = st.accepted
  timeoutS : st'.timeoutS = st.timeoutS
  maxOpenFd : st'.maxOpenFd = st.maxOpenFd

namespace Store.SameSettings

variable {st st' st'' : Store}

/-- Nothing changes in no step. -/
theorem refl (st : Store) : st.SameSettings st := ⟨rfl, rfl, rfl, rfl⟩

/-- Two steps that keep the settings keep them together. -/
theorem trans (h : st.SameSettings st') (h' : st'.SameSettings st'') : st.SameSettings st'' :=
  ⟨h'.1.trans h.1, h'.2.trans h.2, h'.3.trans h.3, h'.4.trans h.4⟩

end Store.SameSettings

/-- `DestroyClient` keeps the settings. -/
theorem sameSettings_destroyClient (st : Store) (sn : UInt32) :
    st.SameSettings (destroyClient st sn) := by
  unfold destroyClient
  split <;> exact ⟨rfl, rfl, rfl, rfl⟩

/-- The requests other than the first one. -/
theorem without_cons {r : Request} {live : List Request}
    (hnodup : ((r :: live).map Request.item).Nodup) : without r.item (r :: live) = live := by
  unfold without
  rw [List.filter_cons_of_neg (by simp), List.filter_eq_self]
  intro q hq
  have hne : q.item ≠ r.item := by
    intro heq
    exact (List.nodup_cons.mp hnodup).1 (heq ▸ List.mem_map_of_mem hq)
  simpa using hne

namespace Store.Holds

variable {st : Store} {live timed : List Request}

/-- Unlinking the timer node of a request takes it out of the timer list only. -/
theorem unlinkTimer (h : st.Holds live timed) {r : Request} (hr : r ∈ timed) :
    Store.Holds (storeTimer.unlink (.member r.item) st) live (without r.item timed) := by
  have hlive := h.timed_live.subset hr
  constructor
  case pool => exact h.pool
  case map => exact h.map
  case fd_range => exact h.fd_range
  case fd_ring => exact h.fd_ring
  case timed_live => exact List.filter_sublist.trans h.timed_live
  case timer_ring => exact h.timerRing_unlink hlive
  case untimed =>
    intro q hq hout
    by_cases heq : q = r
    · subst heq
      exact isolated_unlink _ _
    · apply h.untimed_unlink hlive hq
      intro hqtimed
      exact hout (mem_without.mpr ⟨hqtimed, fun hitem => heq (h.eq_of_item hq hlive hitem)⟩)
  case event => exact fun q hq => h.event q (mem_without.mp hq).1
  case client => exact h.client
  case owner => exact h.owner

/-- The requests other than the first one in the timer list. -/
theorem without_timed_cons {r : Request} (h : st.Holds live (r :: timed)) :
    without r.item (r :: timed) = timed :=
  without_cons ((h.timed_live.map Request.item).nodup h.item_nodup)

end Store.Holds

namespace Store.Represents

variable {st : Store} {live : List Request}

/-- One round of the timer scan takes out the first live request. -/
theorem expire_first {r : Request} (h : st.Represents (r :: live)) :
    (doServerTimeout (storeTimer.unlink (.member r.item) st) r.item).Represents live := by
  have hunlinked := Store.Holds.unlinkTimer h (r := r) (by simp)
  have hdestroyed := hunlinked.destroyClient (r := r) (by simp)
  have hout : without r.item live = live := by
    have hwithout := Store.Holds.without_timed_cons h
    unfold without at hwithout ⊢
    rwa [List.filter_cons_of_neg (by simp)] at hwithout
  rw [Store.Holds.without_timed_cons h, hout] at hdestroyed
  rw [doServerTimeout, hunlinked.serSeq_eq (by simp)]
  exact hdestroyed

/-- The timer scan takes out the expired requests at the front of the timer list. -/
theorem timerCheckLoop (now : ℤ) {rounds : ℕ} (h : st.Represents live)
    (hrounds : live.length < rounds) : ∃ st',
      timerCheckLoop storeTimer (.head ()) now rounds (st.netTimer.links.next (.head ()))
        (st.netTimer.links.next (st.netTimer.links.next (.head ()))) st = some st' ∧
      st'.Represents (live.dropWhile fun r => r.deadline < now) ∧ st.SameSettings st' := by
  induction live generalizing st rounds with
  | nil =>
    obtain ⟨rounds, rfl⟩ := Nat.exists_eq_succ_of_ne_zero (Nat.ne_of_gt hrounds)
    refine ⟨st, ?_, h, .refl st⟩
    have hhead : st.netTimer.links.next (.head ()) = .head () := h.timer_ring.next_head
    rw [hhead]
    exact timerCheckLoop_head
  | cons r live ih =>
    obtain ⟨rounds, rfl⟩ := Nat.exists_eq_succ_of_ne_zero (Nat.ne_of_gt (Nat.zero_lt_of_lt hrounds))
    have hfirst : st.netTimer.links.next (.head ()) = .member r.item := h.timer_ring.next_head
    have hevent : (storeTimer.timer st).event (.member r.item) = r.event := h.event r (by simp)
    rw [hfirst]
    by_cases hpending : now ≤ r.deadline
    · refine ⟨st, timerCheckLoop_pending (by simp) hevent hpending, ?_, .refl st⟩
      rw [List.dropWhile_cons_of_neg (by simpa using hpending)]
      exact h
    · have hexpire := h.expire_first
      let st₁ := doServerTimeout (storeTimer.unlink (.member r.item) st) r.item
      have hnext : st.netTimer.links.next (.member r.item) =
          st₁.netTimer.links.next (.head ()) :=
        h.timer_ring.next_first.trans hexpire.timer_ring.next_head.symm
      have hlength : live.length < rounds := by
        rw [List.length_cons] at hrounds
        omega
      obtain ⟨st', hloop, hst', hsame⟩ := ih hexpire hlength
      have hstep : st.SameSettings (storeTimer.unlink (.member r.item) st) := ⟨rfl, rfl, rfl, rfl⟩
      refine ⟨st', ?_, ?_, (hstep.trans (sameSettings_destroyClient _ _)).trans hsame⟩
      · have hexpired : r.event.expireTime < now := by simpa [Request.event] using hpending
        have hcall : storeTimer.call .doServerTimeout r.item 0
            (storeTimer.unlink (.member r.item) st) = some st₁ := rfl
        rw [timerCheckLoop_expired (by simp) hevent hexpired rfl hcall, hnext]
        exact hloop
      · rw [List.dropWhile_cons_of_pos (by simpa using hpending)]
        exact hst'

/-- `TimeEvent` takes out the expired requests at the front of the timer list. -/
theorem timeEvent (now : ℤ) {rounds : ℕ} (h : st.Represents live)
    (hrounds : live.length < rounds) : ∃ st', ThriftProxy.timeEvent rounds now st = some st' ∧
      st'.Represents (live.dropWhile fun r => r.deadline < now) ∧ st.SameSettings st' :=
  h.timerCheckLoop now hrounds

/-- The scan of `LinkDownCli` takes out the requests of its file descriptor. -/
theorem linkDownLoop {fd : ℤ} (hlow : 0 ≤ fd) (hhigh : fd < st.maxOpenFd) {rounds : ℕ}
    (h : st.Represents live) (hrounds : (onFd fd live).length < rounds) : ∃ st',
      linkDownLoop fd rounds (st.fdLists.next (.head fd))
        (st.fdLists.next (st.fdLists.next (.head fd))) st = some st' ∧
      st'.Represents (live.filter fun r => r.fd.toInt ≠ fd) ∧ st.SameSettings st' := by
  have hring := h.fd_ring fd hlow hhigh
  induction hfront : onFd fd live generalizing st live rounds with
  | nil =>
    rw [hfront] at hring hrounds
    obtain ⟨rounds, rfl⟩ := Nat.exists_eq_succ_of_ne_zero (Nat.ne_of_gt hrounds)
    have hhead : st.fdLists.next (.head fd) = .head fd := hring.next_head
    refine ⟨st, ?_, ?_, .refl st⟩
    · rw [hhead, ThriftProxy.linkDownLoop, if_pos rfl]
    · have hself : (live.filter fun r => r.fd.toInt ≠ fd) = live := by
        rw [List.filter_eq_self]
        intro q hq
        have hne : q.fd.toInt ≠ fd := by
          intro heq
          have hmem : q ∈ onFd fd live := mem_onFd.mpr ⟨hq, heq⟩
          rw [hfront] at hmem
          simp at hmem
        simpa using hne
      rw [hself]
      exact h
  | cons r rest ih =>
    rw [hfront] at hring hrounds
    obtain ⟨rounds, rfl⟩ := Nat.exists_eq_succ_of_ne_zero (Nat.ne_of_gt (Nat.zero_lt_of_lt hrounds))
    obtain ⟨hr, hfd⟩ : r ∈ live ∧ r.fd.toInt = fd := by
      rw [← mem_onFd, hfront]
      simp
    have hfirst : st.fdLists.next (.head fd) = .member r.item := hring.next_head
    let st₁ := destroyClient st (st.items r.item).serSeq
    have hst₁ : st₁.Represents (without r.item live) := by
      have := Store.Holds.destroyClient h hr
      rwa [← Store.Holds.serSeq_eq h hr] at this
    have hsame₁ : st.SameSettings st₁ := sameSettings_destroyClient _ _
    have hrest : onFd fd (without r.item live) = rest := by
      rw [onFd_without, hfront]
      apply without_cons
      rw [← hfront]
      exact (List.filter_sublist.map _).nodup (Store.Holds.item_nodup h)
    have hhigh₁ : fd < st₁.maxOpenFd := hsame₁.maxOpenFd ▸ hhigh
    have hring₁ := hst₁.fd_ring fd hlow hhigh₁
    have hnext : st.fdLists.next (.member r.item) = st₁.fdLists.next (.head fd) := by
      have hnext₁ := hring₁.next_head
      rw [hrest] at hnext₁
      exact hring.next_first.trans hnext₁.symm
    have hlength : (onFd fd (without r.item live)).length < rounds := by
      rw [hrest]
      rw [List.length_cons] at hrounds
      omega
    obtain ⟨st', hloop, hst', hsame⟩ := ih hhigh₁ hst₁ hlength hring₁ hrest
    refine ⟨st', ?_, ?_, hsame₁.trans hsame⟩
    · rw [hfirst, hnext, ThriftProxy.linkDownLoop, if_neg (by simp)]
      exact hloop
    · have hfilter : ((without r.item live).filter fun q => q.fd.toInt ≠ fd) =
          live.filter fun q => q.fd.toInt ≠ fd := by
        unfold without
        rw [List.filter_filter]
        apply List.filter_congr
        intro q hq
        by_cases hqfd : q.fd.toInt = fd
        · simp [hqfd]
        · have hne : q.item ≠ r.item := by
            intro heq
            rw [Store.Holds.eq_of_item h hq hr heq] at hqfd
            exact hqfd hfd
          simp [hqfd, hne]
      rw [hfilter] at hst'
      exact hst'

/-- `LinkDownCli` takes out the requests of its file descriptor. -/
theorem linkDownCli (fd : Int32) {rounds : ℕ} (h : st.Represents live)
    (hrounds : live.length < rounds) : ∃ st', ThriftProxy.linkDownCli rounds fd st = some st' ∧
      st'.Represents (live.filter fun r => r.fd ≠ fd) ∧ st.SameSettings st' := by
  have hfilter : (live.filter fun r => r.fd.toInt ≠ fd.toInt) = live.filter fun r => r.fd ≠ fd := by
    apply List.filter_congr
    intro q _
    simp [Int32.toInt_inj]
  unfold ThriftProxy.linkDownCli
  by_cases hrange : fd.toInt < 0 ∨ st.maxOpenFd ≤ fd.toInt
  · refine ⟨st, if_pos hrange, ?_, .refl st⟩
    have hself : (live.filter fun r => r.fd ≠ fd) = live := by
      rw [List.filter_eq_self]
      intro q hq
      have hq := h.fd_range q hq
      have hne : q.fd ≠ fd := by
        rintro rfl
        omega
      simpa using hne
    rw [hself]
    exact h
  · have hle : (onFd fd.toInt live).length ≤ live.length := List.length_filter_le _ _
    rw [if_neg hrange, ← hfilter]
    exact h.linkDownLoop (by omega) (by omega) (by omega)

end Store.Represents

/-! ## Results do not depend on the bound of a scan -/

section

variable {st st' st'' : Store}

/-- `TimeEvent` ends in one way only. -/
theorem timeEvent_unique {now : ℤ} {rounds rounds' : ℕ} (h : timeEvent rounds now st = some st')
    (h' : timeEvent rounds' now st = some st'') : st' = st'' := by
  unfold timeEvent timerCheckEvent at h h'
  have hmax := timerCheckLoop_mono (le_max_left rounds rounds') h
  rw [timerCheckLoop_mono (le_max_right rounds rounds') h', Option.some.injEq] at hmax
  exact hmax.symm

/-- The scan of `LinkDownCli` that ends within a number of rounds ends the same
way within more. -/
theorem linkDownLoop_mono {fd : ℤ} {rounds more : ℕ} {entry next : ListNode ℤ}
    (hle : rounds ≤ more) (h : linkDownLoop fd rounds entry next st = some st') :
    linkDownLoop fd more entry next st = some st' := by
  induction rounds generalizing more entry next st with
  | zero => simp [linkDownLoop] at h
  | succ rounds ih =>
    obtain ⟨more, rfl⟩ : ∃ k, more = k + 1 := ⟨more - 1, by omega⟩
    unfold linkDownLoop at h ⊢
    split
    · rwa [if_pos ‹_›] at h
    · rw [if_neg ‹_›] at h
      cases entry with
      | head key => simp at h
      | member ci => exact ih (by omega) h

/-- `LinkDownCli` ends in one way only. -/
theorem linkDownCli_unique {fd : Int32} {rounds rounds' : ℕ}
    (h : linkDownCli rounds fd st = some st') (h' : linkDownCli rounds' fd st = some st'') :
    st' = st'' := by
  unfold linkDownCli at h h'
  split at h
  · rw [if_pos ‹_›] at h'
    exact Option.some.inj (h.symm.trans h')
  · rw [if_neg ‹_›] at h'
    have hmax := linkDownLoop_mono (le_max_left rounds rounds') h
    rw [linkDownLoop_mono (le_max_right rounds rounds') h', Option.some.injEq] at hmax
    exact hmax.symm

/-- `TimeEvent` keeps the settings of any store. -/
theorem sameSettings_timeEvent {now : ℤ} {rounds : ℕ} (h : timeEvent rounds now st = some st') :
    st.SameSettings st' := by
  unfold timeEvent timerCheckEvent at h
  refine timerCheckLoop_preserves (P := st.SameSettings) ?_ ?_ (.refl st) h
  · exact fun pos s hs => hs.trans ⟨rfl, rfl, rfl, rfl⟩
  · intro func owner arg s s' hs hcall
    rw [← Option.some.inj hcall]
    exact hs.trans (sameSettings_destroyClient s _)

/-- The scan of `LinkDownCli` keeps the settings of any store. -/
theorem sameSettings_linkDownLoop {fd : ℤ} {rounds : ℕ} {entry next : ListNode ℤ}
    (h : linkDownLoop fd rounds entry next st = some st') : st.SameSettings st' := by
  induction rounds generalizing entry next st with
  | zero => simp [linkDownLoop] at h
  | succ rounds ih =>
    unfold linkDownLoop at h
    split at h
    · rw [← Option.some.inj h]
      exact .refl st
    · cases entry with
      | head key => simp at h
      | member ci => exact (sameSettings_destroyClient _ _).trans (ih h)

/-- `LinkDownCli` keeps the settings of any store. -/
theorem sameSettings_linkDownCli {fd : Int32} {rounds : ℕ}
    (h : linkDownCli rounds fd st = some st') : st.SameSettings st' := by
  unfold linkDownCli at h
  split at h
  · rw [← Option.some.inj h]
    exact .refl st
  · exact sameSettings_linkDownLoop h

end

/-! ## Packages -/

section

variable {st : Store} {live : List Request} {pkg : List UInt8} {malloc : Option ℕ} (fd : Int32)
  (procTime : Timeval) (now : ℤ)

/-- A package that is too long or finds no item leaves the store alone. -/
theorem procPkgCli_refused (h : 8192 < pkg.length ∨ st.pool.Exhausted malloc) :
    (procPkgCli st fd pkg malloc procTime now).store = st ∧
      (procPkgCli st fd pkg malloc procTime now).task = none := by
  unfold procPkgCli
  split
  · exact ⟨rfl, rfl⟩
  · rw [mempoolCalloc, mempoolAlloc_of_exhausted _ (h.resolve_left ‹_›)]
    exact ⟨rfl, rfl⟩

/-- Any other package gets an item, in which it is entered. -/
theorem procPkgCli_accepted (hlen : pkg.length ≤ 8192) (h : ¬ st.pool.Exhausted malloc) :
    ∃ pool words ci, mempoolAlloc malloc st.pool st.words = (pool, words, some ci) ∧
      procPkgCli st fd pkg malloc procTime now =
        { store := Store.enter { st with pool := pool, words := store words ci 0 } ci fd pkg
            procTime now
          accesses := acceptAccesses st fd pkg.length, reply := none, task := some ci } := by
  obtain ⟨pool, words, ci, halloc⟩ := exists_mempoolAlloc st.words h
  refine ⟨pool, words, ci, halloc, ?_⟩
  unfold procPkgCli
  rw [if_neg (by omega), mempoolCalloc, halloc]

/-- An accepted package is counted and uses up a serial number. -/
theorem procPkgCli_counters (hlen : pkg.length ≤ 8192) (h : ¬ st.pool.Exhausted malloc) :
    (procPkgCli st fd pkg malloc procTime now).store.accepted = st.accepted + 1 ∧
      (procPkgCli st fd pkg malloc procTime now).store.serializedNo = st.serializedNo + 1 ∧
      (procPkgCli st fd pkg malloc procTime now).store.timeoutS = st.timeoutS ∧
      (procPkgCli st fd pkg malloc procTime now).store.maxOpenFd = st.maxOpenFd := by
  obtain ⟨pool, words, ci, -, hproc⟩ :=
    procPkgCli_accepted fd procTime now hlen h
  rw [hproc]
  exact ⟨rfl, rfl, rfl, rfl⟩

/-- An accepted package becomes the last live request. -/
theorem Store.Represents.procPkgCli (hst : st.Represents live) (hlen : pkg.length ≤ 8192)
    (hroom : ¬ st.pool.Exhausted malloc) (hfresh : ∀ chunk ∈ malloc, st.pool.Fresh st.words chunk)
    (hserial : st.clientInfoMap st.serializedNo = none)
    (hlow : 0 ≤ fd.toInt) (hhigh : fd.toInt < st.maxOpenFd) :
    ∃ ci, (ThriftProxy.procPkgCli st fd pkg malloc procTime now).task = some ci ∧
      (∀ q ∈ live, q.item ≠ ci) ∧
      (ThriftProxy.procPkgCli st fd pkg malloc procTime now).store.Represents
        (live ++ [st.newRequest ci fd pkg procTime now]) := by
  obtain ⟨pool, words, ci, halloc, hproc⟩ :=
    procPkgCli_accepted fd procTime now hlen hroom
  rw [hproc]
  exact ⟨ci, rfl, hst.notMem_item hfresh halloc,
    hst.enter hfresh halloc hserial hlow hhigh⟩

end

section

variable {st : Store} {fd : Int32} {pkg : List UInt8} {malloc : Option ℕ} {procTime : Timeval}
  {now : ℤ}

/-- The task of an accepted package is the item that holds its `ClientInfo`. -/
theorem client_of_task {ci : ℕ} (h : (procPkgCli st fd pkg malloc procTime now).task = some ci) :
    (procPkgCli st fd pkg malloc procTime now).store.client ci =
      (st.newRequest ci fd pkg procTime now).client := by
  by_cases hrefused : 8192 < pkg.length ∨ st.pool.Exhausted malloc
  · rw [(procPkgCli_refused fd procTime now hrefused).2] at h
    simp at h
  · rw [not_or, not_lt] at hrefused
    obtain ⟨pool, words, item, -, hproc⟩ :=
      procPkgCli_accepted fd procTime now hrefused.1 hrefused.2
    rw [hproc, Option.some.injEq] at h
    subst h
    rw [hproc]
    exact Store.client_enter _ item fd pkg procTime now

/-- A `ClientInfo` that holds the header and the body of a package from a client. -/
structure ClientInfo.Carries (ci : ClientInfo) (fd : Int32) (h : ProtoHeader)
    (body : List UInt8) : Prop where
  fd : ci.cliFd = fd
  seq : ci.cliSeq = h.seqNum
  cmd : ci.cliCmd = h.cmdId
  userid : ci.userid = h.userId
  len : ci.len.toNat = body.length
  buf : ci.buf = Buffer.zeroFilled bufSize body
  func : ci.callBackFunc = cmdHandler.getHandler h.cmdId.toNat

/-- A body that fits is followed by zeros. -/
theorem ClientInfo.Carries.bytes {ci : ClientInfo} {h : ProtoHeader} {body : List UInt8}
    (hci : ci.Carries fd h body) (hfits : body.length ≤ bufSize) :
    ci.buf.bytes = body ++ List.replicate (bufSize - body.length) 0 := by
  rw [hci.buf, Buffer.zeroFilled_bytes hfits]

/-- `ProcPkgCli` leaves an accepted package that holds a header in the `ClientInfo`. -/
theorem carries_of_task {ci : ℕ} (hheader : sizeofProtoHeader ≤ pkg.length)
    (h : (procPkgCli st fd pkg malloc procTime now).task = some ci) :
    ((procPkgCli st fd pkg malloc procTime now).store.client ci).Carries fd
      (ProtoHeader.decode pkg) (pkg.drop sizeofProtoHeader) := by
  have hlen : pkg.length ≤ 8192 := by
    by_contra hlong
    rw [(procPkgCli_refused fd procTime now (Or.inl (not_le.mp hlong))).2] at h
    simp at h
  have hcount : (pkg.drop sizeofProtoHeader).length = pkg.length - sizeofProtoHeader :=
    List.length_drop
  rw [client_of_task h]
  refine ⟨rfl, rfl, rfl, rfl, ?_, rfl, rfl⟩
  show (UInt32.ofNat (sizeSub pkg.length sizeofProtoHeader)).toNat = _
  rw [sizeSub_of_le hheader (by omega), hcount,
    UInt32.toNat_ofNat_of_lt' (by unfold UInt32.size; omega)]

/-- `ProcPkgCli` leaves a header and a body in the `ClientInfo`. -/
theorem carries_procPkgCli {h : ProtoHeader} {body : List UInt8} {ci : ℕ}
    (htask : (procPkgCli st fd (h.encode ++ body) malloc procTime now).task = some ci) :
    ((procPkgCli st fd (h.encode ++ body) malloc procTime now).store.client ci).Carries fd h
      body := by
  have hcarries := carries_of_task (by simp) htask
  have hbody : (h.encode ++ body).drop sizeofProtoHeader = body := by
    rw [List.drop_append_of_le_length (by simp), List.drop_of_length_le (by simp), List.nil_append]
  rwa [ProtoHeader.decode_encode, hbody] at hcarries

end

end ThriftProxy
