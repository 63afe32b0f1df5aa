import ThriftProxy.MempoolSafety
import ThriftProxy.Ownership

/-!
# Taking the proxy down

`Proxy::Uninit` destroys the memory pool first and then walks the timer, whose nodes lie
in the items of the pool, while workers may still read other items. The reference count
of the pool makes this order harmless: the pool is left alone as long as a request is in
the store, and a request that a worker may still read is in the store.
-/

namespace ThriftProxy

open Intrusive Machine WordMemory Effect Program Transition

/-! ## The timer -/

section

variable {ν κ : Type} [DecidableEq ν]

/-- The loop of `timer_uninit` from `pos` and `next` on, with the nodes it reads or
writes, for a bounded number of rounds. -/
def timerUninitLoop (timer : ν) : ℕ → ν → ν → Timer ν κ → Option (Timer ν κ × List ν)
  | 0, _, _, _ => none
  | rounds + 1, pos, next, t =>
    if pos = timer then some (t, [])
    else
      let touched := [pos, t.links.prev pos, t.links.next pos, next]
      let t := timerDelEvent t pos
      (timerUninitLoop timer rounds next (t.links.next next) t).map fun r =>
        (r.1, touched ++ r.2)

/-- `timer_uninit`. -/
def timerUninit (rounds : ℕ) (t : Timer ν κ) (timer : ν) : Option (Timer ν κ × List ν) :=
  let pos := t.links.next timer
  (timerUninitLoop timer rounds pos (t.links.next pos) t).map fun r =>
    (timerInit r.1 timer, timer :: pos :: r.2)

variable {t : Timer ν κ} {timer : ν} {members : List ν} {rounds : ℕ}

/-- A round takes the first event off the timer. -/
theorem timerUninitLoop_next {pos next : ν} (hpos : pos ≠ timer) :
    timerUninitLoop timer (rounds + 1) pos next t =
      (timerUninitLoop timer rounds next ((timerDelEvent t pos).links.next next)
        (timerDelEvent t pos)).map fun r =>
          (r.1, [pos, t.links.prev pos, t.links.next pos, next] ++ r.2) := by
  rw [timerUninitLoop, if_neg hpos]

/-- The loop deletes all events and stays among the nodes of the list. -/
theorem timerUninitLoop_eq (h : IsRing t.links timer members) (hrounds : members.length < rounds) :
    ∃ touched, touched ⊆ timer :: members ∧
      timerUninitLoop timer rounds (t.links.next timer) (t.links.next (t.links.next timer)) t =
        some (members.foldl timerDelEvent t, touched) := by
  induction members generalizing t rounds with
  | nil =>
    obtain ⟨rounds, rfl⟩ := Nat.exists_eq_succ_of_ne_zero (Nat.ne_of_gt hrounds)
    have hhead : t.links.next timer = timer := h.next_head
    refine ⟨[], List.nil_subset _, ?_⟩
    rw [hhead, timerUninitLoop, if_pos rfl, List.foldl_nil]
  | cons pos members ih =>
    obtain ⟨rounds, rfl⟩ := Nat.exists_eq_succ_of_ne_zero (Nat.ne_of_gt (Nat.zero_lt_of_lt hrounds))
    have hfirst : t.links.next timer = pos := h.next_head
    have hpos : pos ≠ timer := h.ne_head List.mem_cons_self
    have hmem : pos ∈ timer :: pos :: members := List.mem_cons_of_mem _ List.mem_cons_self
    have hsplit : IsRing t.links timer ([] ++ pos :: members) := h
    have hring : IsRing (timerDelEvent t pos).links timer members := hsplit.unlink
    have hnext : t.links.next pos = (timerDelEvent t pos).links.next timer :=
      h.next_first.trans hring.next_head.symm
    obtain ⟨touched, hsub, hloop⟩ := ih hring (Nat.lt_of_succ_lt_succ hrounds)
    refine ⟨[pos, t.links.prev pos, t.links.next pos, t.links.next pos] ++ touched, ?_, ?_⟩
    · intro n hn
      rcases List.mem_append.mp hn with hn | hn
      · simp only [List.mem_cons, List.not_mem_nil, or_false, or_self] at hn
        rcases hn with rfl | rfl | rfl
        · exact hmem
        · exact h.prev_mem hmem
        · exact h.next_mem hmem
      · rcases List.mem_cons.mp (hsub hn) with rfl | hn
        · exact List.mem_cons_self
        · exact List.mem_cons_of_mem _ (List.mem_cons_of_mem _ hn)
    · rw [hfirst, timerUninitLoop_next hpos, hnext, hloop]
      rfl

/-- Deleting events unlinks their nodes. -/
theorem links_foldl_timerDelEvent (t : Timer ν κ) (events : List ν) :
    (events.foldl timerDelEvent t).links = events.foldl Links.unlink t.links := by
  induction events generalizing t with
  | nil => rfl
  | cons n events ih => exact ih _

/-- Deleting events clears them and no others. -/
theorem event_foldl_timerDelEvent (t : Timer ν κ) (events : List ν) (n : ν) :
    (events.foldl timerDelEvent t).event n = if n ∈ events then .cleared else t.event n := by
  induction events generalizing t with
  | nil => rfl
  | cons n' events ih =>
    rw [List.foldl_cons, ih]
    by_cases hmem : n ∈ events
    · rw [if_pos hmem, if_pos (List.mem_cons_of_mem _ hmem)]
    · rw [if_neg hmem]
      simp only [timerDelEvent, Function.update_apply, List.mem_cons, hmem, or_false]

/-- `INIT_LIST_HEAD` does nothing to an empty list. -/
theorem timerInit_of_isolated (h : Isolated t.links timer) : timerInit t timer = t := by
  obtain ⟨hnext, hprev⟩ := h
  have hlinks : t.links.isolate timer = t.links :=
    Links.ext (Function.update_eq_self_iff.mpr hnext.symm)
      (Function.update_eq_self_iff.mpr hprev.symm)
  rw [timerInit, initListHead, hlinks]

/-- `timer_uninit` ends, stays among the nodes of the list and leaves no event pending. -/
theorem timerUninit_spec (h : IsRing t.links timer members) (hrounds : members.length < rounds) :
    ∃ t' touched, timerUninit rounds t timer = some (t', touched) ∧ touched ⊆ timer :: members ∧
      Isolated t'.links timer ∧ (∀ n ∈ members, Isolated t'.links n ∧ t'.event n = .cleared) ∧
      ∀ n ∉ members, t'.event n = t.event n := by
  obtain ⟨touched, hsub, hloop⟩ := timerUninitLoop_eq h hrounds
  have hfirst : t.links.next timer ∈ timer :: members := h.next_mem List.mem_cons_self
  have hall : ∀ n ∈ members, n ∈ members ∨ Isolated t.links n := fun n hn => .inl hn
  obtain ⟨hring, hisolated⟩ := h.foldl_unlink hall
  rw [← links_foldl_timerDelEvent] at hring hisolated
  have hempty : members.filter (· ∉ members) = [] := by simp
  rw [hempty] at hring hisolated
  have hhead : Isolated (members.foldl timerDelEvent t).links timer := isRing_nil_iff.mp hring
  refine ⟨members.foldl timerDelEvent t, timer :: t.links.next timer :: touched, ?_, ?_, hhead,
    ?_, ?_⟩
  · rw [timerUninit, hloop]
    simp only [Option.map_some, timerInit_of_isolated hhead]
  · exact List.cons_subset.mpr ⟨List.mem_cons_self, List.cons_subset.mpr ⟨hfirst, hsub⟩⟩
  · intro n hn
    refine ⟨(hisolated n (.inl hn)).resolve_left List.not_mem_nil, ?_⟩
    exact (event_foldl_timerDelEvent t members n).trans (if_pos hn)
  · exact fun n hn => (event_foldl_timerDelEvent t members n).trans (if_neg hn)

end

/-! ## The proxy -/

/-- What `Proxy::Uninit` leaves behind, when the threads are about to be stopped. -/
structure UninitOutcome where
  /-- The timer without events. -/
  netTimer : Timer (ListNode Unit) TimeoutCallback
  /-- The chunks of the pool that have been freed. -/
  freed : List ℕ
  /-- The nodes that `timer_uninit` has read or written. -/
  touched : List (ListNode Unit)

/-- `Proxy::Uninit` up to the call of `ThreadPool::stop`. -/
def Store.uninit (rounds : ℕ) (st : Store) : Option UninitOutcome := do
  let freed ← mempoolDestroy rounds st.pool st.words
  let (netTimer, touched) ← timerUninit rounds st.netTimer (.head ())
  return { netTimer := netTimer, freed := freed, touched := touched }

/-- With requests in the store, the pool is left alone. -/
theorem Store.Represents.mempoolDestroy {st : Store} {live : List Request}
    (h : st.Represents live) (hcount : live.length < 2 ^ 31) :
    ∃ freed, (∃ least, ∀ rounds ≥ least,
        ThriftProxy.mempoolDestroy rounds st.pool st.words = some freed) ∧
      (live ≠ [] → freed = []) ∧
      (live = [] → Chain st.words st.pool.allocPtr freed ∧ freed.Nodup) := by
  obtain ⟨older, free, hpool⟩ := h.pool
  have href : st.pool.refCount = live.length := by
    rw [hpool.count, List.length_map]
    exact wrapInt_eq_self (by omega) (by omega)
  by_cases hlive : live = []
  · subst hlive
    refine ⟨st.pool.allocPtr :: older, ⟨older.length + 2, fun rounds hrounds => ?_⟩,
      fun h => absurd rfl h, fun _ => ⟨hpool.chunk_chain, hpool.chunks_nodup⟩⟩
    rw [ThriftProxy.mempoolDestroy, if_pos (by simp [href])]
    refine freeChunks_eq hpool.chunk_chain ?_
    rw [List.length_cons]
    omega
  · have hpos : 0 < live.length := List.length_pos_iff.mpr hlive
    refine ⟨[], ⟨0, fun rounds _ => ?_⟩, fun _ => rfl, fun h => absurd h hlive⟩
    rw [ThriftProxy.mempoolDestroy, if_neg (by omega)]

namespace System

variable {s s' : System}

/-- No more requests are in the store than have been accepted. -/
def Counted (s : System) : Prop :=
  ∃ live, s.store.Represents live ∧ live.length ≤ s.store.accepted

/-- A step of the event loop that meets the condition adds the accepted request only. -/
theorem Counted.loop (h : s.Counted) {op : StoreOp} {st' : Store} (hfresh : op.MallocFresh s.store)
    (hstep : StoreStep s.store op st') (hop : SparesReaders s (.loop op)) :
    ∃ live, st'.Represents live ∧ live.length ≤ st'.accepted := by
  obtain ⟨live, hlive, hcount⟩ := h
  cases op with
  | procPkgCli fd pkg malloc procTime now =>
    obtain rfl : st' = _ := hstep
    by_cases hrefused : 8192 < pkg.length ∨ s.store.pool.Exhausted malloc
    · rw [(procPkgCli_refused fd procTime now hrefused).1]
      exact ⟨live, hlive, hcount⟩
    · obtain ⟨⟨-, -, hlow, hhigh⟩, -, hserial⟩ := hop.resolve_left hrefused
      rw [not_or, not_lt] at hrefused
      obtain ⟨ci, -, -, hrep⟩ := hlive.procPkgCli fd procTime now hrefused.1 hrefused.2 hfresh
        hserial hlow hhigh
      refine ⟨_, hrep, ?_⟩
      rw [(procPkgCli_counters fd procTime now hrefused.1 hrefused.2).1, List.length_append]
      exact Nat.add_le_add_right hcount 1
  | timeEvent now =>
    obtain ⟨rounds, htime⟩ := hstep
    obtain ⟨st₁, hst₁, hrep, hsame⟩ := hlive.timeEvent now (Nat.lt_succ_self live.length)
    obtain rfl := timeEvent_unique htime hst₁
    refine ⟨_, hrep, ?_⟩
    rw [hsame.accepted]
    exact (List.dropWhile_suffix _).length_le.trans hcount
  | linkDownCli fd =>
    obtain ⟨rounds, hdown⟩ := hstep
    obtain ⟨st₁, hst₁, hrep, hsame⟩ := hlive.linkDownCli fd (Nat.lt_succ_self live.length)
    obtain rfl := linkDownCli_unique hdown hst₁
    refine ⟨_, hrep, ?_⟩
    rw [hsame.accepted]
    exact (List.length_filter_le _ _).trans hcount

/-- Workers add and take out nothing. -/
theorem Counted.step (h : s.Counted) {op : SystemOp} (hop : SparesReaders s op)
    (hstep : SystemStep s op s') : s'.Counted := by
  cases hstep with
  | @loop op st' idle fresh step =>
    have hst' := h.loop fresh step hop
    have hstore : (s.afterLoop st' op).store = st' := by
      obtain hafter | ⟨fd, -, hafter⟩ | ⟨fd, pkg, malloc, procTime, now, item, -, -, hafter⟩ :=
        s.afterLoop_cases st' op <;> rw [hafter]
    rw [Counted, hstore]
    exact hst'
  | _ => exact h

/-- What `Proxy::Uninit` may have done. -/
structure TakenDown (s : System) (out : UninitOutcome) : Prop where
  /-- No event is pending. -/
  no_event : Isolated out.netTimer.links (.head ())
  /-- Only the timer and items in use have been touched. -/
  touched : ∀ item, .member item ∈ out.touched → (s.store.owner item).isSome
  /-- When memory has been freed, each chunk of the pool has been freed once, no item
  has been touched, and no worker reads an item any more. -/
  freed : out.freed ≠ [] → Chain s.store.words s.store.pool.allocPtr out.freed ∧
    out.freed.Nodup ∧ (∀ item, .member item ∉ out.touched) ∧ ∀ r, ¬ s.MayRead r

/-- Two lists of the requests in one store have one length. -/
theorem length_eq_of_represents {st : Store} {live live' : List Request}
    (h : st.Represents live) (h' : st.Represents live') : live.length = live'.length := by
  have hnodes := congrArg List.length (h.timer_ring.unique h'.timer_ring)
  simpa [nodes] using hnodes

/-- `Proxy::Uninit` on the requests in the store. -/
theorem Owned.takenDown (h : s.Owned) (hcounted : s.Counted) (hcount : s.store.accepted < 2 ^ 31) :
    ∃ out, (∃ rounds, s.store.uninit rounds = some out) ∧ s.TakenDown out := by
  obtain ⟨live, hlive, hmem⟩ := h.live
  obtain ⟨live', hlive', hle⟩ := hcounted
  have hlength : live.length < 2 ^ 31 := by
    rw [length_eq_of_represents hlive hlive']
    omega
  obtain ⟨freed, ⟨least, hdestroy⟩, hkept, hall⟩ := hlive.mempoolDestroy hlength
  have hrounds : (nodes Unit live).length < max least (live.length + 1) := by
    rw [nodes, List.length_map]
    omega
  obtain ⟨netTimer, touched, htimer, hsub, hidle, -, -⟩ :=
    timerUninit_spec (t := s.store.netTimer) hlive.timer_ring hrounds
  have htouched : ∀ item, ListNode.member item ∈ touched → ∃ r ∈ live, r.item = item := by
    intro item hitem
    exact mem_nodes.mp ((List.mem_cons.mp (hsub hitem)).resolve_left (by simp))
  refine ⟨⟨netTimer, freed, touched⟩, ⟨max least (live.length + 1), ?_⟩, hidle, ?_, ?_⟩
  · rw [Store.uninit, hdestroy _ (le_max_left _ _), htimer]
    rfl
  · intro item hitem
    obtain ⟨r, hr, rfl⟩ := htouched item hitem
    rw [hlive.owner r hr]
    rfl
  · intro hfreed
    have hempty : live = [] := by
      by_contra hne
      exact hfreed (hkept hne)
    obtain ⟨hchain, hnodup⟩ := hall hempty
    refine ⟨hchain, hnodup, fun item hitem => ?_, fun r hr => ?_⟩
    · obtain ⟨r, hr, -⟩ := htouched item hitem
      simp [hempty] at hr
    · have hr := hmem r hr
      simp [hempty] at hr

end System

/-- **Taking the proxy down frees nothing that is still used.** In every run from
`Proxy::Init` in which every package that is accepted fits, with a text that ends in the
buffer and a free serial number, and in which no request is taken out that may still be
read, `Proxy::Uninit` comes to the call of `ThreadPool::stop` with no event pending. Until
then it touches no item that is not in use, and it frees the pool, each chunk once, only
when no item has been touched and no worker may read one. Whether `stop` returns is
another matter. -/
theorem uninit_spares_readers {memory : Store} {maxOpenFd timeoutS : ℤ}
    {sizeofClientInfo pagesize chunk : ℕ} (hpage : 0 < pagesize) (hne : chunk ≠ 0)
    (hle : chunk + mempoolAllocSize pagesize (mempoolItemSize sizeofClientInfo) (pagesize * 4096)
      ≤ 2 ^ 64)
    {ops : List SystemOp} {s : System}
    (hrun : Run (Guarded SparesReaders SystemStep)
      (System.start (Store.init memory maxOpenFd timeoutS sizeofClientInfo pagesize chunk)) ops s)
    (hcount : s.store.accepted < 2 ^ 31) :
    ∃ out, (∃ rounds, s.store.uninit rounds = some out) ∧ s.TakenDown out := by
  have hstart :
      (Store.init memory maxOpenFd timeoutS sizeofClientInfo pagesize chunk).Represents [] :=
    represents_init memory maxOpenFd timeoutS sizeofClientInfo hpage hne hle
  have howned : s.Owned := hrun.invariant (fun _ _ _ h hstep => h.step hstep.1 hstep.2)
    (System.owned_start hstart)
  have hcounted : s.Counted := hrun.invariant (fun _ _ _ h hstep => h.step hstep.1 hstep.2)
    ⟨[], hstart, Nat.zero_le _⟩
  exact howned.takenDown hcounted hcount

/-- A request that a worker has taken keeps the pool. -/
theorem uninit_spares_readers_taken :
    ∃ out, (∃ rounds, taken.store.uninit rounds = some out) ∧ taken.TakenDown out :=
  uninit_spares_readers (by decide) (by decide) (by decide)
    (run_taken sparesReaders_firstPackage (fun _ => trivial) fun _ => trivial) (by decide)

end ThriftProxy
