import ThriftProxy.Lib.Lifetimes
import ThriftProxy.Refinement

/-!
# Clocks that are set back

Deadlines come from `time(NULL)`, which may be set back between two packages. The timer
list is then no longer sorted, and `timer_check_event` stops at the first request that
has not expired. No request ends early for that, and none lasts longer than the clock
has ever been set back.
-/

namespace ThriftProxy

open Transition

/-- A package becomes a request. -/
def Store.Accepts (st : Store) (op : StoreOp) (r : Request) : Prop :=
  match op with
  | .procPkgCli fd pkg malloc procTime now =>
    ∃ ci, (procPkgCli st fd pkg malloc procTime now).task = some ci ∧
      r = st.newRequest ci fd pkg procTime now
  | _ => False

namespace StoreOp

/-- A request may end here: its client goes, or the timer looks and its deadline has
passed. -/
def MayEnd : StoreOp → Request → Prop
  | procPkgCli .., _ => False
  | timeEvent now, r => r.deadline < now
  | linkDownCli fd, r => r.fd = fd

/-- A request ends here at the latest, when the clock has been set back by at most `skew`. -/
def MustEnd (skew : ℤ) : StoreOp → Request → Prop
  | procPkgCli .., _ => False
  | timeEvent now, r => r.deadline + skew < now
  | linkDownCli fd, r => r.fd = fd

end StoreOp

/-- Without the expired requests in front, those that are left have not expired for long. -/
theorem deadline_of_mem_dropWhile {live : List Request} {skew now : ℤ} (hskew : 0 ≤ skew)
    (h : live.Pairwise fun q r => q.deadline ≤ r.deadline + skew) {r : Request}
    (hr : r ∈ live.dropWhile fun q => q.deadline < now) : now ≤ r.deadline + skew := by
  induction live with
  | nil => cases hr
  | cons q live ih =>
    obtain ⟨hq, hlive⟩ := List.pairwise_cons.mp h
    by_cases hexpired : q.deadline < now
    · rw [List.dropWhile_cons_of_pos (by simpa using hexpired)] at hr
      exact ih hlive hr
    · rw [List.dropWhile_cons_of_neg (by simpa using hexpired)] at hr
      rcases List.mem_cons.mp hr with rfl | hr
      · omega
      · have hle := hq r hr
        omega

/-- A request that has not expired is not among those dropped. -/
theorem mem_dropWhile_of_deadline {live : List Request} {now : ℤ} {r : Request} (hr : r ∈ live)
    (hpending : now ≤ r.deadline) : r ∈ live.dropWhile fun q => q.deadline < now := by
  rw [← List.takeWhile_append_dropWhile (p := fun q => q.deadline < now) (l := live)] at hr
  rcases List.mem_append.mp hr with hfront | hback
  · have hexpired := List.mem_takeWhile_imp hfront
    simp only [decide_eq_true_eq] at hexpired
    omega
  · exact hback

/-- The step from one store to the next is determined. -/
theorem StoreStep.unique {st st' st'' : Store} {op : StoreOp} (h : StoreStep st op st')
    (h' : StoreStep st op st'') : st'' = st' := by
  cases op with
  | procPkgCli fd pkg malloc procTime now => exact h'.trans h.symm
  | timeEvent now =>
    obtain ⟨rounds, h⟩ := h
    obtain ⟨rounds', h'⟩ := h'
    exact timeEvent_unique h' h
  | linkDownCli fd =>
    obtain ⟨rounds, h⟩ := h
    obtain ⟨rounds', h'⟩ := h'
    exact linkDownCli_unique h' h

/-! ## What holds throughout -/

/-- The store stands for the live requests, with a clock that is never set back by more
than `skew`. -/
structure Lasts (skew : ℤ) (ops : List StoreOp) (st : Store) (live : List Request) : Prop where
  represents : st.Represents live
  wellFormed : ∀ op ∈ ops, op.WellFormed st.maxOpenFd
  clocks : (ops.filterMap StoreOp.clock).Pairwise fun c c' => c ≤ c' + skew
  fresh : Along StoreStep StoreOp.MallocFresh st ops
  serial : st.serializedNo = UInt32.ofNat st.accepted
  sn_id : ∀ r ∈ live, r.sn = UInt32.ofNat r.id ∧ r.id < st.accepted
  nearly_sorted : live.Pairwise fun q r => q.deadline ≤ r.deadline + skew
  /-- No deadline is much later than that of a package which is still to come. -/
  deadline_le : ∀ c ∈ ops.filterMap StoreOp.clock, ∀ r ∈ live,
    r.deadline ≤ c + st.timeoutS + skew

namespace Lasts

variable {skew : ℤ} {op : StoreOp} {ops : List StoreOp} {st st' : Store}
  {live live' : List Request}

/-- A step that only removes requests. -/
theorem remove (h : Lasts skew (op :: ops) st live) (hstep : StoreStep st op st')
    (hsame : st.SameSettings st') (hlive : live'.Sublist live) (hst' : st'.Represents live') :
    Lasts skew ops st' live' where
  represents := hst'
  wellFormed := fun op' hop => hsame.maxOpenFd ▸ h.wellFormed op' (by simp [hop])
  clocks := h.clocks.sublist Tracks.clock_tail
  fresh := (along_cons.mp h.fresh st' hstep).2
  serial := by rw [hsame.serializedNo, hsame.accepted, h.serial]
  sn_id := by
    intro r hr
    rw [hsame.accepted]
    exact h.sn_id r (hlive.subset hr)
  nearly_sorted := h.nearly_sorted.sublist hlive
  deadline_le := by
    intro c hc r hr
    rw [hsame.timeoutS]
    exact h.deadline_le c (Tracks.clock_tail.subset hc) r (hlive.subset hr)

/-- The map has no entry for the next serial number. -/
theorem serial_free (h : Lasts skew ops st live) (hbound : st.accepted < 2 ^ 31) :
    st.clientInfoMap st.serializedNo = none := by
  by_contra hsome
  obtain ⟨item, hitem⟩ := Option.ne_none_iff_exists'.mp hsome
  obtain ⟨q, hq, heq, -⟩ := (h.represents.map _ _).mp hitem
  obtain ⟨hsn, hid⟩ := h.sn_id q hq
  rw [hsn, h.serial] at heq
  have hnat := congrArg UInt32.toNat heq
  rw [UInt32.toNat_ofNat_of_lt' (by unfold UInt32.size; omega),
    UInt32.toNat_ofNat_of_lt' (by unfold UInt32.size; omega)] at hnat
  omega

/-- A package adds the request that it becomes, and no other. -/
theorem procPkgCli {fd : Int32} {pkg : List UInt8} {malloc : Option ℕ} {procTime : Timeval}
    {now : ℤ} (h : Lasts skew (.procPkgCli fd pkg malloc procTime now :: ops) st live)
    (hstep : StoreStep st (.procPkgCli fd pkg malloc procTime now) st')
    (hbound : st'.accepted < 2 ^ 31) :
    ∃ live', Turnover Store.Accepts (StoreOp.MustEnd skew) StoreOp.MayEnd
        (fun live r => r ∈ live) st (.procPkgCli fd pkg malloc procTime now) live live' ∧
      Lasts skew ops st' live' := by
  by_cases hroom : st.pool.Exhausted malloc
  · have hrefused : 8192 < pkg.length ∨ st.pool.Exhausted malloc := .inr hroom
    obtain ⟨hsame, hnone⟩ := procPkgCli_refused fd procTime now hrefused
    obtain rfl : st' = st := hstep.trans hsame
    refine ⟨live, ⟨fun r hr => .inr ⟨hr, id⟩, ?_, fun r hr _ => hr⟩,
      h.remove hstep (.refl st') (List.Sublist.refl _) h.represents⟩
    rintro r ⟨ci, htask, -⟩
    rw [hnone] at htask
    cases htask
  · obtain ⟨hshort, hlong, hlow, hhigh⟩ := h.wellFormed _ List.mem_cons_self
    have haccepted := hstep.accepted_le
    have hserial := h.serial_free (by omega)
    have hlen : pkg.length ≤ 8192 := by
      unfold sizeofProtoHeader bufSize at hlong
      omega
    obtain ⟨hfresh, htail⟩ := along_cons.mp h.fresh st' hstep
    obtain ⟨ci, htask, -, hst'⟩ := h.represents.procPkgCli fd procTime now
      hlen hroom hfresh hserial hlow hhigh
    obtain ⟨hcount, hnext, htimeout, hmax⟩ :=
      procPkgCli_counters fd procTime now hlen hroom
    rw [← hstep] at hst' hcount hnext htimeout hmax
    refine ⟨live ++ [st.newRequest ci fd pkg procTime now], ⟨?_, ?_, ?_⟩, ?_⟩
    · intro r hr
      rcases List.mem_append.mp hr with hr | hr
      · exact .inr ⟨hr, id⟩
      · exact .inl ⟨ci, htask, List.mem_singleton.mp hr⟩
    · rintro r ⟨ci', htask', rfl⟩
      obtain rfl := Option.some.inj (htask'.symm.trans htask)
      exact List.mem_append_right _ (List.mem_singleton_self _)
    · intro r hr _
      exact List.mem_append_left _ hr
    · exact
        { represents := hst'
          wellFormed := fun op' hop => hmax ▸ h.wellFormed op' (by simp [hop])
          clocks := h.clocks.sublist Tracks.clock_tail
          fresh := htail
          serial := by rw [hnext, hcount, h.serial, UInt32.ofNat_add]; rfl
          sn_id := by
            intro r hr
            rw [hcount]
            rcases List.mem_append.mp hr with hr | hr
            · obtain ⟨hsn, hid⟩ := h.sn_id r hr
              exact ⟨hsn, by omega⟩
            · rw [List.mem_singleton.mp hr]
              exact ⟨h.serial, Nat.lt_succ_self _⟩
          nearly_sorted := by
            rw [List.pairwise_append]
            refine ⟨h.nearly_sorted, List.pairwise_singleton _ _, ?_⟩
            intro q hq r hr
            rw [List.mem_singleton.mp hr]
            exact h.deadline_le now (by simp [StoreOp.clock]) q hq
          deadline_le := by
            intro c hc r hr
            rw [htimeout]
            rcases List.mem_append.mp hr with hr | hr
            · exact h.deadline_le c (Tracks.clock_tail.subset hc) r hr
            · have hclock := h.clocks
              simp only [List.filterMap_cons, StoreOp.clock] at hclock
              have hle := (List.pairwise_cons.mp hclock).1 c hc
              rw [List.mem_singleton.mp hr]
              show now + st.timeoutS ≤ c + st.timeoutS + skew
              omega }

/-- Every step turns the live requests over. -/
theorem step (hskew : 0 ≤ skew) (h : Lasts skew (op :: ops) st live) (hstep : StoreStep st op st')
    (hbound : st'.accepted < 2 ^ 31) :
    ∃ live', Turnover Store.Accepts (StoreOp.MustEnd skew) StoreOp.MayEnd
        (fun live r => r ∈ live) st op live live' ∧ Lasts skew ops st' live' := by
  cases op with
  | procPkgCli fd pkg malloc procTime now => exact h.procPkgCli hstep hbound
  | timeEvent now =>
    obtain ⟨rounds, htime⟩ := hstep
    obtain ⟨st₁, hst₁, hrep, hsame⟩ := h.represents.timeEvent now (Nat.lt_succ_self live.length)
    obtain rfl := timeEvent_unique htime hst₁
    refine ⟨_, ⟨?_, fun _ hadds => hadds.elim, ?_⟩,
      h.remove ⟨rounds, htime⟩ hsame (List.dropWhile_sublist _) hrep⟩
    · intro r hr
      refine .inr ⟨(List.dropWhile_sublist _).subset hr, ?_⟩
      exact not_lt.mpr (deadline_of_mem_dropWhile hskew h.nearly_sorted hr)
    · intro r hr hpending
      exact mem_dropWhile_of_deadline hr (not_lt.mp hpending)
  | linkDownCli fd =>
    obtain ⟨rounds, hdown⟩ := hstep
    obtain ⟨st₁, hst₁, hrep, hsame⟩ := h.represents.linkDownCli fd (Nat.lt_succ_self live.length)
    obtain rfl := linkDownCli_unique hdown hst₁
    refine ⟨_, ⟨?_, fun _ hadds => hadds.elim, ?_⟩,
      h.remove ⟨rounds, hdown⟩ hsame List.filter_sublist hrep⟩
    · intro r hr
      obtain ⟨hlive, hfd⟩ := List.mem_filter.mp hr
      exact .inr ⟨hlive, by simpa [StoreOp.MustEnd] using hfd⟩
    · intro r hr hfd
      exact List.mem_filter.mpr ⟨hr, by simpa [StoreOp.MayEnd] using hfd⟩

end Lasts

/-- **Lifetimes.** In every run of the event loop from `Proxy::Init` whose packages fit, which
accepts fewer than `2 ^ 31` of them and whose clock is never set back by more than `skew`
seconds, the store stands for requests that follow from the run alone: each was accepted,
its client has stayed, and the timer has not looked more than `skew` seconds behind its
deadline. And each request that was accepted, whose client has stayed and at whose deadline
the timer has not looked since, is among them. -/
theorem request_lifetimes {memory : Store} {maxOpenFd timeoutS : ℤ}
    {sizeofClientInfo pagesize chunk : ℕ} (hpage : 0 < pagesize) (hne : chunk ≠ 0)
    (hle : chunk + mempoolAllocSize pagesize (mempoolItemSize sizeofClientInfo) (pagesize * 4096)
      ≤ 2 ^ 64)
    {skew : ℤ} (hskew : 0 ≤ skew) {ops : List StoreOp} {st : Store}
    (hops : ∀ op ∈ ops, op.WellFormed maxOpenFd)
    (hclock : (ops.filterMap StoreOp.clock).Pairwise fun c c' => c ≤ c' + skew)
    (hmalloc : Along StoreStep StoreOp.MallocFresh
      (Store.init memory maxOpenFd timeoutS sizeofClientInfo pagesize chunk) ops)
    (hrun : Run StoreStep (Store.init memory maxOpenFd timeoutS sizeofClientInfo pagesize chunk)
      ops st)
    (hcount : st.accepted < 2 ^ 31) :
    ∃ live, st.Represents live ∧
      Lifetimes StoreStep Store.Accepts (StoreOp.MustEnd skew) StoreOp.MayEnd
        (fun live r => r ∈ live)
        (Store.init memory maxOpenFd timeoutS sizeofClientInfo pagesize chunk) ops [] live := by
  have hinit : Lasts skew ops
      (Store.init memory maxOpenFd timeoutS sizeofClientInfo pagesize chunk) [] :=
    { represents := represents_init memory maxOpenFd timeoutS sizeofClientInfo hpage hne hle
      wellFormed := hops
      clocks := hclock
      fresh := hmalloc
      serial := rfl
      sn_id := by simp
      nearly_sorted := List.Pairwise.nil
      deadline_le := by simp }
  have hmatch : ∀ op ops s t s', Lasts skew (op :: ops) s t → StoreStep s op s' →
      Run StoreStep s' ops st → ∃ t', Turnover Store.Accepts (StoreOp.MustEnd skew)
        StoreOp.MayEnd (fun live r => r ∈ live) s op t t' ∧ Lasts skew ops s' t' :=
    fun op ops s t s' h hstep hrest =>
      h.step hskew hstep (lt_of_le_of_lt (accepted_le_of_run hrest) hcount)
  obtain ⟨live, hlife, hlasts⟩ :=
    hrun.lifetimes (fun _ _ _ _ h h' => h.unique h') hmatch hinit
  exact ⟨live, hlasts.represents, hlife⟩

/-- The clock is set back by a minute between two packages, and the second request
outlasts its deadline. -/
theorem request_lifetimes_freshStore : ∃ (st : Store) (live : List Request), st.Represents live ∧
    Lifetimes StoreStep Store.Accepts (StoreOp.MustEnd 60) StoreOp.MayEnd
      (fun live r => r ∈ live) freshStore
      [.procPkgCli 7 emptyPackage none ⟨100, 0⟩ 100, .procPkgCli 8 emptyPackage none ⟨40, 0⟩ 40,
        .timeEvent 50] [] live := by
  refine ⟨_, @request_lifetimes zeroMemory 16 2 4248 4096 4096 (by decide) (by decide)
    (by decide) 60 (by decide) _ _ ?_ ?_ ?_ (Run.cons rfl (Run.cons rfl (Run.cons ⟨3, rfl⟩
      (Run.nil _)))) ?_⟩
  · simp [StoreOp.WellFormed]
    decide
  · decide
  · simp [along_cons, StoreOp.MallocFresh]
  · decide

end ThriftProxy
