import ThriftProxy.WorkerOps

/-!
# Requests in the hands of workers

A task is the address of an item in the memory pool, and the event loop returns
items to the pool without asking whether a worker still needs them. As long as
the event loop only takes out requests whose tasks have nothing left to read,
every read gets the request that was queued, and so every reply and every record
belongs to one package.
-/

namespace ThriftProxy

open Machine Effect Program Transition

/-! ## What the history promises -/

/-- The record that is stored for a package. -/
def recordOfPackage (pkg : List UInt8) (flag : Int32) : ReqCheckResult :=
  let buf := (Buffer.zeroFilled bufSize (pkg.drop sizeofProtoHeader)).bytes
  storeRequest (cstr (buf.drop contentOffset)) (readU32 0 buf).toInt32
    (ProtoHeader.decode pkg).userId.toInt32 flag (UInt8.ofNat (decodeLE (field 20 1 buf)))
    (readU32 21 buf) (readU32 25 buf) (readU32 29 buf) (cstr (buf.drop 4))

/-- Workers read, answer and store the requests that were queued for them. -/
structure OwnedByTasks (log : List Entry) : Prop where
  /-- An item that is read is allocated to the request it was queued for. -/
  reads : ∀ r owner f v, Entry.performed r owner ⟨.read f, v⟩ ∈ log → owner = some r.id
  /-- A reply goes to the client of its request and names the request. -/
  replies : ∀ r owner target bytes len a,
    Entry.performed r owner ⟨.netSendCli target bytes len, a⟩ ∈ log →
      ∃ fd pkg, Entry.accepted r fd pkg ∈ log ∧ target = fd ∧
        (ProtoHeader.decode bytes).seqNum = (ProtoHeader.decode pkg).seqNum ∧
        (ProtoHeader.decode bytes).cmdId = (ProtoHeader.decode pkg).cmdId ∧
        (ProtoHeader.decode bytes).userId = (ProtoHeader.decode pkg).userId
  /-- A record is made from the package of its request. -/
  records : ∀ r owner conn req a, Entry.performed r owner ⟨.storeMessage conn req, a⟩ ∈ log →
    ∃ fd pkg flag, Entry.accepted r fd pkg ∈ log ∧ req = recordOfPackage pkg flag
  /-- No request is answered twice. -/
  answered_once : ∀ id, (eventsOf id log).countP (fun e => e.op.isSend) ≤ 1

/-! ## The condition -/

/-- The text of a package ends inside the buffer of the `ClientInfo`, if it is
one that the moderation handler gets. -/
def TextEndsInBuffer (pkg : List UInt8) : Prop :=
  (ProtoHeader.decode pkg).cmdId = writeMessageCmdId →
    (0 : UInt8) ∈ (Buffer.zeroFilled bufSize (pkg.drop sizeofProtoHeader)).bytes.drop contentOffset

/-- The task for a request is waiting, or with a worker that may still read its item. -/
def System.MayRead (s : System) (r : Request) : Prop :=
  r ∈ s.waiting ∨ ∃ w j, s.workers w = some j ∧ j.request = r ∧
    ¬ j.rest.Avoids (S := HandlerSig) HandlerOp.isRead

/-- The event loop takes out no request that a worker may still read: no deadline
passes and no link goes down before. A package is refused or fits in memory, and
its serial number is free. -/
def SparesReaders (s : System) : SystemOp → Prop
  | .loop (.procPkgCli fd pkg malloc procTime now) =>
    (8192 < pkg.length ∨ s.store.pool.Exhausted malloc) ∨
      StoreOp.WellFormed s.store.maxOpenFd (.procPkgCli fd pkg malloc procTime now) ∧
        TextEndsInBuffer pkg ∧ s.store.clientInfoMap s.store.serializedNo = none
  | .loop (.timeEvent now) => ∀ r, s.MayRead r → now ≤ r.deadline
  | .loop (.linkDownCli fd) => ∀ r, s.MayRead r → r.fd ≠ fd
  | _ => True

/-! ## The invariant -/

/-- The items of all requests that may still be read are in the store, and all
reads so far have got what was queued. -/
structure System.Owned (s : System) : Prop where
  coherent : s.Coherent
  live : ∃ live, s.store.Represents live ∧ ∀ r, s.MayRead r → r ∈ live
  performed : ∀ r owner e, Entry.performed r owner e ∈ s.log →
    ReadFrom r.client e ∧ ∀ f v, e = ⟨.read f, v⟩ → owner = some r.id
  accepted : ∀ r fd pkg, Entry.accepted r fd pkg ∈ s.log →
    sizeofProtoHeader ≤ pkg.length ∧ r.client.TextEnds

/-- A package whose text ends in the buffer leaves such a `ClientInfo`. -/
theorem ClientInfo.Carries.textEnds {ci : ClientInfo} {fd : Int32} {pkg : List UInt8}
    (hci : ci.Carries fd (ProtoHeader.decode pkg) (pkg.drop sizeofProtoHeader))
    (hends : TextEndsInBuffer pkg) : ci.TextEnds := by
  intro hfunc
  rw [hci.func, getHandler_cmdHandler] at hfunc
  rw [ClientInfo.textArea, hci.buf]
  apply hends
  by_contra hcmd
  rw [if_neg hcmd] at hfunc
  simp at hfunc

/-- The record of a `ClientInfo` is that of its package. -/
theorem ClientInfo.Carries.recordOf_eq {ci : ClientInfo} {fd : Int32} {pkg : List UInt8}
    (hci : ci.Carries fd (ProtoHeader.decode pkg) (pkg.drop sizeofProtoHeader)) (flag : Int32) :
    recordOf ci [] flag = recordOfPackage pkg flag := by
  rw [recordOf, recordOfPackage, ClientInfo.text, ClientInfo.nick, ClientInfo.gameid,
    ClientInfo.type, hci.userid, hci.buf, List.append_nil]

namespace System

variable {s s' : System}

/-- The operations recorded for a request are made from its `ClientInfo`. -/
theorem Owned.concerns (h : s.Owned) {r : Request} {owner : Option ℕ} {e : Event HandlerSig}
    (he : Entry.performed r owner e ∈ s.log) : e.op.Concerns r.client := by
  obtain ⟨fd, pkg, haccepted⟩ := h.coherent.performed_accepted r owner e he
  obtain ⟨rest, hrun⟩ := h.coherent.history r.id
  have hok : ∀ e' ∈ eventsOf r.id s.log, ReadFrom r.client e' := by
    intro e' he'
    obtain ⟨q, owner', hq, hid⟩ := mem_eventsOf.mp he'
    obtain ⟨fd', pkg', hqaccepted⟩ := h.coherent.performed_accepted q owner' e' hq
    obtain ⟨rfl, -, -⟩ :=
      h.coherent.accepted_unique q fd' pkg' r fd pkg hqaccepted haccepted hid
    exact (h.performed q owner' e' hq).1
  have hends := (h.accepted r fd pkg haccepted).2
  exact (hrun.always hok (runClientInfo_concerns hends)).1 e
    (mem_eventsOf.mpr ⟨r, owner, he, rfl⟩)

/-- What the invariant says about the history. -/
theorem Owned.ownedByTasks (h : s.Owned) : OwnedByTasks s.log where
  reads := fun r owner f v he => (h.performed r owner _ he).2 f v rfl
  replies := by
    intro r owner target bytes len a he
    obtain ⟨fd, pkg, haccepted⟩ := h.coherent.performed_accepted r owner _ he
    have hcarries :=
      (h.coherent.accepted_client r fd pkg haccepted).2 (h.accepted r fd pkg haccepted).1
    obtain ⟨hfd, hseq, hcmd, huser⟩ := h.concerns he
    exact ⟨fd, pkg, haccepted, hfd.trans hcarries.fd, hseq.trans hcarries.seq,
      hcmd.trans hcarries.cmd, huser.trans hcarries.userid⟩
  records := by
    intro r owner conn req a he
    obtain ⟨fd, pkg, haccepted⟩ := h.coherent.performed_accepted r owner _ he
    have hcarries :=
      (h.coherent.accepted_client r fd pkg haccepted).2 (h.accepted r fd pkg haccepted).1
    obtain ⟨flag, hreq⟩ := h.concerns he
    exact ⟨fd, pkg, flag, haccepted, hreq.trans (hcarries.recordOf_eq flag)⟩
  answered_once := by
    intro id
    obtain ⟨rest, hrun⟩ := h.coherent.history id
    exact (hrun.atMost runClientInfo_atMost).1

/-- No request may be read before the first has been accepted. -/
theorem owned_start {st : Store} (h : st.Represents []) : (System.start st).Owned where
  coherent := coherent_start st
  live := ⟨[], h, by simp [MayRead, start, waiting]⟩
  performed := by simp [start]
  accepted := by simp [start]

namespace Owned

/-- A step that leaves the store and the history alone keeps the invariant when
nothing more may be read. -/
theorem of_mayRead (h : s.Owned) (hcoherent : s'.Coherent) (hstore : s'.store = s.store)
    (hlog : s'.log = s.log) (hread : ∀ r, s'.MayRead r → s.MayRead r) : s'.Owned where
  coherent := hcoherent
  live := by
    obtain ⟨live, hlive, hmem⟩ := h.live
    exact ⟨live, hstore ▸ hlive, fun r hr => hmem r (hread r hr)⟩
  performed := hlog ▸ h.performed
  accepted := hlog ▸ h.accepted

/-- Taking a task gives no new right to read. -/
theorem take (h : s.Owned) {w : ℕ} {r : Request} {queue : List Request}
    (hfront : s.queue = r :: queue) : Owned { s with
      queue := queue
      workers := Function.update s.workers w (some ⟨r, runClientInfo⟩) } := by
  refine h.of_mayRead (h.coherent.take w hfront) rfl rfl ?_
  rintro q (hq | ⟨w', j, hj, hjq, hread⟩)
  · refine Or.inl ?_
    rw [waiting, hfront, List.cons_append]
    exact List.mem_cons_of_mem r hq
  · rcases worker_of_update hj with ⟨-, rfl⟩ | ⟨-, hj⟩
    · refine Or.inl ?_
      rw [waiting, hfront, ← hjq]
      exact List.mem_cons_self
    · exact Or.inr ⟨w', j, hj, hjq, hread⟩

/-- A worker reads the item of its request. -/
theorem work (h : s.Owned) {w : ℕ} {r : Request} {op : HandlerOp}
    {next : op.Answer → Program HandlerSig Unit} {answer : op.Answer}
    (hbusy : s.workers w = some ⟨r, perform (S := HandlerSig) op next⟩)
    (hread : ReadFrom (s.store.client r.item) ⟨op, answer⟩) : Owned { s with
      workers := Function.update s.workers w (some ⟨r, next answer⟩)
      log := s.log ++ [.performed r (s.store.owner r.item) ⟨op, answer⟩] } := by
  obtain ⟨live, hlive, hmem⟩ := h.live
  refine ⟨h.coherent.work hbusy, ⟨live, hlive, ?_⟩, ?_, ?_⟩
  · rintro q (hq | ⟨w', j, hj, hjq, hrest⟩)
    · exact hmem q (Or.inl hq)
    · rcases worker_of_update hj with ⟨-, rfl⟩ | ⟨-, hj⟩
      · refine hmem q (Or.inr ⟨w, _, hbusy, hjq, ?_⟩)
        exact fun havoids => hrest (((avoids_perform _ _ _).mp havoids).2 answer)
      · exact hmem q (Or.inr ⟨w', j, hj, hjq, hrest⟩)
  · intro q owner e he
    rcases List.mem_append.mp he with he | he
    · exact h.performed q owner e he
    · obtain ⟨rfl, rfl, rfl⟩ : q = r ∧ owner = s.store.owner r.item ∧ e = ⟨op, answer⟩ := by
        simpa using he
      cases op with
      | read f =>
        have hmay : s.MayRead q := by
          refine Or.inr ⟨w, _, hbusy, rfl, fun havoids => ?_⟩
          have hfirst := ((avoids_perform _ _ _).mp havoids).1
          simp [HandlerOp.isRead] at hfirst
        have hq := hmem q hmay
        rw [hlive.client q hq] at hread
        exact ⟨hread, fun _ _ _ => hlive.owner q hq⟩
      | _ => exact ⟨trivial, fun _ _ heq => by simp at heq⟩
  · intro q fd pkg hq
    exact h.accepted q fd pkg (by simpa using hq)

/-- An accepted package adds its request to those in the store. -/
theorem accept (h : s.Owned) {fd : Int32} {pkg : List UInt8} {malloc : Option ℕ}
    {procTime : Timeval} {now : ℤ}
    (hfresh : ∀ chunk ∈ malloc, s.store.pool.Fresh s.store.words chunk)
    (hop : SparesReaders s (.loop (.procPkgCli fd pkg malloc procTime now)))
    (hcoherent : (s.afterLoop (procPkgCli s.store fd pkg malloc procTime now).store
      (.procPkgCli fd pkg malloc procTime now)).Coherent) :
    (s.afterLoop (procPkgCli s.store fd pkg malloc procTime now).store
      (.procPkgCli fd pkg malloc procTime now)).Owned := by
  by_cases hrefused : 8192 < pkg.length ∨ s.store.pool.Exhausted malloc
  · obtain ⟨hstore, htask⟩ :=
      procPkgCli_refused fd procTime now hrefused
    rw [afterLoop, htask, hstore]
    exact h
  · obtain ⟨⟨hheader, -, hlow, hhigh⟩, hends, hserial⟩ := hop.resolve_left hrefused
    rw [not_or, not_lt] at hrefused
    obtain ⟨live, hlive, hmem⟩ := h.live
    obtain ⟨ci, htask, -, hrep⟩ := hlive.procPkgCli fd procTime now hrefused.1
      hrefused.2 hfresh hserial hlow hhigh
    have hcarries := carries_of_task hheader htask
    rw [client_of_task htask] at hcarries
    rw [afterLoop, htask] at hcoherent ⊢
    refine ⟨hcoherent, ⟨_, hrep, ?_⟩, ?_, ?_⟩
    · rintro q (hq | hq)
      · rcases List.mem_append.mp hq with hq | hq
        · exact List.mem_append_left _ (hmem q (Or.inl (List.mem_append_left _ hq)))
        · exact List.mem_append_right _ (by simpa using hq)
      · exact List.mem_append_left _ (hmem q (Or.inr hq))
    · intro q owner e he
      exact h.performed q owner e (by simpa using he)
    · intro q fd' pkg' hq
      rcases List.mem_append.mp hq with hq | hq
      · exact h.accepted q fd' pkg' hq
      · obtain ⟨rfl, -, rfl⟩ := Entry.accepted.inj (List.mem_singleton.mp hq)
        exact ⟨hheader, hcarries.textEnds hends⟩

/-- Requests that are taken out are not to be read any more. -/
theorem remove (h : s.Owned) {st' : Store} {log : List Entry}
    (hcoherent : Coherent { s with store := st', log := log })
    (hlog : log = s.log ∨ ∃ fd, log = s.log ++ [.linkDown fd])
    (hlive : ∃ live, st'.Represents live ∧ ∀ r, s.MayRead r → r ∈ live) :
    Owned { s with store := st', log := log } where
  coherent := hcoherent
  live := hlive
  performed := by
    intro r owner e he
    rcases hlog with rfl | ⟨fd, rfl⟩
    · exact h.performed r owner e he
    · exact h.performed r owner e (by simpa using he)
  accepted := by
    intro r fd pkg hr
    rcases hlog with rfl | ⟨fd', rfl⟩
    · exact h.accepted r fd pkg hr
    · exact h.accepted r fd pkg (by simpa using hr)

/-- A step of the event loop that meets the condition keeps every request that
may be read. -/
theorem loop (h : s.Owned) {op : StoreOp} {st' : Store} (hfresh : op.MallocFresh s.store)
    (hstep : StoreStep s.store op st') (hop : SparesReaders s (.loop op))
    (hcoherent : (s.afterLoop st' op).Coherent) : (s.afterLoop st' op).Owned := by
  obtain ⟨live, hlive, hmem⟩ := h.live
  cases op with
  | procPkgCli fd pkg malloc procTime now =>
    obtain rfl : st' = _ := hstep
    exact h.accept hfresh hop hcoherent
  | timeEvent now =>
    obtain ⟨rounds, htime⟩ := hstep
    obtain ⟨st₁, hst₁, hrep, -⟩ := hlive.timeEvent now (Nat.lt_succ_self live.length)
    obtain rfl := timeEvent_unique htime hst₁
    refine h.remove hcoherent (Or.inl rfl) ⟨_, hrep, fun r hr => ?_⟩
    have hpending : ¬ r.deadline < now := not_lt.mpr (hop r hr)
    have hsplit := hmem r hr
    rw [← List.takeWhile_append_dropWhile (p := fun r => r.deadline < now) (l := live)] at hsplit
    rcases List.mem_append.mp hsplit with hfront | hback
    · exact absurd (by simpa using List.mem_takeWhile_imp hfront) hpending
    · exact hback
  | linkDownCli fd =>
    obtain ⟨rounds, hdown⟩ := hstep
    obtain ⟨st₁, hst₁, hrep, -⟩ := hlive.linkDownCli fd (Nat.lt_succ_self live.length)
    obtain rfl := linkDownCli_unique hdown hst₁
    refine h.remove hcoherent (Or.inr ⟨fd, rfl⟩) ⟨_, hrep, fun r hr => ?_⟩
    exact List.mem_filter.mpr ⟨hmem r hr, by simpa using hop r hr⟩

/-- Every step that meets the condition keeps the invariant. -/
theorem step (h : s.Owned) {op : SystemOp} (hop : SparesReaders s op)
    (hstep : SystemStep s op s') : s'.Owned := by
  have hcoherent := h.coherent.step hstep
  cases hstep with
  | loop idle fresh step => exact h.loop fresh step hop hcoherent
  | @put r pending room =>
    have hwaiting : waiting { s with pending := none, queue := s.queue ++ [r] } = s.waiting := by
      simp [waiting, pending]
    refine h.of_mayRead hcoherent rfl rfl ?_
    rintro q (hq | hq)
    · exact Or.inl (hwaiting ▸ hq)
    · exact Or.inr hq
  | take idle front => exact h.take front
  | work busy read => exact h.work busy read
  | finish done =>
    refine h.of_mayRead hcoherent rfl rfl ?_
    rintro q (hq | ⟨w', j, hj, hjq, hread⟩)
    · exact Or.inl hq
    · exact Or.inr ⟨w', j, worker_of_update_none hj, hjq, hread⟩

end Owned

end System

/-- **Requests in the hands of workers.** In every run from `Proxy::Init` in which
every package that is accepted fits, with a text that ends in the buffer and a free
serial number, and in which no request is taken out that may still be read, every
read gets the request that was queued, every reply and every record belongs to one
package, and none is answered twice. -/
theorem ownedByTasks_of_sparesReaders {memory : Store} {maxOpenFd timeoutS : ℤ}
    {sizeofClientInfo pagesize chunk : ℕ} (hpage : 0 < pagesize) (hne : chunk ≠ 0)
    (hle : chunk + mempoolAllocSize pagesize (mempoolItemSize sizeofClientInfo) (pagesize * 4096)
      ≤ 2 ^ 64)
    {ops : List SystemOp} {s : System}
    (hrun : Run (Guarded SparesReaders SystemStep)
      (System.start (Store.init memory maxOpenFd timeoutS sizeofClientInfo pagesize chunk)) ops s) :
    OwnedByTasks s.log :=
  (hrun.invariant (fun _ _ _ h hstep => h.step hstep.1 hstep.2)
    (System.owned_start (represents_init memory maxOpenFd timeoutS sizeofClientInfo hpage hne
      hle))).ownedByTasks

/-! ## A request that times out -/

/-- The store when the first request has timed out. -/
def expired : Store := (timeEvent 2 103 taken.store).getD taken.store

/-- A request times out while its task is with a worker, which then reads an item
that is allocated to nobody. -/
theorem exists_stale_read : ∃ ops s, Run SystemStep (System.start freshStore) ops s ∧
    ¬ OwnedByTasks s.log := by
  have htime : timeEvent 2 103 taken.store = some expired := rfl
  have hbusy : ({ taken with store := expired } : System).workers 0 =
      some ⟨firstRequest, runClientInfo⟩ := rfl
  have htaken := run_taken (P := fun _ _ => True) trivial (fun _ => trivial) fun _ => trivial
  have hstep : SystemStep taken (.loop (.timeEvent 103)) { taken with store := expired } :=
    SystemStep.loop rfl trivial ⟨2, htime⟩
  have hwork := System.run_work (P := fun _ _ => True) (fun _ _ _ => trivial) []
    ⟨none, none, none, true⟩ hbusy
  refine ⟨_, _, ((htaken.snoc ⟨trivial, hstep⟩).append hwork).unguard, fun h => ?_⟩
  have hread := h.reads firstRequest (expired.owner 4104) .callBackFunc
    (expired.client 4104).callBackFunc (List.mem_append_right _ List.mem_cons_self)
  exact absurd hread (by decide)

/-- The first package meets the condition. -/
theorem sparesReaders_firstPackage : SparesReaders (System.start freshStore)
    (.loop (.procPkgCli 7 emptyPackage none ⟨100, 0⟩ 100)) :=
  .inr ⟨⟨by decide, by decide, by decide, by decide⟩, fun hcmd => absurd hcmd (by decide), rfl⟩

/-- The second package meets the condition. -/
theorem sparesReaders_secondPackage :
    SparesReaders taken (.loop (.procPkgCli 9 (textPackage 3) none ⟨101, 0⟩ 101)) := by
  have hends : TextEndsInBuffer (textPackage 3) := by
    intro _
    rw [Buffer.bytes_zeroFilled, List.drop_append]
    exact List.mem_append_left _ (by decide)
  exact .inr ⟨⟨by decide, by decide, by decide, by decide⟩, hends, rfl⟩

/-- A request that is handled before its client goes. -/
theorem ownedByTasks_of_sparesReaders_first : ∃ ops s,
    Run (Guarded SparesReaders SystemStep) (System.start freshStore) ops s ∧
      Entry.linkDown 7 ∈ s.log ∧ OwnedByTasks s.log := by
  obtain ⟨ops, hanswered⟩ := run_answered sparesReaders_firstPackage (fun _ => trivial)
    (fun _ => trivial) fun _ _ _ => trivial
  have hguard : SparesReaders answered (.loop (.linkDownCli 7)) := by
    rintro r (hr | ⟨w, j, hj, -, hread⟩)
    · simp [System.waiting, answered, taken] at hr
    · rw [eq_of_answered_workers hj] at hread
      exact absurd (avoids_ret _ _) hread
  have hdown : ∃ st', linkDownCli 2 7 answered.store = some st' := ⟨_, rfl⟩
  obtain ⟨st', hst'⟩ := hdown
  have hrun := hanswered.snoc ⟨hguard, SystemStep.loop rfl trivial ⟨2, hst'⟩⟩
  exact ⟨_, _, hrun, by simp [System.afterLoop],
    ownedByTasks_of_sparesReaders (by decide) (by decide) (by decide) hrun⟩

end ThriftProxy
