import ThriftProxy.System
import ThriftProxy.HandlerProtocol
import ThriftProxy.Content

/-!
# What a worker does for one request

Properties of every execution of `ClientInfo::run`, whatever the other parties
answer: at most one reply is sent, and as long as the reads get the members of
one `ClientInfo`, the reply and the requests to the back-ends are made from it.
-/

namespace ThriftProxy

open Machine Effect Program Transition

/-! ## One reply -/

/-- Whether an operation reads the `ClientInfo`. -/
def HandlerOp.isRead : HandlerOp → Bool
  | read _ => true
  | _ => false

/-- Whether an operation sends a reply. -/
def HandlerOp.isSend : HandlerOp → Bool
  | netSendCli _ _ _ => true
  | _ => false

/-- `SendToClient` sends once. -/
theorem sendToClient_atMost (buf : List UInt8) (len : ℤ) (statusCode : UInt32) :
    (sendToClient buf len statusCode).AtMost (S := HandlerSig) HandlerOp.isSend 1 := by
  unfold sendToClient
  by_cases hlen : 0 < len <;> simp [hlen, act, AtMost, HandlerOp.isSend]

/-- Delivering a verdict sends once. -/
theorem deliverVerdict_atMost (conn : ℕ) (gameid dirtyFlag : Int32) :
    (deliverVerdict conn gameid dirtyFlag).AtMost (S := HandlerSig) HandlerOp.isSend 1 := by
  have hreply : ∀ buf, (replyVerdict gameid dirtyFlag buf).AtMost (S := HandlerSig)
      HandlerOp.isSend 1 := by
    intro buf
    unfold replyVerdict
    by_cases hgame : gameid = 5
    · rw [if_pos hgame, readField_bind, atMost_perform_of_not rfl]
      exact fun len => sendToClient_atMost _ _ _
    · rw [if_neg hgame]
      exact sendToClient_atMost _ _ _
  have hlog : logVerdict.AtMost (S := HandlerSig) HandlerOp.isSend 0 := by
    simp [logVerdict, AtMost, HandlerOp.isSend]
  unfold deliverVerdict
  simp only [act_bind, readField_bind]
  rw [atMost_perform_of_not rfl]
  intro _
  rw [atMost_perform_of_not rfl]
  intro len
  rw [atMost_perform_of_not rfl]
  intro body
  rw [atMost_perform_of_not rfl]
  intro _
  rw [atMost_perform_of_not rfl]
  exact fun _ => (hreply _).bind fun _ => hlog

/-- The moderation half sends once. -/
theorem moderate_atMost (content : ByteString) (gameid : Int32) (type : UInt8) (userid : Int32) :
    (moderate content gameid type userid).AtMost (S := HandlerSig) HandlerOp.isSend 1 := by
  have hrefuse : ∀ status, (sendToClient [] 0 status >>= fun _ =>
      (ret suspectFlag : Program HandlerSig Int32)).AtMost HandlerOp.isSend 1 := fun status =>
    (sendToClient_atMost _ _ _).bind fun _ => atMost_ret _ 0 _
  unfold moderate
  by_cases hskip : type = 4 ∧ gameid = 5
  · rw [if_pos hskip]
    exact hrefuse 1002
  · rw [if_neg hskip, getConnectionBySer_bind, atMost_perform_of_not rfl]
    intro tisConn
    cases tisConn with
    | none => exact hrefuse 1001
    | some conn =>
      simp only [check_bind]
      rw [atMost_perform_of_not rfl]
      intro checkResult
      cases checkResult with
      | none =>
        simp only [act_bind]
        rw [atMost_perform_of_not rfl]
        exact fun _ => hrefuse 1001
      | some res =>
        exact (deliverVerdict_atMost conn gameid _).bind fun _ => atMost_ret _ 0 _

/-- The storage half sends nothing. -/
theorem storeResult_avoids (content : ByteString) (gameid userid dirtyFlag : Int32) :
    (storeResult content gameid userid dirtyFlag).Avoids (S := HandlerSig) HandlerOp.isSend := by
  unfold storeResult
  rw [getConnectionBySer_bind, avoids_perform]
  refine ⟨rfl, fun dbserConn => ?_⟩
  cases dbserConn with
  | none => exact avoids_ret _ _
  | some conn => simp [act, HandlerOp.isSend]

/-- Whatever the answers, a request is answered at most once. -/
theorem runClientInfo_atMost : runClientInfo.AtMost (S := HandlerSig) HandlerOp.isSend 1 := by
  unfold runClientInfo
  rw [readField_bind, atMost_perform_of_not rfl]
  intro func
  cases func with
  | tisProtoHandler =>
    show tisProtoHandler.AtMost (S := HandlerSig) HandlerOp.isSend 1
    unfold tisProtoHandler
    simp only [readField_bind]
    rw [atMost_perform_of_not rfl]
    intro content
    rw [atMost_perform_of_not rfl]
    intro gameId
    rw [atMost_perform_of_not rfl]
    intro type
    rw [atMost_perform_of_not rfl]
    exact fun userid =>
      (moderate_atMost _ _ _ _).bind fun _ => (storeResult_avoids _ _ _ _).atMost 0
  | defaultProtoHandler => exact sendToClient_atMost _ _ _

/-! ## One request -/

/-- The text of a request ends inside the buffer, if its handler reads one. -/
def ClientInfo.TextEnds (ci : ClientInfo) : Prop :=
  ci.callBackFunc = .tisProtoHandler → (0 : UInt8) ∈ ci.textArea

/-- An operation that other parties see is made from a given `ClientInfo`. -/
def HandlerOp.Concerns (ci : ClientInfo) : HandlerOp → Prop
  | netSendCli fd bytes _ => fd = ci.cliFd ∧ (ProtoHeader.decode bytes).seqNum = ci.cliSeq ∧
      (ProtoHeader.decode bytes).cmdId = ci.cliCmd ∧ (ProtoHeader.decode bytes).userId = ci.userid
  | check _ req => req = tisRequest (cstr ci.textArea) ci.gameid ci.userid.toInt32
  | storeMessage _ req => ∃ flag, req = recordOf ci [] flag
  | _ => True

section

variable (ci : ClientInfo)

/-- A reply goes to the client of the request. -/
theorem sendToClient_concerns (buf : List UInt8) (len : ℤ) (statusCode : UInt32) :
    (sendToClient buf len statusCode).Always (S := HandlerSig) (ReadFrom ci)
      (HandlerOp.Concerns ci) := by
  unfold sendToClient
  by_cases hlen : 0 < len <;>
    simp +contextual [hlen, act, ReadFrom, HandlerOp.Concerns, Field.get]

/-- Delivering a verdict answers the request. -/
theorem deliverVerdict_concerns (conn : ℕ) (gameid dirtyFlag : Int32) :
    (deliverVerdict conn gameid dirtyFlag).Always (S := HandlerSig) (ReadFrom ci)
      (HandlerOp.Concerns ci) := by
  have hreply : ∀ buf, (replyVerdict gameid dirtyFlag buf).Always (S := HandlerSig)
      (ReadFrom ci) (HandlerOp.Concerns ci) := by
    intro buf
    unfold replyVerdict
    by_cases hgame : gameid = 5
    · rw [if_pos hgame, readField_bind, always_perform]
      exact ⟨trivial, fun len _ => sendToClient_concerns ci _ _ _⟩
    · rw [if_neg hgame]
      exact sendToClient_concerns ci _ _ _
  have hlog : logVerdict.Always (S := HandlerSig) (ReadFrom ci) (HandlerOp.Concerns ci) := by
    simp [logVerdict, HandlerOp.Concerns]
  unfold deliverVerdict
  simp only [act_bind, readField_bind, always_perform, HandlerOp.Concerns, true_and]
  exact fun _ _ len _ body _ _ _ _ _ => always_bind (hreply _) fun _ => hlog

/-- The moderation half asks about the request and answers it. -/
theorem moderate_concerns (type : UInt8) :
    (moderate (cstr ci.textArea) ci.gameid type ci.userid.toInt32).Always (S := HandlerSig)
      (ReadFrom ci) (HandlerOp.Concerns ci) := by
  have hrefuse : ∀ status, (sendToClient [] 0 status >>= fun _ =>
      (ret suspectFlag : Program HandlerSig Int32)).Always (ReadFrom ci)
        (HandlerOp.Concerns ci) := fun status =>
    always_bind (sendToClient_concerns ci _ _ _) fun _ => always_ret _ _ _
  unfold moderate
  by_cases hskip : type = 4 ∧ ci.gameid = 5
  · rw [if_pos hskip]
    exact hrefuse 1002
  · rw [if_neg hskip, getConnectionBySer_bind, always_perform]
    refine ⟨trivial, fun tisConn _ => ?_⟩
    cases tisConn with
    | none => exact hrefuse 1001
    | some conn =>
      simp only [check_bind, always_perform]
      refine ⟨rfl, fun checkResult _ => ?_⟩
      cases checkResult with
      | none => exact ⟨trivial, fun _ _ => hrefuse 1001⟩
      | some res =>
        exact always_bind (deliverVerdict_concerns ci conn ci.gameid (dirtyFlagOf res))
          fun _ => always_ret _ _ _

variable {ci}

/-- The storage half stores the record of the request. -/
theorem storeResult_concerns (hends : (0 : UInt8) ∈ ci.textArea) (dirtyFlag : Int32) :
    (storeResult (cstr ci.textArea) ci.gameid ci.userid.toInt32 dirtyFlag).Always
      (S := HandlerSig) (ReadFrom ci) (HandlerOp.Concerns ci) := by
  unfold storeResult
  rw [getConnectionBySer_bind, always_perform]
  refine ⟨trivial, fun dbserConn _ => ?_⟩
  cases dbserConn with
  | none => exact always_ret _ _ _
  | some conn =>
    simp only [readField_bind, always_perform]
    refine ⟨trivial, fun type htype => ⟨trivial, fun homeId hhome => ⟨trivial, fun role hrole =>
      ⟨trivial, fun vip hvip => ⟨trivial, fun nick hnick => ?_⟩⟩⟩⟩⟩
    obtain ⟨_, rfl⟩ := htype
    obtain ⟨_, rfl⟩ := hhome
    obtain ⟨_, rfl⟩ := hrole
    obtain ⟨_, rfl⟩ := hvip
    obtain ⟨behind, rfl⟩ := hnick
    simp only [storeMessage_bind, always_perform]
    refine ⟨⟨dirtyFlag, ?_⟩, fun stored _ => ⟨trivial, fun _ _ => trivial⟩⟩
    have hname : Field.get ci behind .nick = ci.nick [] := (nick_of_mem hends).trans
      (nick_of_mem hends).symm
    rw [hname, recordOf, text_of_mem hends]
    rfl

/-- What a worker does for a request is made from its `ClientInfo`. -/
theorem runClientInfo_concerns (hends : ci.TextEnds) :
    runClientInfo.Always (S := HandlerSig) (ReadFrom ci) (HandlerOp.Concerns ci) := by
  unfold runClientInfo
  rw [readField_bind, always_perform]
  refine ⟨trivial, fun func hfunc => ?_⟩
  obtain ⟨_, rfl⟩ := hfunc
  show (Func.handler ci.callBackFunc).Always (S := HandlerSig) (ReadFrom ci)
    (HandlerOp.Concerns ci)
  cases hfunc : ci.callBackFunc with
  | defaultProtoHandler => exact sendToClient_concerns ci _ _ _
  | tisProtoHandler =>
    have hmem := hends hfunc
    show tisProtoHandler.Always (S := HandlerSig) (ReadFrom ci) (HandlerOp.Concerns ci)
    unfold tisProtoHandler
    simp only [readField_bind, always_perform]
    refine ⟨trivial, fun content hcontent => ⟨trivial, fun gameId hgame => ⟨trivial,
      fun type _ => ⟨trivial, fun userid huser => ?_⟩⟩⟩⟩
    obtain ⟨behind, rfl⟩ := hcontent
    obtain ⟨_, rfl⟩ := hgame
    obtain ⟨_, rfl⟩ := huser
    have htext : Field.get ci behind .content = cstr ci.textArea := text_of_mem hmem
    rw [htext]
    exact always_bind (moderate_concerns ci type) fun dirtyFlag =>
      storeResult_concerns hmem dirtyFlag

end

/-! ## A request on its way -/

/-- The default handler sends a reply to the file descriptor in the `ClientInfo`. -/
theorem netSendCli_mem_trace {ci : ClientInfo} (behind : List UInt8) (o : Outcomes)
    (hfunc : ci.callBackFunc = .defaultProtoHandler) :
    ∃ bytes len, (⟨.netSendCli ci.cliFd bytes len, ()⟩ : Event HandlerSig) ∈
      runClientInfo.trace (S := HandlerSig) (o.answer ci behind) := by
  unfold runClientInfo
  rw [readField_bind, trace_perform]
  have hhandler :
      Func.handler (o.answer ci behind (.read .callBackFunc)) = defaultProtoHandler := by
    show Func.handler ci.callBackFunc = _
    rw [hfunc]
    rfl
  rw [hhandler]
  refine ⟨replyBytes ci [] 0 1001, (replyHeader ci 0 1001).pkgLen.toInt32.toInt,
    List.mem_cons_of_mem _ ?_⟩
  exact List.mem_of_getElem? (i := 5) rfl

/-- The first request that the proxy accepts. -/
def firstRequest : Request := freshStore.newRequest 4104 7 emptyPackage ⟨100, 0⟩ 100

/-- The proxy when a worker has taken its first task. -/
def taken : System :=
  { store := (receive emptyPackage).store
    pending := none
    queue := []
    workers := Function.update (fun _ => none) 0 (some ⟨firstRequest, runClientInfo⟩)
    log := [.accepted firstRequest 7 emptyPackage] }

/-- The first package arrives and is taken by a worker. -/
theorem run_taken {P : System → SystemOp → Prop}
    (hloop : P (System.start freshStore) (.loop (.procPkgCli 7 emptyPackage none ⟨100, 0⟩ 100)))
    (hput : ∀ s, P s .put) (htake : ∀ s, P s (.take 0)) :
    Run (Guarded P SystemStep) (System.start freshStore)
      [.loop (.procPkgCli 7 emptyPackage none ⟨100, 0⟩ 100), .put, .take 0] taken := by
  have hfresh : (StoreOp.procPkgCli 7 emptyPackage none ⟨100, 0⟩ 100).MallocFresh freshStore := by
    simp [StoreOp.MallocFresh]
  refine Run.cons ⟨hloop, SystemStep.loop rfl hfresh rfl⟩ ?_
  refine Run.cons ⟨hput _, SystemStep.put rfl (by decide)⟩ ?_
  exact Run.cons ⟨htake _, SystemStep.take rfl rfl⟩ (Run.nil _)

/-- What the worker does for its first task. -/
def firstEvents : List (Event HandlerSig) :=
  runClientInfo.trace (S := HandlerSig)
    (Outcomes.answer ⟨none, none, none, true⟩ (taken.store.client 4104) [])

/-- The proxy when the worker has done its first task. -/
def answered : System :=
  { taken with
    workers := Function.update taken.workers 0 (some ⟨firstRequest, ret ()⟩)
    log := taken.log ++ firstEvents.map (.performed firstRequest (taken.store.owner 4104)) }

/-- Only the first worker has something to do. -/
theorem eq_of_answered_workers {w : ℕ} {j : Job} (h : answered.workers w = some j) :
    j = ⟨firstRequest, ret ()⟩ := by
  have hupdate : answered.workers =
      Function.update (fun _ => none) 0 (some ⟨firstRequest, ret ()⟩) :=
    Function.update_idem _ _ _
  rw [hupdate] at h
  rcases worker_of_update h with ⟨-, hj⟩ | ⟨-, hj⟩
  · exact hj
  · simp at hj

/-- The worker does its first task. -/
theorem run_answered {P : System → SystemOp → Prop}
    (hloop : P (System.start freshStore) (.loop (.procPkgCli 7 emptyPackage none ⟨100, 0⟩ 100)))
    (hput : ∀ s, P s .put) (htake : ∀ s, P s (.take 0)) (hwork : ∀ s w e, P s (.work w e)) :
    ∃ ops, Run (Guarded P SystemStep) (System.start freshStore) ops answered := by
  have hbusy : taken.workers 0 = some ⟨firstRequest, runClientInfo⟩ := rfl
  exact ⟨_, (run_taken hloop hput htake).append
    (System.run_work hwork [] ⟨none, none, none, true⟩ hbusy)⟩

/-- The first task is answered. -/
theorem netSendCli_mem_firstEvents : ∃ fd bytes len,
    (⟨.netSendCli fd bytes len, ()⟩ : Event HandlerSig) ∈ firstEvents := by
  have htask : (receive emptyPackage).task = some 4104 := by decide
  have hfunc : (taken.store.client 4104).callBackFunc = .defaultProtoHandler := by
    rw [show taken.store.client 4104 = _ from client_of_task htask]
    rfl
  exact ⟨_, netSendCli_mem_trace [] ⟨none, none, none, true⟩ hfunc⟩

/-! ## Two requests on their way -/

/-- The second request, a text to be moderated that comes while a worker has the first. -/
def secondRequest : Request := taken.store.newRequest 8352 9 (textPackage 3) ⟨101, 0⟩ 101

/-- The proxy when two workers have taken a task each. -/
def bothTaken : System :=
  { store := (procPkgCli taken.store 9 (textPackage 3) none ⟨101, 0⟩ 101).store
    pending := none
    queue := []
    workers := Function.update taken.workers 1 (some ⟨secondRequest, runClientInfo⟩)
    log := taken.log ++ [.accepted secondRequest 9 (textPackage 3)] }

/-- The second package arrives and is taken by another worker. -/
theorem run_bothTaken {P : System → SystemOp → Prop}
    (hfirst : P (System.start freshStore) (.loop (.procPkgCli 7 emptyPackage none ⟨100, 0⟩ 100)))
    (hsecond : P taken (.loop (.procPkgCli 9 (textPackage 3) none ⟨101, 0⟩ 101)))
    (hput : ∀ s, P s .put) (htake : ∀ s w, P s (.take w)) :
    ∃ ops, Run (Guarded P SystemStep) (System.start freshStore) ops bothTaken := by
  have hfresh : (StoreOp.procPkgCli 9 (textPackage 3) none ⟨101, 0⟩ 101).MallocFresh
      taken.store := by
    simp [StoreOp.MallocFresh]
  have hrest : Run (Guarded P SystemStep) taken
      [.loop (.procPkgCli 9 (textPackage 3) none ⟨101, 0⟩ 101), .put, .take 1] bothTaken := by
    refine Run.cons ⟨hsecond, SystemStep.loop rfl hfresh rfl⟩ ?_
    refine Run.cons ⟨hput _, SystemStep.put rfl (by decide)⟩ ?_
    exact Run.cons ⟨htake _ 1, SystemStep.take rfl rfl⟩ (Run.nil _)
  exact ⟨_, (run_taken hfirst hput fun s => htake s 0).append hrest⟩

/-- What the second worker does: the text passes and is stored. -/
def secondEvents : List (Event HandlerSig) :=
  runClientInfo.trace (S := HandlerSig)
    (Outcomes.answer ⟨some 0, some ⟨0, 0, 0, 0, []⟩, some 0, true⟩ (bothTaken.store.client 8352) [])

/-- The proxy when the second worker has done its task and the first has not. -/
def secondAnswered : System :=
  { bothTaken with
    workers := Function.update bothTaken.workers 1 (some ⟨secondRequest, ret ()⟩)
    log := bothTaken.log ++
      secondEvents.map (.performed secondRequest (bothTaken.store.owner 8352)) }

/-- The second worker does its task, then the first its own, and both come back. -/
theorem run_bothServed {P : System → SystemOp → Prop}
    (hfirst : P (System.start freshStore) (.loop (.procPkgCli 7 emptyPackage none ⟨100, 0⟩ 100)))
    (hsecond : P taken (.loop (.procPkgCli 9 (textPackage 3) none ⟨101, 0⟩ 101)))
    (hput : ∀ s, P s .put) (htake : ∀ s w, P s (.take w)) (hwork : ∀ s w e, P s (.work w e))
    (hfinish : ∀ s w, P s (.finish w)) :
    ∃ ops s, Run (Guarded P SystemStep) (System.start freshStore) ops s ∧
      Entry.accepted firstRequest 7 emptyPackage ∈ s.log ∧
      Entry.accepted secondRequest 9 (textPackage 3) ∈ s.log ∧
      s.waiting = [] ∧ (∀ w, s.workers w = none) ∧
      ∀ e ∈ secondEvents, e ∈ eventsOf secondRequest.id s.log := by
  obtain ⟨ops, hrun⟩ := run_bothTaken hfirst hsecond hput htake
  have hsecondBusy : bothTaken.workers 1 = some ⟨secondRequest, runClientInfo⟩ := rfl
  have hsecondDone : Run (Guarded P SystemStep) bothTaken (secondEvents.map (.work 1))
      secondAnswered :=
    System.run_work hwork [] ⟨some 0, some ⟨0, 0, 0, 0, []⟩, some 0, true⟩ hsecondBusy
  have hfirstBusy : secondAnswered.workers 0 = some ⟨firstRequest, runClientInfo⟩ := rfl
  have hanswered := System.run_work hwork [] ⟨none, none, none, true⟩ hfirstBusy
  have hdone := ((hrun.append hsecondDone).append hanswered).append
    (Run.cons ⟨hfinish _ 1, SystemStep.finish (r := secondRequest) rfl⟩
      (Run.cons ⟨hfinish _ 0, SystemStep.finish (r := firstRequest) rfl⟩ (Run.nil _)))
  refine ⟨_, _, hdone, ?_, ?_, rfl, ?_, ?_⟩
  · simp [secondAnswered, bothTaken, taken]
  · simp [secondAnswered, bothTaken]
  · rintro (_ | _ | w)
    · rfl
    · rfl
    · rfl
  · intro e he
    exact mem_eventsOf.mpr ⟨secondRequest, _,
      List.mem_append_left _ (List.mem_append_right _ (List.mem_map_of_mem he)), rfl⟩

/-- The text of the second request is moderated. -/
theorem check_mem_secondEvents : ∃ conn req a,
    (⟨.check conn req, a⟩ : Event HandlerSig) ∈ secondEvents :=
  ⟨_, _, _, List.mem_of_getElem? (i := 6) rfl⟩

end ThriftProxy
