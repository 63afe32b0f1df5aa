import ThriftProxy.Handler

/-!
# What a handler asks the back-ends

The requests to the moderation service and the records for the storage service
in a run of `tisProtoHandler` on a fixed `ClientInfo`, in closed form.
-/

namespace ThriftProxy

open Machine Effect Program

/-- The request that an event sends to the moderation service. -/
def checkRequest : Event HandlerSig → Option RequestCheckStruct
  | ⟨.check _ req, _⟩ => some req
  | _ => none

/-- The record that an event sends to the storage service. -/
def storedRecord : Event HandlerSig → Option ReqCheckResult
  | ⟨.storeMessage _ req, _⟩ => some req
  | _ => none

section

variable (ci : ClientInfo) (behind : List UInt8) (o : Outcomes)

/-- The requests to the moderation service in a run of the handler. -/
def checkRequests : List RequestCheckStruct := (tisRun ci behind o).filterMap checkRequest

/-- The records for the storage service in a run of the handler. -/
def storedRecords : List ReqCheckResult := (tisRun ci behind o).filterMap storedRecord

/-- The game a request comes from. -/
def ClientInfo.gameid : Int32 := (readU32 0 ci.buf.bytes).toInt32

/-- The type byte of a request. -/
def ClientInfo.type : UInt8 := UInt8.ofNat (decodeLE (field 20 1 ci.buf.bytes))

/-- Whether the request is not to be moderated: type 4 of game 5. -/
def ClientInfo.Bypassed : Prop := ci.type = 4 ∧ ci.gameid = 5

instance : Decidable ci.Bypassed := by unfold ClientInfo.Bypassed; infer_instance

/-- The text of a request as the handler reads it. -/
def ClientInfo.text : ByteString := cstr ((ci.buf.bytes ++ behind).drop contentOffset)

/-- The name in a request as the handler reads it. -/
def ClientInfo.nick : ByteString := cstr ((ci.buf.bytes ++ behind).drop 4)

end

/-! ## Parts of a run that ask nothing -/

/-- Whether an operation is a request to a back-end. -/
def HandlerOp.isRequest : HandlerOp → Bool
  | check _ _ => true
  | storeMessage _ _ => true
  | _ => false

/-- A reply asks nothing of the back-ends. -/
theorem sendToClient_avoids_requests (buf : List UInt8) (len : ℤ) (statusCode : UInt32) :
    (sendToClient buf len statusCode).Avoids (S := HandlerSig) HandlerOp.isRequest := by
  unfold sendToClient
  by_cases hlen : 0 < len <;> simp [hlen, act, HandlerOp.isRequest]

/-- Delivering a verdict asks nothing of the back-ends. -/
theorem deliverVerdict_avoids_requests (conn : ℕ) (gameid dirtyFlag : Int32) :
    (deliverVerdict conn gameid dirtyFlag).Avoids (S := HandlerSig) HandlerOp.isRequest := by
  have hreply : ∀ buf, (replyVerdict gameid dirtyFlag buf).Avoids (S := HandlerSig)
      HandlerOp.isRequest := by
    intro buf
    unfold replyVerdict
    by_cases hgame : gameid = 5
    · rw [if_pos hgame, readField_bind, avoids_perform]
      exact ⟨rfl, fun len => sendToClient_avoids_requests _ _ _⟩
    · rw [if_neg hgame]
      exact sendToClient_avoids_requests _ _ _
  have hlog : logVerdict.Avoids (S := HandlerSig) HandlerOp.isRequest := by
    simp [logVerdict, HandlerOp.isRequest]
  unfold deliverVerdict
  simp only [act_bind, readField_bind, avoids_perform, HandlerOp.isRequest, true_and]
  exact fun _ len body _ _ => (hreply _).bind fun _ => hlog

/-- The events that are no requests show nothing. -/
theorem checkRequest_of_not_isRequest (e : Event HandlerSig) (h : e.op.isRequest = false) :
    checkRequest e = none := by
  obtain ⟨op, answer⟩ := e
  cases op <;> first | rfl | exact absurd h (by simp [HandlerOp.isRequest])

/-- Whether an operation stores a record. -/
def HandlerOp.isStore : HandlerOp → Bool
  | storeMessage _ _ => true
  | _ => false

/-- The events that store nothing show nothing. -/
theorem storedRecord_of_not_isStore (e : Event HandlerSig) (h : e.op.isStore = false) :
    storedRecord e = none := by
  obtain ⟨op, answer⟩ := e
  cases op <;> first | rfl | exact absurd h (by simp [HandlerOp.isStore])

/-- Storing a record is a request. -/
theorem HandlerOp.isStore_of_not_isRequest (op : HandlerOp) (h : op.isRequest = false) :
    op.isStore = false := by
  cases op <;> first | rfl | exact absurd h (by simp [HandlerOp.isRequest])

/-- The moderation half stores nothing. -/
theorem moderate_avoids_stores (content : ByteString) (gameid : Int32) (type : UInt8)
    (userid : Int32) :
    (moderate content gameid type userid).Avoids (S := HandlerSig) HandlerOp.isStore := by
  have hsend : ∀ status, (sendToClient [] 0 status >>= fun _ =>
      (ret suspectFlag : Program HandlerSig Int32)).Avoids HandlerOp.isStore := fun status =>
    ((sendToClient_avoids_requests [] 0 status).mono HandlerOp.isStore_of_not_isRequest).bind
      fun _ => avoids_ret _ _
  unfold moderate
  by_cases hskip : type = 4 ∧ gameid = 5
  · rw [if_pos hskip]
    exact hsend 1002
  · rw [if_neg hskip, getConnectionBySer_bind, avoids_perform]
    refine ⟨rfl, ?_⟩
    intro tisConn
    cases tisConn with
    | none => exact hsend 1001
    | some conn =>
      refine ⟨rfl, fun checkResult _ => ?_⟩
      cases checkResult with
      | none => exact ⟨rfl, fun _ _ => hsend 1001⟩
      | some res =>
        exact ((deliverVerdict_avoids_requests conn gameid (dirtyFlagOf res)).mono
          HandlerOp.isStore_of_not_isRequest).bind fun _ => avoids_ret _ _

section

variable (ci : ClientInfo) (behind : List UInt8) (o : Outcomes)

/-- The moderation half asks for a verdict on the text, unless the request is
bypassed or there is no connection. -/
theorem observed_moderate_checkRequest (content : ByteString) (gameid : Int32) (type : UInt8)
    (userid : Int32) : (moderate content gameid type userid).observed (S := HandlerSig)
      (o.answer ci behind) checkRequest =
        if (type = 4 ∧ gameid = 5) ∨ o.tisConn = none then []
        else [tisRequest content gameid userid] := by
  unfold moderate
  by_cases hskip : type = 4 ∧ gameid = 5
  · have hquiet : (sendToClient [] 0 1002 >>= fun _ => (ret suspectFlag : Program HandlerSig Int32)
        ).Avoids HandlerOp.isRequest :=
      (sendToClient_avoids_requests [] 0 1002).bind fun _ => avoids_ret _ _
    rw [if_pos hskip, if_pos (Or.inl hskip)]
    exact hquiet.observed_eq_nil checkRequest_of_not_isRequest _
  · have hquiet : (sendToClient [] 0 1001 >>= fun _ => (ret suspectFlag : Program HandlerSig Int32)
        ).Avoids HandlerOp.isRequest :=
      (sendToClient_avoids_requests [] 0 1001).bind fun _ => avoids_ret _ _
    rw [if_neg hskip]
    obtain ⟨tisConn, checkResult, dbserConn, stored⟩ := o
    cases tisConn with
    | none =>
      rw [if_pos (Or.inr rfl)]
      exact hquiet.observed_eq_nil checkRequest_of_not_isRequest
        (Outcomes.answer ⟨none, checkResult, dbserConn, stored⟩ ci behind)
    | some conn =>
      rw [if_neg (by simp [hskip])]
      cases checkResult with
      | none =>
        exact congrArg (tisRequest content gameid userid :: ·)
          (hquiet.observed_eq_nil checkRequest_of_not_isRequest
            (Outcomes.answer ⟨some conn, none, dbserConn, stored⟩ ci behind))
      | some res =>
        have hdeliver : (deliverVerdict conn gameid (dirtyFlagOf res) >>= fun _ =>
            (ret (dirtyFlagOf res) : Program HandlerSig Int32)).Avoids HandlerOp.isRequest :=
          (deliverVerdict_avoids_requests conn gameid (dirtyFlagOf res)).bind
            fun _ => avoids_ret _ _
        exact congrArg (tisRequest content gameid userid :: ·)
          (hdeliver.observed_eq_nil checkRequest_of_not_isRequest _)

/-- The record that a run with a given flag stores. -/
def recordOf (dirtyFlag : Int32) : ReqCheckResult :=
  storeRequest (ci.text behind) ci.gameid ci.userid.toInt32 dirtyFlag ci.type
    (readU32 21 ci.buf.bytes) (readU32 25 ci.buf.bytes) (readU32 29 ci.buf.bytes)
    (ci.nick behind)

/-- A run shows its moderation half and then its storage half. -/
theorem filterMap_tisRun {ω : Type} (view : Event HandlerSig → Option ω)
    (hread : ∀ f v, view ⟨.read f, v⟩ = none) : (tisRun ci behind o).filterMap view =
      (moderate (ci.text behind) ci.gameid ci.type ci.userid.toInt32).observed
          (S := HandlerSig) (o.answer ci behind) view ++
        (storeResult (ci.text behind) ci.gameid ci.userid.toInt32
          ((moderate (ci.text behind) ci.gameid ci.type ci.userid.toInt32).result
            (S := HandlerSig) (o.answer ci behind))).observed
          (S := HandlerSig) (o.answer ci behind) view := by
  rw [← observed_bind, tisRun, tisProtoHandler]
  simp only [readField_bind, trace_perform, hread, List.filterMap_cons_none]
  rfl

/-- The requests to the moderation service. -/
theorem checkRequests_eq : checkRequests ci behind o =
    if ci.Bypassed ∨ o.tisConn = none then []
    else [tisRequest (ci.text behind) ci.gameid ci.userid.toInt32] := by
  have hstore : ∀ flag, (storeResult (ci.text behind) ci.gameid ci.userid.toInt32 flag).observed
      (S := HandlerSig) (o.answer ci behind) checkRequest = [] := by
    intro flag
    obtain ⟨tisConn, checkResult, dbserConn, stored⟩ := o
    cases dbserConn <;> rfl
  rw [checkRequests, filterMap_tisRun ci behind o checkRequest fun _ _ => rfl, hstore,
    List.append_nil, observed_moderate_checkRequest]
  rfl

/-- The records for the storage service. -/
theorem storedRecords_eq : ∃ flag, storedRecords ci behind o =
    if o.dbserConn = none then [] else [recordOf ci behind flag] := by
  have hmoderate := (moderate_avoids_stores (ci.text behind) ci.gameid ci.type
    ci.userid.toInt32).observed_eq_nil storedRecord_of_not_isStore (o.answer ci behind)
  refine ⟨(moderate (ci.text behind) ci.gameid ci.type ci.userid.toInt32).result
    (S := HandlerSig) (o.answer ci behind), ?_⟩
  rw [storedRecords, filterMap_tisRun ci behind o storedRecord fun _ _ => rfl, hmoderate,
    List.nil_append]
  obtain ⟨tisConn, checkResult, dbserConn, stored⟩ := o
  cases dbserConn with
  | none => rfl
  | some conn => rfl

end

end ThriftProxy
