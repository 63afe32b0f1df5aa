import ThriftProxy.Lib.Transition
import ThriftProxy.ThriftCalls

/-!
# Calls over a connection

A client of the services that makes one call after another over a connection, and the
processor of a service at its other end. The client gets what the handler would have
returned or thrown if it had been called directly, and an exception from a processor
that does not know the method. The two never lose their place in the streams.
-/

namespace ThriftProxy

open Wire Wire.Reader Transition

/-! ## Direct calls -/

/-- A call of a method of one of the services, with its argument. -/
inductive ServiceCall
  | ping
  | reloadModel
  | check (req : RequestCheckStruct)
  | getIdentity (s : ReqProto)
  | storeMessage (s : ReqCheckResult)

namespace ServiceCall

/-- The type of the argument. -/
abbrev Arg : ServiceCall → Type
  | ping => Unit
  | reloadModel => Unit
  | check _ => RequestCheckStruct
  | getIdentity _ => ReqProto
  | storeMessage _ => ReqCheckResult

/-- The type of what is returned. -/
abbrev Value : ServiceCall → Type
  | ping => Unit
  | reloadModel => Int32
  | check _ => CheckResultStruct
  | getIdentity _ => AckProto
  | storeMessage _ => Int32

/-- The argument. -/
def arg : (c : ServiceCall) → c.Arg
  | ping => ()
  | reloadModel => ()
  | check req => req
  | getIdentity s => s
  | storeMessage s => s

/-- The method. -/
def method (P : TProtocol) : (c : ServiceCall) → Method c.Arg c.Value
  | ping => TisService.ping
  | reloadModel => TisService.reloadModel P
  | check _ => TisService.check P
  | getIdentity _ => IdentityServ.getIdentity P
  | storeMessage _ => IdentityServ.storeMessage P

/-- The arguments before they are read. -/
def args : (c : ServiceCall) → c.Arg
  | ping => ()
  | reloadModel => ()
  | check _ => ⟨0, 0, [], [], [], []⟩
  | getIdentity _ => ⟨0⟩
  | storeMessage _ => ⟨[], 0, 0, 0, [], 0, 0, 0, 0, 0⟩

/-- The methods are lawful. -/
theorem lawful (P : TProtocol) (c : ServiceCall) : (c.method P).Lawful P := by
  cases c with
  | ping => exact lawful_ping
  | reloadModel => exact lawful_reloadModel
  | check req => exact lawful_check
  | getIdentity s => exact lawful_getIdentity
  | storeMessage s => exact lawful_storeMessage

end ServiceCall

/-- The processor of one of the services, with its handler. -/
inductive ServiceProcessor (ς : Type)
  | tis (iface : TisServiceIf ς)
  | identity (iface : IdentityServIf ς)

namespace ServiceProcessor

variable {ς : Type}

/-- `processMap_`. -/
def processMap (P : TProtocol) : ServiceProcessor ς → ProcessMap ς
  | tis iface => iface.processMap P
  | identity iface => iface.processMap P

/-- The function of the handler behind a call, if the service has the method. -/
def handler : ServiceProcessor ς → (c : ServiceCall) →
    Option (c.Arg → ς → Except ByteString c.Value × ς)
  | tis iface, .ping => some fun _ => iface.ping
  | tis iface, .reloadModel => some fun _ => iface.reloadModel
  | tis iface, .check _ => some iface.check
  | identity iface, .getIdentity _ => some iface.getIdentity
  | identity iface, .storeMessage _ => some iface.storeMessage
  | _, _ => none

/-- What a direct call of the handler returns or throws. -/
def direct (P : TProtocol) (proc : ServiceProcessor ς) (c : ServiceCall) (s : ς) :
    Except TApplicationException c.Value × ς :=
  match proc.handler c with
  | none => (.error ⟨.unknownMethod,
      literal "Invalid method name: '" ++ (c.method P).name ++ literal "'"⟩, s)
  | some iface => ((iface c.arg s).1.mapError fun what => ⟨.unknown, what⟩, (iface c.arg s).2)

/-- The function of the processor for a call. -/
theorem lookup_processMap (P : TProtocol) (proc : ServiceProcessor ς) (c : ServiceCall) :
    (proc.processMap P).lookup (c.method P).name =
      (proc.handler c).map fun iface => (c.method P).process P c.args iface := by
  cases proc <;> cases c <;> rfl

/-- What a processor answers to the bytes of a call. -/
def answer (P : TProtocol) (proc : ServiceProcessor ς) (c : ServiceCall) (s : ς) :
    Option ByteString :=
  match proc.handler c with
  | none => exceptionMessage P (c.method P).name 0 ⟨.unknownMethod,
      literal "Invalid method name: '" ++ (c.method P).name ++ literal "'"⟩
  | some iface => (c.method P).answer P 0 (iface c.arg s).1

/-- A processor takes the bytes of a call. -/
theorem reads_dispatchCall {P : TProtocol} {c : ServiceCall} {body : ByteString}
    (hbody : writeStruct P (c.method P).args c.arg = some body) (proc : ServiceProcessor ς)
    (s : ς) :
    (dispatchCall P (proc.processMap P) (c.method P).name 0 s).Reads body
      (proc.answer P c s, (proc.direct P c s).2) := by
  rw [dispatchCall, lookup_processMap, answer, direct]
  cases proc.handler c with
  | none =>
    have hskip := P.reads_skip (((c.lawful P).skippable_args hbody).mono P.two_le_depth)
    exact hskip.bind_pure _
  | some iface => exact (c.lawful P).reads_process hbody iface 0 s

/-- The client takes the answer for what a direct call does. -/
theorem reads_answer {P : TProtocol} {proc : ServiceProcessor ς} {c : ServiceCall} {s : ς}
    {reply : ByteString} (h : proc.answer P c s = some reply) (old : c.Value) :
    ((c.method P).recv P old).Reads reply (proc.direct P c s).1 := by
  rw [answer] at h
  rw [direct]
  cases hhandler : proc.handler c with
  | none =>
    rw [hhandler] at h
    exact Method.reads_exceptionMessage h old
  | some iface =>
    rw [hhandler] at h
    exact (c.lawful P).reads_answer h old

end ServiceProcessor

/-! ## Sessions -/

/-- A client and a processor with a connection between them. -/
structure Session (ς : Type) where
  /-- The state of the handler. -/
  state : ς
  toServer : ByteString
  toClient : ByteString
  /-- The call whose answer the client waits for. -/
  waiting : Option ServiceCall
  /-- The calls that have been answered, with what the client has made of the answers. -/
  answers : List (Σ c : ServiceCall, Except TApplicationException c.Value)

/-- A step of a session. -/
inductive SessionOp
  | call (c : ServiceCall)
  | serve
  | receive

/-- The call that a step makes. -/
def SessionOp.called : SessionOp → Option ServiceCall
  | call c => some c
  | _ => none

/-- The steps that do not throw. -/
inductive SessionStep (P : TProtocol) {ς : Type} (proc : ServiceProcessor ς) :
    Session ς → SessionOp → Session ς → Prop
  /-- `send_`. -/
  | call {s : Session ς} {c : ServiceCall} {request : ByteString} (idle : s.waiting = none)
      (send : (c.method P).send P c.arg = some request) :
      SessionStep P proc s (.call c)
        { s with
          toServer := s.toServer ++ request
          waiting := some c }
  /-- The processor reads the header of a call and dispatches it. -/
  | serve {s : Session ς} {name : ByteString} {seqid : Int32} {bytes reply rest : ByteString}
      {state : ς} (header : P.readMessageBegin.run s.toServer = .ok ((name, .call, seqid), bytes))
      (dispatch : (dispatchCall P (proc.processMap P) name seqid s.state).run bytes =
        .ok ((some reply, state), rest)) :
      SessionStep P proc s .serve
        { s with
          state := state
          toServer := rest
          toClient := s.toClient ++ reply }
  /-- `recv_`. -/
  | receive {s : Session ς} (c : ServiceCall) (old : c.Value)
      {outcome : Except TApplicationException c.Value} {rest : ByteString}
      (waiting : s.waiting = some c)
      (recv : ((c.method P).recv P old).run s.toClient = .ok (outcome, rest)) :
      SessionStep P proc s .receive
        { s with
          toClient := rest
          waiting := none
          answers := s.answers ++ [⟨c, outcome⟩] }

/-- Calls made directly, one after another. -/
def ServiceProcessor.directCalls {ς : Type} (P : TProtocol) (proc : ServiceProcessor ς) :
    ς → List ServiceCall → List (Σ c : ServiceCall, Except TApplicationException c.Value) × ς
  | s, [] => ([], s)
  | s, c :: calls =>
    let (outcome, s) := proc.direct P c s
    let (outcomes, s) := directCalls P proc s calls
    (⟨c, outcome⟩ :: outcomes, s)

namespace Session

variable {P : TProtocol} {ς : Type} {proc : ServiceProcessor ς} {s s' : Session ς}

/-- A new connection. -/
def start (state : ς) : Session ς :=
  { state := state
    toServer := []
    toClient := []
    waiting := none
    answers := [] }

/-- The calls that the client has made. -/
def made (s : Session ς) : List ServiceCall := s.answers.map Sigma.fst ++ s.waiting.toList

/-- What is on its way between calls, and during one. -/
inductive Phase (P : TProtocol) (proc : ServiceProcessor ς) (state : ς) (s : Session ς) : Prop
  | idle (waiting : s.waiting = none) (toServer : s.toServer = []) (toClient : s.toClient = [])
      (state_eq : s.state = state)
  | sent {c : ServiceCall} (waiting : s.waiting = some c)
      (send : (c.method P).send P c.arg = some s.toServer) (toClient : s.toClient = [])
      (state_eq : s.state = state)
  | replied {c : ServiceCall} (waiting : s.waiting = some c) (toServer : s.toServer = [])
      (reply : proc.answer P c state = some s.toClient)
      (state_eq : s.state = (proc.direct P c state).2)

/-- The answers are those of direct calls. -/
structure Direct (P : TProtocol) (proc : ServiceProcessor ς) (first : ς) (s : Session ς) :
    Prop where
  /-- The client has got what direct calls would have returned or thrown. -/
  answers_eq : s.answers = (proc.directCalls P first (s.answers.map Sigma.fst)).1
  /-- Each side reads what the other one has written. -/
  phase : s.Phase P proc (proc.directCalls P first (s.answers.map Sigma.fst)).2

/-- A call after others. -/
theorem directCalls_append (first : ς) (calls : List ServiceCall) (c : ServiceCall) :
    proc.directCalls P first (calls ++ [c]) =
      ((proc.directCalls P first calls).1 ++
          [⟨c, (proc.direct P c (proc.directCalls P first calls).2).1⟩],
        (proc.direct P c (proc.directCalls P first calls).2).2) := by
  induction calls generalizing first with
  | nil => rfl
  | cons c' calls ih => simp [ServiceProcessor.directCalls, ih]

/-- There is no header in nothing. -/
theorem no_header {header : ByteString × TMessageType × Int32} {rest : ByteString}
    (h : P.readMessageBegin.run [] = .ok (header, rest)) : False :=
  absurd (P.consumes_messageBegin _ _ _ h) (Nat.not_lt_zero _)

/-- Without an answer there is nothing to receive. -/
theorem no_answer {c : ServiceCall} {old : c.Value}
    {outcome : Except TApplicationException c.Value} {rest : ByteString}
    (h : ((c.method P).recv P old).run [] = .ok (outcome, rest)) : False := by
  obtain ⟨header, rest', hheader, -⟩ := run_bind_eq_ok_iff.mp h
  exact no_header hheader

/-- Each step keeps the two sides together. -/
theorem Direct.step {first : ς} (h : s.Direct P proc first) {op : SessionOp}
    (hstep : SessionStep P proc s op s') : s'.Direct P proc first := by
  obtain ⟨hanswers, hphase⟩ := h
  cases hstep with
  | @call c request idle send =>
    refine ⟨hanswers, ?_⟩
    cases hphase with
    | idle waiting toServer toClient state_eq =>
      exact .sent rfl (by simpa [toServer] using send) toClient state_eq
    | sent waiting => simp [idle] at waiting
    | replied waiting => simp [idle] at waiting
  | @serve name seqid bytes reply rest state header dispatch =>
    refine ⟨hanswers, ?_⟩
    cases hphase with
    | idle waiting toServer => exact (no_header (toServer ▸ header)).elim
    | replied waiting toServer => exact (no_header (toServer ▸ header)).elim
    | @sent c waiting send toClient state_eq =>
      obtain ⟨head, body, hhead, hbody, hrequest⟩ := Method.send_eq_some send
      rw [hrequest, P.reads_messageBegin hhead body] at header
      cases header
      have hdispatch := ServiceProcessor.reads_dispatchCall hbody proc s.state []
      rw [List.append_nil, dispatch] at hdispatch
      simp only [Except.ok.injEq, Prod.mk.injEq] at hdispatch
      obtain ⟨⟨hreply, hstate⟩, hrest⟩ := hdispatch
      refine .replied waiting hrest ?_ (by rw [← state_eq]; exact hstate)
      rw [← state_eq, ← hreply, toClient, List.nil_append]
  | @receive c old outcome rest waiting recv =>
    cases hphase with
    | idle waiting' => simp [waiting] at waiting'
    | sent waiting' send toClient => exact (no_answer (toClient ▸ recv)).elim
    | @replied c' waiting' toServer reply state_eq =>
      obtain rfl : c = c' := Option.some.inj (waiting.symm.trans waiting')
      have hrecv := ServiceProcessor.reads_answer reply old []
      rw [List.append_nil, recv] at hrecv
      simp only [Except.ok.injEq, Prod.mk.injEq] at hrecv
      obtain ⟨hrecv, hrest⟩ := hrecv
      constructor
      · rw [List.map_append, List.map_singleton, directCalls_append, ← hanswers, hrecv]
      · rw [List.map_append, List.map_singleton, directCalls_append]
        exact .idle rfl toServer hrest state_eq

/-- The calls of a run have been answered, but for the last one. -/
theorem made_of_run {ops : List SessionOp} (hrun : Run (SessionStep P proc) s ops s') :
    s'.made = s.made ++ ops.filterMap SessionOp.called := by
  induction hrun with
  | nil s => simp
  | cons hstep hrun ih =>
    rw [ih]
    cases hstep with
    | call idle send => simp [made, SessionOp.called, idle]
    | serve header dispatch => rfl
    | receive c old waiting recv =>
      simp only [made, waiting, List.map_append, List.map_singleton, Option.toList_some,
        Option.toList_none, List.append_nil]
      rfl

/-- What holds of a session after some steps. -/
structure Faithful (P : TProtocol) (proc : ServiceProcessor ς) (first : ς)
    (ops : List SessionOp) (s : Session ς) : Prop where
  /-- The client has got what direct calls would have returned or thrown. -/
  answers_eq : s.answers = (proc.directCalls P first (s.answers.map Sigma.fst)).1
  /-- All calls have been answered in their order, but for one that is under way. -/
  made_eq : s.answers.map Sigma.fst ++ s.waiting.toList = ops.filterMap SessionOp.called
  /-- While a call is under way, the processor can take it or the client its answer. -/
  never_throws : ∀ c, s.waiting = some c →
    (∃ seqid bytes reply state,
      P.readMessageBegin.run s.toServer = .ok (((c.method P).name, .call, seqid), bytes) ∧
      (dispatchCall P (proc.processMap P) (c.method P).name seqid s.state).run bytes =
        .ok ((reply, state), [])) ∨
    ∀ old, ∃ outcome, ((c.method P).recv P old).run s.toClient = .ok (outcome, [])

/-- A call that is under way goes on. -/
theorem Direct.goes_on {first : ς} (h : s.Direct P proc first) {c : ServiceCall}
    (hwaiting : s.waiting = some c) :
    (∃ seqid bytes reply state,
      P.readMessageBegin.run s.toServer = .ok (((c.method P).name, .call, seqid), bytes) ∧
      (dispatchCall P (proc.processMap P) (c.method P).name seqid s.state).run bytes =
        .ok ((reply, state), [])) ∨
    ∀ old, ∃ outcome, ((c.method P).recv P old).run s.toClient = .ok (outcome, []) := by
  cases h.phase with
  | idle waiting => simp [hwaiting] at waiting
  | @sent c' waiting send =>
    left
    obtain rfl : c = c' := Option.some.inj (hwaiting.symm.trans waiting)
    obtain ⟨head, body, hhead, hbody, hrequest⟩ := Method.send_eq_some send
    have hdispatch := ServiceProcessor.reads_dispatchCall hbody proc s.state []
    rw [List.append_nil] at hdispatch
    refine ⟨0, body, _, _, ?_, hdispatch⟩
    rw [hrequest]
    exact P.reads_messageBegin hhead body
  | @replied c' waiting toServer reply =>
    right
    obtain rfl : c = c' := Option.some.inj (hwaiting.symm.trans waiting)
    intro old
    have hrecv := ServiceProcessor.reads_answer reply old []
    rw [List.append_nil] at hrecv
    exact ⟨_, hrecv⟩

end Session

/-- **Calls over a connection are direct calls.** For every protocol with the laws of the
binary one, every handler of either service and every sequence of calls of either
service, the client gets from a connection what direct calls of the handler would have
returned or thrown, in their order, and an exception for methods of the other service.
Nothing is left over in the streams that the next call could run into. -/
theorem calls_are_direct (P : TProtocol) {ς : Type} (proc : ServiceProcessor ς) {first : ς}
    {ops : List SessionOp} {s : Session ς}
    (hrun : Run (SessionStep P proc) (.start first) ops s) : s.Faithful P proc first ops := by
  have h : s.Direct P proc first :=
    hrun.invariant (fun _ _ _ h hstep => h.step hstep) ⟨rfl, .idle rfl rfl rfl rfl⟩
  exact ⟨h.answers_eq, Session.made_of_run hrun, fun c => h.goes_on⟩

/-- A moderation service that counts the calls of `reloadModel`. -/
def countingTis : ServiceProcessor ℕ := .tis
  { ping := fun n => (.ok (), n)
    reloadModel := fun n => (.ok (Int32.ofNat n), n + 1)
    check := fun _ n => (.error (literal "busy"), n) }

/-- A client that also calls a method of the other service. -/
theorem countingTis_run : ∃ s, Run (SessionStep Binary.protocol countingTis) (.start 4)
    [.call .reloadModel, .serve, .receive, .call (.getIdentity ⟨7⟩), .serve, .receive] s :=
  ⟨_, Run.cons (.call rfl rfl) <| Run.cons (.serve rfl rfl) <|
    Run.cons (.receive .reloadModel (0 : Int32) rfl rfl) <| Run.cons (.call rfl rfl) <|
    Run.cons (.serve rfl rfl) <|
    Run.cons (.receive (.getIdentity ⟨7⟩) (⟨[]⟩ : AckProto) rfl rfl) (Run.nil _)⟩

/-- Both calls are answered. -/
theorem calls_are_direct_countingTis : ∃ s : Session ℕ,
    s.answers.map Sigma.fst ++ s.waiting.toList = [.reloadModel, .getIdentity ⟨7⟩] := by
  obtain ⟨s, hrun⟩ := countingTis_run
  exact ⟨s, (calls_are_direct _ _ hrun).made_eq⟩

end ThriftProxy
