import ThriftProxy.ThriftStructs

/-!
# Calls of the services

The generated clients and processors of the two services. What a processor answers to
the bytes of a call is what the client makes of a direct call of the handler, with an
exception where the handler throws or the processor does not know the method.
-/

namespace ThriftProxy

open Wire Wire.Reader

/-! ## The generated functions -/

/-- The result of a method, with what `success` points to. -/
structure CallResult (β : Type) where
  /-- `*success`. -/
  success : β
  /-- `__isset.success`. -/
  isset : Bool

/-- What the generated functions of a method differ in. -/
structure Method (α β : Type) where
  name : ByteString
  /-- The fields of the struct of arguments. -/
  args : List (FieldSpec α)
  /-- The fields of the result. -/
  result : List (FieldSpec (CallResult β))
  /-- The method returns nothing. -/
  void : Bool

section

variable (P : TProtocol) {α β ς : Type}

/-- The field of a result, which is written if it is set. -/
def successField (f : FieldSpec (CallResult β)) : FieldSpec (CallResult β) :=
  { f with present := (·.isset) }

/-- A result of type `T_I32`. -/
def successI32 : FieldSpec (CallResult Int32) :=
  successField (i32Field P "success" 0 (·.success) fun v _ => ⟨v, true⟩)

/-- A result of type `T_STRUCT`. -/
def successStruct (fields : List (FieldSpec β)) : FieldSpec (CallResult β) :=
  successField (structField P "success" 0 fields (·.success) fun v _ => ⟨v, true⟩)

/-- A message with an exception. -/
def exceptionMessage (name : ByteString) (seqid : Int32) (x : TApplicationException) :
    Option ByteString := do
  let header ← P.writeMessageBegin name .exception seqid
  let body ← P.writeException x
  return header ++ body

namespace Method

variable (m : Method α β)

/-- `send_` of a method. -/
def send (a : α) : Option ByteString := do
  let header ← P.writeMessageBegin m.name .call 0
  let body ← writeStruct P m.args a
  return header ++ body

/-- `recv_` of a method. What it throws with the message read to its end is its value. -/
def recv (old : β) : Reader TException (Except TApplicationException β) := do
  let (fname, mtype, _) ← P.readMessageBegin
  if mtype = .exception then return .error (← P.readException)
  else
    if mtype ≠ .reply then P.skip .struct
    if fname ≠ m.name then P.skip .struct
    let result ← readStruct P m.result { success := old, isset := false }
    if m.void || result.isset then return .ok result.success
    else return .error ⟨.missingResult, m.name ++ literal " failed: unknown result"⟩

/-- The answer of `process_` of a method, after the handler has returned or thrown. -/
def answer (seqid : Int32) : Except ByteString β → Option ByteString
  | .error what => exceptionMessage P m.name seqid ⟨.unknown, what⟩
  | .ok value => do
    let header ← P.writeMessageBegin m.name .reply seqid
    let body ← writeStruct P m.result { success := value, isset := !m.void }
    return header ++ body

/-- `process_` of a method. It has no event handler. -/
def process (init : α) (iface : α → ς → Except ByteString β × ς) (seqid : Int32) (s : ς) :
    Reader TException (Option ByteString × ς) := do
  let args ← readStruct P m.args init
  let (outcome, s) := iface args s
  return (m.answer P seqid outcome, s)

end Method

/-! ## The methods of the services -/

namespace TisService

/-- `TisService.ping`. -/
def ping : Method Unit Unit where
  name := literal "ping"
  args := []
  result := []
  void := true

/-- `TisService.reloadModel`. -/
def reloadModel : Method Unit Int32 where
  name := literal "reloadModel"
  args := []
  result := [successI32 P]
  void := false

/-- `TisService.check`. -/
def check : Method RequestCheckStruct CheckResultStruct where
  name := literal "check"
  args := [structField P "req" 1 (RequestCheckStruct.fields P) (·) fun v _ => v]
  result := [successStruct P (CheckResultStruct.fields P)]
  void := false

end TisService

namespace IdentityServ

/-- `IdentityServ.GetIdentity`. -/
def getIdentity : Method ReqProto AckProto where
  name := literal "GetIdentity"
  args := [structField P "s" 1 (ReqProto.fields P) (·) fun v _ => v]
  result := [successStruct P (AckProto.fields P)]
  void := false

/-- `IdentityServ.StoreMessage`. -/
def storeMessage : Method ReqCheckResult Int32 where
  name := literal "StoreMessage"
  args := [structField P "s" 1 (ReqCheckResult.fields P) (·) fun v _ => v]
  result := [successI32 P]
  void := false

end IdentityServ

/-! ## Processors -/

/-- A handler of the moderation service. It throws a `std::exception` with a text. -/
structure TisServiceIf (ς : Type) where
  ping : ς → Except ByteString Unit × ς
  reloadModel : ς → Except ByteString Int32 × ς
  check : RequestCheckStruct → ς → Except ByteString CheckResultStruct × ς

/-- A handler of the storage service. -/
structure IdentityServIf (ς : Type) where
  getIdentity : ReqProto → ς → Except ByteString AckProto × ς
  storeMessage : ReqCheckResult → ς → Except ByteString Int32 × ς

/-- `ProcessMap`. -/
abbrev ProcessMap (ς : Type) :=
  List (ByteString × (Int32 → ς → Reader TException (Option ByteString × ς)))

/-- `TisServiceProcessor::processMap_`. -/
def TisServiceIf.processMap (iface : TisServiceIf ς) : ProcessMap ς :=
  [(literal "ping", TisService.ping.process P () fun _ => iface.ping),
    (literal "reloadModel", (TisService.reloadModel P).process P () fun _ => iface.reloadModel),
    (literal "check", (TisService.check P).process P ⟨0, 0, [], [], [], []⟩ iface.check)]

/-- `IdentityServProcessor::processMap_`. -/
def IdentityServIf.processMap (iface : IdentityServIf ς) : ProcessMap ς :=
  [(literal "GetIdentity", (IdentityServ.getIdentity P).process P ⟨0⟩ iface.getIdentity),
    (literal "StoreMessage", (IdentityServ.storeMessage P).process P
      ⟨[], 0, 0, 0, [], 0, 0, 0, 0, 0⟩ iface.storeMessage)]

/-- `dispatchCall`. -/
def dispatchCall (processMap : ProcessMap ς) (fname : ByteString) (seqid : Int32) (s : ς) :
    Reader TException (Option ByteString × ς) :=
  match processMap.lookup fname with
  | none => do
    P.skip .struct
    return (exceptionMessage P fname seqid
      ⟨.unknownMethod, literal "Invalid method name: '" ++ fname ++ literal "'"⟩, s)
  | some process => process seqid s

end

/-! ## One call -/

/-- The code of a method reads what it writes. -/
structure Method.Lawful (P : TProtocol) {α β : Type} (m : Method α β) : Prop where
  reads_args : ∀ {old a bytes}, writeStruct P m.args a = some bytes →
    (readStruct P m.args old).Reads bytes a
  skippable_args : ∀ {a bytes}, writeStruct P m.args a = some bytes →
    Skippable P.toTWriter 2 .struct bytes
  reads_result : ∀ {old value bytes},
    writeStruct P m.result { success := value, isset := !m.void } = some bytes →
    ∃ isset, (readStruct P m.result { success := old, isset := false }).Reads bytes
      { success := value, isset := isset } ∧ (m.void || isset) = true

section

variable {P : TProtocol} {α β ς : Type} {m : Method α β}

/-- What is sent is a header and the arguments. -/
theorem Method.send_eq_some {a : α} {request : ByteString} (h : m.send P a = some request) :
    ∃ header body, P.writeMessageBegin m.name .call 0 = some header ∧
      writeStruct P m.args a = some body ∧ request = header ++ body := by
  simp only [send, Option.bind_eq_bind, Option.bind_eq_some_iff] at h
  obtain ⟨header, hheader, body, hbody, hrequest⟩ := h
  exact ⟨header, body, hheader, hbody, (Option.some.inj hrequest).symm⟩

/-- A processor takes the arguments of a call and answers what its handler makes of them. -/
theorem Method.Lawful.reads_process (h : m.Lawful P) {init a : α} {body : ByteString}
    (hbody : writeStruct P m.args a = some body) (iface : α → ς → Except ByteString β × ς)
    (seqid : Int32) (s : ς) :
    (m.process P init iface seqid s).Reads body
      (m.answer P seqid (iface a s).1, (iface a s).2) :=
  (h.reads_args hbody).bind_pure _

/-- A client takes an exception from an answer. -/
theorem Method.reads_exceptionMessage {name reply : ByteString} {seqid : Int32}
    {x : TApplicationException} (hreply : exceptionMessage P name seqid x = some reply) (old : β) :
    (m.recv P old).Reads reply (.error x) := by
  simp only [exceptionMessage, Option.bind_eq_bind, Option.bind_eq_some_iff] at hreply
  obtain ⟨header, hheader, body, hbody, hreply⟩ := hreply
  obtain rfl := Option.some.inj hreply
  refine (P.reads_messageBegin hheader).bind ?_
  exact (P.reads_exception hbody).bind_pure _

/-- A client takes from an answer what the handler has returned or thrown. -/
theorem Method.Lawful.reads_answer (h : m.Lawful P) {outcome : Except ByteString β}
    {seqid : Int32} {reply : ByteString} (hreply : m.answer P seqid outcome = some reply)
    (old : β) :
    (m.recv P old).Reads reply (outcome.mapError fun what => ⟨.unknown, what⟩) := by
  cases outcome with
  | error what => exact reads_exceptionMessage hreply old
  | ok value =>
    simp only [answer, Option.bind_eq_bind, Option.bind_eq_some_iff] at hreply
    obtain ⟨header, hheader, body, hbody, hreply⟩ := hreply
    obtain rfl := Option.some.inj hreply
    obtain ⟨isset, hread, hisset⟩ := @h.reads_result old _ _ hbody
    refine (P.reads_messageBegin hheader).bind ?_
    simp only [reduceCtorEq, if_false, ne_eq, not_true_eq_false, bind_pure_comp]
    rw [← List.append_nil body]
    refine hread.bind ?_
    rw [if_pos hisset]
    exact reads_pure _

/-! ## The methods are lawful -/

/-- A struct without fields. -/
theorem schema_nil : Schema P 0 ([] : List (FieldSpec α)) where
  ids_nodup := List.nodup_nil
  lawful := nofun

/-- The arguments of a method without any. -/
theorem reads_noArgs {old a : Unit} {bytes : ByteString}
    (h : writeStruct P ([] : List (FieldSpec Unit)) a = some bytes) :
    (readStruct P ([] : List (FieldSpec Unit)) old).Reads bytes a :=
  schema_nil.reads_encodes (encodes_writeStruct (List.Subset.refl []) h) old

/-- A struct that is the only argument of a method. -/
theorem schema_argument (k : GeneratedStruct) {name : String} {id : Int16} :
    Schema P 1 [structField P name id (k.fields P) (·) fun v _ => v] where
  ids_nodup := List.nodup_singleton _
  lawful f hf := by
    obtain rfl := List.mem_singleton.mp hf
    exact lawful_structField (k.schema P) (k.members P) (k.present_eq_true P)

/-- The only argument is read back. -/
theorem reads_argument (k : GeneratedStruct) {name : String} {id : Int16} {old a : k.Carrier}
    {bytes : ByteString}
    (h : writeStruct P [structField P name id (k.fields P) (·) fun v _ => v] a = some bytes) :
    (readStruct P [structField P name id (k.fields P) (·) fun v _ => v] old).Reads bytes a :=
  (schema_argument k).reads_encodes (encodes_writeStruct (List.Subset.refl _) h) old

/-- A result is read back. -/
theorem reads_success {depth : ℕ} {f : FieldSpec (CallResult β)} (hlawful : f.Lawful P depth)
    (hset : ∀ value r, f.set (f.get { success := value, isset := true }) r =
      { success := value, isset := true }) {old value : β} {bytes : ByteString}
    (h : writeStruct P [successField f] { success := value, isset := true } = some bytes) :
    (readStruct P [successField f] { success := old, isset := false }).Reads bytes
      { success := value, isset := true } := by
  have hschema : Schema P depth [successField f] :=
    { ids_nodup := List.nodup_singleton _
      lawful := by
        intro g hg
        obtain rfl := List.mem_singleton.mp hg
        exact ⟨hlawful.type_ne_stop, hlawful.reads, hlawful.forward, hlawful.skippable⟩ }
  have hread := hschema.reads_encodes (encodes_writeStruct (List.Subset.refl _) h)
    { success := old, isset := false }
  have hresult := hset value { success := old, isset := false }
  rwa [← hresult]

/-- A method without a result. -/
theorem lawful_ping : TisService.ping.Lawful P where
  reads_args h := reads_noArgs h
  skippable_args h := (schema_nil.skippable_writeStruct (List.Subset.refl []) h).mono (by decide)
  reads_result h := ⟨false,
    schema_nil.reads_encodes (encodes_writeStruct (List.Subset.refl []) h) _, rfl⟩

/-- Arguments and results of `reloadModel` are read back. -/
theorem lawful_reloadModel : (TisService.reloadModel P).Lawful P where
  reads_args h := reads_noArgs h
  skippable_args h := (schema_nil.skippable_writeStruct (List.Subset.refl []) h).mono (by decide)
  reads_result h := ⟨true,
    reads_success (show FieldSpec.Lawful P 0 _ from lawful_i32Field P) (fun _ _ => rfl) h, rfl⟩

/-- Arguments and results of `check` are read back. -/
theorem lawful_check : (TisService.check P).Lawful P where
  reads_args h := reads_argument .requestCheckStruct h
  skippable_args h :=
    (schema_argument .requestCheckStruct).skippable_writeStruct (List.Subset.refl _) h
  reads_result h := ⟨true, reads_success
    (lawful_structField (GeneratedStruct.checkResultStruct.schema P)
      (GeneratedStruct.checkResultStruct.members P)
      (GeneratedStruct.checkResultStruct.present_eq_true P)) (fun _ _ => rfl) h, rfl⟩

/-- Arguments and results of `GetIdentity` are read back. -/
theorem lawful_getIdentity : (IdentityServ.getIdentity P).Lawful P where
  reads_args h := reads_argument .reqProto h
  skippable_args h := (schema_argument .reqProto).skippable_writeStruct (List.Subset.refl _) h
  reads_result h := ⟨true, reads_success
    (lawful_structField (GeneratedStruct.ackProto.schema P) (GeneratedStruct.ackProto.members P)
      (GeneratedStruct.ackProto.present_eq_true P)) (fun _ _ => rfl) h, rfl⟩

/-- Arguments and results of `StoreMessage` are read back. -/
theorem lawful_storeMessage : (IdentityServ.storeMessage P).Lawful P where
  reads_args h := reads_argument .reqCheckResult h
  skippable_args h := (schema_argument .reqCheckResult).skippable_writeStruct (List.Subset.refl _) h
  reads_result h := ⟨true,
    reads_success (show FieldSpec.Lawful P 0 _ from lawful_i32Field P) (fun _ _ => rfl) h, rfl⟩

end

end ThriftProxy
