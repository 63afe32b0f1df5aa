import ThriftProxy.HandlerProtocol
import ThriftProxy.HandlerRequests
import Mathlib.Data.List.Basic

/-!
# The reply of the moderation service

How `recv_check` and the generated readers below it take the result of `check` from a
message, and what `tisProtoHandler` makes of it. Fields that are missing or of a wrong
type leave the defaults in place, and the defaults of `code` and `action` mean a clean
message.
-/

namespace ThriftProxy

open Machine Effect Program

/-! ## Messages -/

/-- The value of a field of a `CheckResultStruct`. -/
inductive FieldValue
  /-- A value of type `T_I32`. -/
  | i32 (value : Int32)
  /-- A value of type `T_STRING`. -/
  | string (value : ByteString)
  /-- A value of another type. -/
  | other
  deriving DecidableEq

/-- A struct as it comes over the wire: fields with their numbers, in any order, and
whether they are read up to `T_STOP`. Otherwise reading or skipping the next one throws. -/
structure WireStruct (α : Type) where
  /-- The fields that can be read. -/
  fields : List (Int16 × α)
  /-- Whether `T_STOP` follows. -/
  complete : Bool

/-- The value of a field of the result of `check`. -/
inductive ResultValue
  /-- A value of type `T_STRUCT`. -/
  | struct (reply : WireStruct FieldValue)
  /-- A value of another type. -/
  | other

/-- The type of a message. -/
inductive MessageType
  /-- `T_REPLY`. -/
  | reply
  /-- `T_EXCEPTION`. -/
  | exception
  /-- Any other type. -/
  | other
  deriving DecidableEq

/-- A message whose header has been read, and the structs that follow it. -/
structure WireMessage where
  /-- `mtype`. -/
  mtype : MessageType
  /-- `fname`. -/
  fname : ByteString
  /-- The structs behind the header. -/
  structs : List (WireStruct ResultValue)

/-! ## The generated readers -/

/-- `CheckResultStruct()`. -/
def CheckResultStruct.init : CheckResultStruct :=
  { code := 0, action := 0, label := 0, level := 0, detail := [] }

namespace CheckResultStruct

/-- One round of the loop of `CheckResultStruct::read`. -/
def readField (res : CheckResultStruct) (field : Int16 × FieldValue) : CheckResultStruct :=
  match field.2 with
  | .i32 value =>
    if field.1 = 1 then { res with code := value }
    else if field.1 = 2 then { res with action := value }
    else if field.1 = 3 then { res with label := value }
    else if field.1 = 4 then { res with level := value }
    else res
  | .string value => if field.1 = 5 then { res with detail := value } else res
  | .other => res

/-- `CheckResultStruct::read`. -/
def read (res : CheckResultStruct) (reply : WireStruct FieldValue) : Option CheckResultStruct :=
  if reply.complete then some (reply.fields.foldl readField res) else none

end CheckResultStruct

/-- `TisService_check_presult`, with what `success` points to. -/
structure CheckPresult where
  /-- `*success`. -/
  success : CheckResultStruct
  /-- `__isset.success`. -/
  isset : Bool

namespace CheckPresult

/-- One round of the loop of `TisService_check_presult::read`. -/
def readField (result : CheckPresult) (field : Int16 × ResultValue) : Option CheckPresult :=
  match field.2 with
  | .struct reply =>
    if field.1 = 0 then
      (result.success.read reply).map fun success => { success := success, isset := true }
    else if reply.complete then some result
    else none
  | .other => some result

/-- `TisService_check_presult::read`. -/
def read (result : CheckPresult) (wire : WireStruct ResultValue) : Option CheckPresult := do
  let result ← wire.fields.foldlM readField result
  if wire.complete then some result else none

end CheckPresult

/-- Whether the value of a field can be read or skipped. -/
def ResultValue.readable : ResultValue → Bool
  | .struct reply => reply.complete
  | .other => true

/-- A struct can be read if it is complete. -/
@[simp] theorem ResultValue.readable_struct (reply : WireStruct FieldValue) :
    (ResultValue.struct reply).readable = reply.complete := rfl

/-- A value that is skipped can be read. -/
@[simp] theorem ResultValue.readable_other : ResultValue.other.readable = true := rfl

/-- Whether a struct can be read or skipped. -/
def WireStruct.readable (wire : WireStruct ResultValue) : Bool :=
  wire.complete && wire.fields.all fun field => field.2.readable

/-- `skip(T_STRUCT)`: the structs behind the first one. -/
def skipStruct : List (WireStruct ResultValue) → Option (List (WireStruct ResultValue))
  | [] => none
  | wire :: rest => if wire.readable then some rest else none

/-- `TisServiceClient::check` from the header of the answer on, with the struct that
`_return` refers to. There is no message if sending the request or reading the header
throws. A message of another type or name is skipped, and what follows it is read. -/
def recvCheck (res : CheckResultStruct) (message : Option WireMessage) :
    Option CheckResultStruct := do
  let msg ← message
  if msg.mtype = .exception then none
  else
    let structs ← if msg.mtype = .reply then some msg.structs else skipStruct msg.structs
    let structs ← if msg.fname = literal "check" then some structs else skipStruct structs
    let wire ← structs.head?
    let result ← CheckPresult.read { success := res, isset := false } wire
    if result.isset then some result.success else none

/-! ## What a message says -/

/-- The integer in a field, if it has this number and the type `T_I32`. -/
def i32At (number : Int16) (field : Int16 × FieldValue) : Option Int32 :=
  match field.2 with
  | .i32 value => if field.1 = number then some value else none
  | _ => none

/-- The last value of the well-typed fields with a number. -/
def lastI32 (number : Int16) (fields : List (Int16 × FieldValue)) : Option Int32 :=
  (fields.filterMap (i32At number)).getLast?

/-- The fields of the result in a field of the struct around it. -/
def successFields (field : Int16 × ResultValue) : List (Int16 × FieldValue) :=
  match field.2 with
  | .struct reply => if field.1 = 0 then reply.fields else []
  | .other => []

/-- Whether a field is a result. -/
def isSuccess (field : Int16 × ResultValue) : Bool :=
  match field.2 with
  | .struct _ => field.1 = 0
  | .other => false

namespace WireMessage

variable (msg : WireMessage)

/-- How many structs are skipped. -/
def skipped : ℕ :=
  (if msg.mtype = .reply then 0 else 1) + if msg.fname = literal "check" then 0 else 1

/-- The fields of the result, in their order. -/
def replyFields : List (Int16 × FieldValue) :=
  match msg.structs[msg.skipped]? with
  | none => []
  | some wire => wire.fields.flatMap successFields

/-- The message holds a result and can be read up to its end. -/
def Accepted : Prop :=
  msg.mtype ≠ .exception ∧ (∀ wire ∈ msg.structs.take msg.skipped, wire.readable) ∧
    ∃ wire, msg.structs[msg.skipped]? = some wire ∧ wire.readable ∧ wire.fields.any isSuccess

end WireMessage

/-- The last value of an integer field behind a further field. -/
theorem lastI32_cons (number : Int16) (field : Int16 × FieldValue)
    (fields : List (Int16 × FieldValue)) (default : Int32) :
    (lastI32 number (field :: fields)).getD default =
      (lastI32 number fields).getD ((i32At number field).getD default) := by
  unfold lastI32
  cases hvalue : i32At number field with
  | none => rw [List.filterMap_cons_none hvalue, Option.getD_none]
  | some value => rw [List.filterMap_cons_some hvalue, List.getLast?_cons]; rfl

namespace CheckResultStruct

/-- The code behind one field. -/
theorem code_readField (res : CheckResultStruct) (field : Int16 × FieldValue) :
    (res.readField field).code = (i32At 1 field).getD res.code := by
  obtain ⟨number, value⟩ := field
  cases value with
  | i32 value =>
    simp only [readField, i32At]
    split_ifs <;> rfl
  | string value =>
    simp only [readField, i32At]
    split_ifs <;> rfl
  | other => rfl

/-- The action behind one field. -/
theorem action_readField (res : CheckResultStruct) (field : Int16 × FieldValue) :
    (res.readField field).action = (i32At 2 field).getD res.action := by
  obtain ⟨number, value⟩ := field
  cases value with
  | i32 value =>
    simp only [readField, i32At]
    by_cases hcode : number = 1
    · subst hcode
      rfl
    · rw [if_neg hcode]
      split_ifs <;> rfl
  | string value =>
    simp only [readField, i32At]
    split_ifs <;> rfl
  | other => rfl

/-- A member that every field with a number sets ends with the last value of these fields. -/
theorem foldl_readField {member : CheckResultStruct → Int32} {number : Int16}
    (hfield : ∀ res field, member (readField res field) = (i32At number field).getD (member res))
    (res : CheckResultStruct) (fields : List (Int16 × FieldValue)) :
    member (fields.foldl readField res) = (lastI32 number fields).getD (member res) := by
  induction fields generalizing res with
  | nil => rfl
  | cons field fields ih => rw [List.foldl_cons, ih, lastI32_cons, hfield]

end CheckResultStruct

namespace CheckPresult

/-- Reading the fields of a result. -/
theorem foldlM_readField (result : CheckPresult) (fields : List (Int16 × ResultValue)) :
    fields.foldlM readField result =
      if fields.all fun field => field.2.readable then
        some
          { success := (fields.flatMap successFields).foldl CheckResultStruct.readField
              result.success
            isset := result.isset || fields.any isSuccess }
      else none := by
  induction fields generalizing result with
  | nil => simp
  | cons field fields ih =>
    obtain ⟨number, value⟩ := field
    rw [List.foldlM_cons]
    cases value with
    | other =>
      have hfield : result.readField (number, .other) = some result := rfl
      rw [hfield, Option.bind_eq_bind, Option.bind_some, ih, List.all_cons,
        ResultValue.readable_other, Bool.true_and]
      simp [successFields, isSuccess]
    | struct reply =>
      cases hcomplete : reply.complete with
      | false =>
        have hfield : result.readField (number, .struct reply) = none := by
          simp [readField, CheckResultStruct.read, hcomplete]
        rw [hfield, Option.bind_eq_bind, Option.bind_none]
        simp [hcomplete]
      | true =>
        have hall : (((number, .struct reply) :: fields).all fun field => field.2.readable) =
            fields.all fun field => field.2.readable := by
          rw [List.all_cons, ResultValue.readable_struct, hcomplete, Bool.true_and]
        by_cases hnumber : number = 0
        · have hfield : result.readField (number, .struct reply) =
              some { success := reply.fields.foldl CheckResultStruct.readField result.success
                     isset := true } := by
            simp [readField, CheckResultStruct.read, hcomplete, hnumber]
          rw [hfield, Option.bind_eq_bind, Option.bind_some, ih, hall]
          simp [successFields, isSuccess, hnumber, List.foldl_append]
        · have hfield : result.readField (number, .struct reply) = some result := by
            simp [readField, hcomplete, hnumber]
          rw [hfield, Option.bind_eq_bind, Option.bind_some, ih, hall]
          simp [successFields, isSuccess, hnumber]

/-- Reading a result. -/
theorem read_eq (result : CheckPresult) (wire : WireStruct ResultValue) :
    result.read wire =
      if wire.readable then
        some
          { success := (wire.fields.flatMap successFields).foldl CheckResultStruct.readField
              result.success
            isset := result.isset || wire.fields.any isSuccess }
      else none := by
  rw [read, foldlM_readField, WireStruct.readable]
  by_cases hfields : wire.fields.all fun field => field.2.readable
  · by_cases hcomplete : wire.complete
    · simp [hfields, hcomplete]
    · simp [hfields, hcomplete]
  · simp [hfields]

end CheckPresult

/-- What is done behind a skipped struct. -/
theorem skipStruct_bind_eq_some_iff {β : Type} {structs : List (WireStruct ResultValue)}
    {next : List (WireStruct ResultValue) → Option β} {result : β} :
    (skipStruct structs).bind next = some result ↔
      ∃ wire rest, structs = wire :: rest ∧ wire.readable ∧ next rest = some result := by
  cases structs with
  | nil => simp [skipStruct]
  | cons wire rest =>
    rw [skipStruct]
    by_cases hreadable : wire.readable
    · simp [hreadable]
    · simp [hreadable]

/-- The result that is taken from the first of the structs. -/
theorem readFirst_eq_some_iff {res res' : CheckResultStruct}
    {structs : List (WireStruct ResultValue)} :
    (structs.head?.bind fun wire =>
        (CheckPresult.read { success := res, isset := false } wire).bind fun result =>
          if result.isset then some result.success else none) = some res' ↔
      ∃ wire, structs[0]? = some wire ∧ wire.readable ∧ wire.fields.any isSuccess ∧
        res' = (wire.fields.flatMap successFields).foldl CheckResultStruct.readField res := by
  cases structs with
  | nil => simp
  | cons wire rest =>
    simp only [List.head?_cons, Option.bind_some, CheckPresult.read_eq, List.getElem?_cons_zero,
      Option.some.injEq, exists_eq_left']
    by_cases hreadable : wire.readable
    · by_cases hsuccess : wire.fields.any isSuccess
      · simp only [hreadable, hsuccess, if_true, Option.bind_some, Bool.or_true, true_and,
          Option.some.injEq, eq_comm]
      · simp [hreadable, hsuccess]
    · simp [hreadable]

/-- The structs that are skipped, and the result behind them. -/
theorem readBehind_eq_some_iff {res res' : CheckResultStruct}
    {structs : List (WireStruct ResultValue)} {msg : WireMessage} (hstructs : msg.structs = structs)
    (hmtype : msg.mtype ≠ .exception) :
    msg.Accepted ∧ res' = msg.replyFields.foldl CheckResultStruct.readField res ↔
      (∀ wire ∈ structs.take msg.skipped, wire.readable) ∧
        ∃ wire, structs[msg.skipped]? = some wire ∧ wire.readable ∧ wire.fields.any isSuccess ∧
          res' = (wire.fields.flatMap successFields).foldl CheckResultStruct.readField res := by
  rw [WireMessage.Accepted, WireMessage.replyFields, hstructs]
  constructor
  · rintro ⟨⟨-, hskipped, wire, hwire, hreadable, hsuccess⟩, hres⟩
    rw [hwire] at hres
    exact ⟨hskipped, wire, hwire, hreadable, hsuccess, hres⟩
  · rintro ⟨hskipped, wire, hwire, hreadable, hsuccess, hres⟩
    refine ⟨⟨hmtype, hskipped, wire, hwire, hreadable, hsuccess⟩, ?_⟩
    rw [hwire]
    exact hres

/-- The result that is taken behind a skipped struct. -/
theorem readSecond_eq_some_iff {res res' : CheckResultStruct}
    {structs : List (WireStruct ResultValue)} :
    ((skipStruct structs).bind fun structs =>
        structs.head?.bind fun wire =>
          (CheckPresult.read { success := res, isset := false } wire).bind fun result =>
            if result.isset then some result.success else none) = some res' ↔
      (∀ wire ∈ structs.take 1, wire.readable) ∧
        ∃ wire, structs[1]? = some wire ∧ wire.readable ∧ wire.fields.any isSuccess ∧
          res' = (wire.fields.flatMap successFields).foldl CheckResultStruct.readField res := by
  rw [skipStruct_bind_eq_some_iff]
  simp only [readFirst_eq_some_iff]
  cases structs with
  | nil => simp
  | cons wire rest => simp

/-- `check` returns if its answer is accepted, with what the fields of the result say. -/
theorem recvCheck_eq_some_iff {res res' : CheckResultStruct} {msg : WireMessage} :
    recvCheck res (some msg) = some res' ↔
      msg.Accepted ∧ res' = msg.replyFields.foldl CheckResultStruct.readField res := by
  by_cases hexception : msg.mtype = .exception
  · have hnot : ¬ msg.Accepted := fun h => h.1 hexception
    simp [recvCheck, hexception, hnot]
  rw [readBehind_eq_some_iff rfl hexception]
  simp only [recvCheck, WireMessage.skipped, Option.bind_eq_bind, Option.bind_some,
    if_neg hexception]
  by_cases hreply : msg.mtype = .reply
  · by_cases hname : msg.fname = literal "check"
    · simp [hreply, hname, readFirst_eq_some_iff]
    · simp only [hreply, hname, if_true, if_false, readSecond_eq_some_iff]
  · by_cases hname : msg.fname = literal "check"
    · simp only [hreply, hname, if_true, if_false, readSecond_eq_some_iff]
    · simp only [hreply, hname, if_false]
      rw [skipStruct_bind_eq_some_iff]
      simp only [readSecond_eq_some_iff]
      cases msg.structs with
      | nil => simp
      | cons wire rest => simp [and_assoc]

end ThriftProxy
