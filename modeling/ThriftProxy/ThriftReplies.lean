import ThriftProxy.CheckReply
import ThriftProxy.ThriftCalls

/-!
# The bytes of a reply

The message that `recvCheck` is about, as it is in the bytes that come from the
moderation service. The generated client makes of any bytes what `recvCheck` makes of
the message in them.
-/

namespace ThriftProxy

open Wire Wire.Reader

/-! ## The message in a stream -/

section

variable (P : TProtocol) {α : Type}

/-- One field of a struct, behind those before it. -/
def collectRound (value : TType → Int16 → Reader TException α) (before : List (Int16 × α)) :
    Reader TException (List (Int16 × α) ⊕ List (Int16 × α)) := do
  let (ftype, fid) ← P.readFieldBegin
  if ftype = .stop then return .inr before
  else return .inl (before ++ [(fid, ← value ftype fid)])

/-- A struct that is complete. -/
def decodeStruct (value : TType → Int16 → Reader TException α) :
    Reader TException (WireStruct α) :=
  (fun fields => { fields := fields, complete := true }) <$> loop .other (collectRound P value) []

/-- The value of a field of a `CheckResultStruct`. -/
def decodeValue (ftype : TType) (_fid : Int16) : Reader TException FieldValue :=
  match ftype with
  | .i32 => .i32 <$> P.readI32
  | .string => .string <$> P.readString
  | ftype => (fun _ => .other) <$> P.skip ftype

/-- The value of a field of the result of `check`. Structs of other fields are skipped. -/
def decodeResultValue (ftype : TType) (fid : Int16) : Reader TException ResultValue :=
  if fid = 0 ∧ ftype = .struct then .struct <$> decodeStruct P (decodeValue P)
  else (fun _ => .other) <$> P.skip ftype

/-- The structs behind a header, with some to be skipped before the result. -/
def decodeStructs : ℕ → ByteString → List (WireStruct ResultValue)
  | 0, bytes =>
    match (decodeStruct P (decodeResultValue P)).run bytes with
    | .ok (wire, _) => [wire]
    | .error _ => [{ fields := [], complete := false }]
  | skipped + 1, bytes =>
    match (P.skip .struct).run bytes with
    | .ok (_, rest) => { fields := [], complete := true } :: decodeStructs skipped rest
    | .error _ => [{ fields := [], complete := false }]

/-- The type of a message. -/
def TMessageType.view : TMessageType → MessageType
  | reply => .reply
  | exception => .exception
  | _ => .other

/-- The message in a stream, if its header can be read. -/
def decodeMessage (bytes : ByteString) : Option WireMessage :=
  match P.readMessageBegin.run bytes with
  | .ok ((fname, mtype, _), rest) =>
    let msg : WireMessage :=
      { mtype := mtype.view
        fname := fname
        structs := [] }
    some { msg with structs := decodeStructs P msg.skipped rest }
  | .error _ => none

/-- What a client returns. It throws otherwise. -/
def returned {β : Type} :
    Except TException (Except TApplicationException β × ByteString) → Option β
  | .ok (.ok value, _) => some value
  | _ => none

end

/-! ## Readers and messages -/

section

variable {P : TProtocol} {σ α : Type}

/-- A generated reader goes through the fields of a struct. -/
theorem readStruct_eq {fields : List (FieldSpec σ)} {value : TType → Int16 → Reader TException α}
    {apply : σ → Int16 × α → σ}
    (h : ∀ s ftype fid,
      readCase P fields s ftype fid = (fun v => apply s (fid, v)) <$> value ftype fid) (s : σ) :
    readStruct P fields s = (fun wire => wire.fields.foldl apply s) <$> decodeStruct P value := by
  have hround : ∀ before : List (Int16 × α), readRound P fields (before.foldl apply s) =
      Sum.map (List.foldl apply s) (List.foldl apply s) <$> collectRound P value before := by
    intro before
    rw [readRound, collectRound, map_bind]
    congr 1
    funext header
    obtain ⟨ftype, fid⟩ := header
    dsimp only
    split
    · simp
    · simp [h, List.foldl_append]
  rw [decodeStruct, Functor.map_map]
  exact loop_map (List.foldl apply s) (List.foldl apply s) hround []

/-- The reader of a `CheckResultStruct` sets the field that has been read. -/
theorem readCase_checkResultStruct (res : CheckResultStruct) (ftype : TType) (fid : Int16) :
    readCase P (CheckResultStruct.fields P) res ftype fid =
      (fun v => res.readField (fid, v)) <$> decodeValue P ftype fid := by
  have hcases : fid = 5 ∨ (fid = 1 ∨ fid = 2 ∨ fid = 3 ∨ fid = 4) ∨
      (fid ≠ 1 ∧ fid ≠ 2 ∧ fid ≠ 3 ∧ fid ≠ 4 ∧ fid ≠ 5) := by tauto
  rcases hcases with rfl | hcode | ⟨h1, h2, h3, h4, h5⟩
  · cases ftype <;>
      simp [readCase, CheckResultStruct.fields, i32Field, stringField, decodeValue,
        CheckResultStruct.readField, P.skip_i32]
  · rcases hcode with rfl | rfl | rfl | rfl <;> cases ftype <;>
      simp [readCase, CheckResultStruct.fields, i32Field, stringField, decodeValue,
        CheckResultStruct.readField, P.skip_string]
  · cases ftype <;>
      simp [readCase, CheckResultStruct.fields, i32Field, stringField, decodeValue,
        CheckResultStruct.readField, P.skip_i32, P.skip_string, h1, h2, h3, h4, h5, h1.symm,
        h2.symm, h3.symm, h4.symm, h5.symm]

/-- A field of the result of `check`, as `CheckPresult` takes it when it is complete. -/
def CallResult.readField (result : CallResult CheckResultStruct) (field : Int16 × ResultValue) :
    CallResult CheckResultStruct :=
  match field.2 with
  | .struct reply =>
    if field.1 = 0 then
      { success := reply.fields.foldl CheckResultStruct.readField result.success
        isset := true }
    else result
  | .other => result

/-- The reader of the result sets what has been read. -/
theorem readCase_result (result : CallResult CheckResultStruct) (ftype : TType) (fid : Int16) :
    readCase P [successStruct P (CheckResultStruct.fields P)] result ftype fid =
      (fun v => result.readField (fid, v)) <$> decodeResultValue P ftype fid := by
  by_cases hfid : 0 = fid
  · subst hfid
    by_cases htype : ftype = .struct
    · subst htype
      simp [readCase, successStruct, successField, structField, decodeResultValue,
        CallResult.readField, readStruct_eq readCase_checkResultStruct]
    · simp [readCase, successStruct, successField, structField, decodeResultValue,
        CallResult.readField, htype]
  · simp [readCase, successStruct, successField, structField, decodeResultValue,
      CallResult.readField, hfid, Ne.symm hfid]

/-- The fields of a result, one after another. -/
theorem foldl_readField_result (result : CallResult CheckResultStruct)
    (fields : List (Int16 × ResultValue)) :
    fields.foldl CallResult.readField result =
      { success := (fields.flatMap successFields).foldl CheckResultStruct.readField result.success
        isset := result.isset || fields.any isSuccess } := by
  induction fields generalizing result with
  | nil => simp
  | cons field fields ih =>
    obtain ⟨number, value⟩ := field
    rw [List.foldl_cons, ih]
    cases value with
    | other => simp [CallResult.readField, successFields, isSuccess]
    | struct reply =>
      by_cases hnumber : number = 0
      · simp [CallResult.readField, successFields, isSuccess, hnumber, List.foldl_append]
      · simp [CallResult.readField, successFields, isSuccess, hnumber]

/-- What is decoded is complete. -/
theorem complete_of_decodeStruct {value : TType → Int16 → Reader TException α}
    {bytes rest : ByteString} {wire : WireStruct α}
    (h : (decodeStruct P value).run bytes = .ok (wire, rest)) : wire.complete = true := by
  rw [decodeStruct, ← bind_pure_comp, run_bind_eq_ok_iff] at h
  obtain ⟨fields, rest', -, hpure⟩ := h
  cases hpure
  rfl

/-- A result that is decoded can be read. -/
theorem readable_of_decodeStruct {bytes rest : ByteString} {wire : WireStruct ResultValue}
    (h : (decodeStruct P (decodeResultValue P)).run bytes = .ok (wire, rest)) :
    wire.readable = true := by
  have hcomplete := complete_of_decodeStruct h
  rw [decodeStruct, ← bind_pure_comp, run_bind_eq_ok_iff] at h
  obtain ⟨fields, rest', hloop, hpure⟩ := h
  cases hpure
  rw [WireStruct.readable, hcomplete, Bool.true_and]
  refine loop_invariant (I := fun fields => fields.all fun field => field.2.readable)
    (Q := fun fields => fields.all fun field => field.2.readable) ?_ rfl hloop
  intro before hbefore bytes next rest hround
  rw [collectRound, run_bind_eq_ok_iff] at hround
  obtain ⟨⟨ftype, fid⟩, rest₁, -, hround⟩ := hround
  dsimp only at hround
  split at hround
  · cases hround
    exact hbefore
  · rw [run_bind_eq_ok_iff] at hround
    obtain ⟨v, rest₂, hvalue, hround⟩ := hround
    cases hround
    have hv : v.readable = true := by
      rw [decodeResultValue] at hvalue
      split at hvalue
      · rw [← bind_pure_comp, run_bind_eq_ok_iff] at hvalue
        obtain ⟨reply, rest₃, hreply, hpure⟩ := hvalue
        cases hpure
        exact complete_of_decodeStruct hreply
      · rw [← bind_pure_comp, run_bind_eq_ok_iff] at hvalue
        obtain ⟨u, rest₃, -, hpure⟩ := hvalue
        cases hpure
        rfl
    change ((before ++ [(fid, v)]).all fun field => field.2.readable) = true
    rw [List.all_append, hbefore]
    simpa using hv

/-! ## The client -/

/-- The result that `recvCheck` takes from the first of the structs. -/
def firstResult (old : CheckResultStruct) (structs : List (WireStruct ResultValue)) :
    Option CheckResultStruct :=
  structs.head?.bind fun wire =>
    (CheckPresult.read { success := old, isset := false } wire).bind fun result =>
      if result.isset then some result.success else none

/-- What the client makes of the result at the front of a stream. -/
theorem returned_result (old : CheckResultStruct) (name bytes : ByteString) :
    returned ((do
        let result ← readStruct P [successStruct P (CheckResultStruct.fields P)]
          { success := old, isset := false }
        if false || result.isset then return .ok result.success
        else return .error ⟨.missingResult, name ++ literal " failed: unknown result"⟩ :
          Reader TException (Except TApplicationException CheckResultStruct)).run bytes) =
      firstResult old (decodeStructs P 0 bytes) := by
  rw [firstResult, readStruct_eq readCase_result, decodeStructs]
  simp only [StateT.run_bind, StateT.run_map]
  cases hrun : (decodeStruct P (decodeResultValue P)).run bytes with
  | error e =>
    simp [CheckPresult.read_eq, WireStruct.readable, returned]
    rfl
  | ok result =>
    obtain ⟨wire, rest⟩ := result
    simp only [List.head?_cons, Option.bind_some, CheckPresult.read_eq,
      readable_of_decodeStruct hrun, if_true]
    change returned (StateT.run (if _ then _ else _) rest) = _
    simp only [foldl_readField_result, Bool.false_or]
    by_cases hisset : wire.fields.any isSuccess = true
    · rw [if_pos hisset, if_pos hisset]
      rfl
    · rw [if_neg hisset, if_neg hisset]
      rfl

/-- What the client makes of what is behind a struct that it skips. -/
theorem returned_skip {β : Type} {next : Reader TException (Except TApplicationException β)}
    {f : List (WireStruct ResultValue) → Option β} {skipped : ℕ}
    (h : ∀ bytes, returned (next.run bytes) = f (decodeStructs P skipped bytes))
    (bytes : ByteString) :
    returned ((do P.skip .struct; next).run bytes) =
      (skipStruct (decodeStructs P (skipped + 1) bytes)).bind f := by
  rw [StateT.run_bind, decodeStructs]
  cases (P.skip .struct).run bytes with
  | error e => rfl
  | ok result => exact h result.2

/-- The type of a message that is not an exception. -/
theorem TMessageType.view_eq_iff (mtype : TMessageType) :
    (mtype.view = .reply ↔ mtype = .reply) ∧ (mtype.view = .exception ↔ mtype = .exception) := by
  cases mtype <;> simp [view]

/-- **The client on bytes is the client on messages.** Whatever bytes come from the
moderation service, and however they go wrong, `recv_check` returns what `recvCheck`
returns on the message in them, and throws where it gives none. -/
theorem recv_check_eq_recvCheck (P : TProtocol) (old : CheckResultStruct) (bytes : ByteString) :
    returned (((TisService.check P).recv P old).run bytes) =
      recvCheck old (decodeMessage P bytes) := by
  rw [Method.recv, StateT.run_bind, decodeMessage]
  cases hheader : P.readMessageBegin.run bytes with
  | error e => rfl
  | ok result =>
    obtain ⟨⟨fname, mtype, seqid⟩, rest⟩ := result
    by_cases hexception : mtype = .exception
    · subst hexception
      have hnone : ∀ r : Except TException (TApplicationException × ByteString),
          returned (r.bind fun x => .ok (.error (α := CheckResultStruct) x.1, x.2)) = none := by
        rintro (e | x)
        · rfl
        · rfl
      exact hnone _
    have hname : (TisService.check P).name = literal "check" := rfl
    have hbehind := returned_result (P := P) old (literal "check")
    have hskipped := returned_skip (f := firstResult old) hbehind
    have htwice := returned_skip
      (f := fun structs => (skipStruct structs).bind (firstResult old)) hskipped
    change returned (StateT.run (if mtype = .exception then _ else _) rest) = _
    rw [if_neg hexception]
    simp only [recvCheck, Option.bind_eq_bind, Option.bind_some, mtype.view_eq_iff, hexception,
      if_false, WireMessage.skipped, hname]
    by_cases hreply : mtype = .reply
    · by_cases hcheck : fname = literal "check"
      · simp only [hreply, hcheck, ne_eq, not_true_eq_false, if_false, if_true]
        exact hbehind rest
      · simp only [hreply, hcheck, ne_eq, not_true_eq_false, not_false_eq_true, if_false, if_true]
        exact hskipped rest
    · by_cases hcheck : fname = literal "check"
      · simp only [hreply, hcheck, ne_eq, not_true_eq_false, not_false_eq_true, if_false, if_true]
        exact hskipped rest
      · simp only [hreply, hcheck, ne_eq, not_false_eq_true, if_false, if_true]
        exact htwice rest

end

end ThriftProxy
