import ThriftProxy.ThriftProtocol

/-!
# The binary protocol

The encoding that the services use: big-endian integers, strings behind their length,
and fields behind their type and number. It has the laws of a protocol.
-/

namespace ThriftProxy.Binary

open Wire Wire.Reader Machine

/-! ## Integers and strings -/

/-- The bytes of a number, most significant first. -/
def encodeBE (width value : ℕ) : ByteString := (encodeLE width value).reverse

/-- The next bytes of the stream. -/
def take (count : ℕ) : Reader TException ByteString := fun bytes =>
  if count ≤ bytes.length then .ok (bytes.take count, bytes.drop count) else .error .other

/-- The next number of the stream. -/
def readBE (width : ℕ) : Reader TException ℕ := (fun bytes => decodeLE bytes.reverse) <$> take width

/-- The bytes at hand are taken. -/
theorem reads_take (bytes : ByteString) : (take bytes.length).Reads bytes bytes := by
  intro rest
  change (if _ then _ else _) = _
  rw [if_pos (by simp), List.take_left, List.drop_left]

/-- A number is read back. -/
theorem reads_readBE {width value : ℕ} (h : value < 256 ^ width) :
    (readBE width).Reads (encodeBE width value) value := by
  have htake := (reads_take (encodeBE width value)).map fun bytes => decodeLE bytes.reverse
  rwa [encodeBE, List.length_reverse, length_encodeLE, List.reverse_reverse, decodeLE_encodeLE,
    Nat.mod_eq_of_lt h] at htake

/-- Taking bytes goes forward. -/
theorem take_eq_ok {count : ℕ} {bytes taken rest : ByteString}
    (h : (take count).run bytes = .ok (taken, rest)) : rest.length + count = bytes.length := by
  change (if _ then _ else _) = _ at h
  split at h
  · cases h
    rw [List.length_drop]
    omega
  · cases h

/-- Taking bytes only moves forward. -/
theorem forward_take (count : ℕ) : (take count).Forward := by
  intro bytes taken rest h
  have hlen := take_eq_ok h
  omega

/-- Reading a number only moves forward. -/
theorem forward_readBE (width : ℕ) : (readBE width).Forward := (forward_take width).map _

/-- A number of at least one byte uses up input. -/
theorem consumes_readBE {width : ℕ} (h : 0 < width) : (readBE width).Consumes := by
  intro bytes value rest hrun
  rw [readBE, ← bind_pure_comp, run_bind_eq_ok_iff] at hrun
  obtain ⟨taken, rest', htake, hpure⟩ := hrun
  cases hpure
  have hlen := take_eq_ok htake
  omega

/-- `writeByte`. -/
def writeByte (value : Int8) : ByteString := encodeBE 1 value.toUInt8.toNat

/-- `readByte`. -/
def readByte : Reader TException Int8 := (fun n => (UInt8.ofNat n).toInt8) <$> readBE 1

/-- `writeI16`. -/
def writeI16 (value : Int16) : ByteString := encodeBE 2 value.toUInt16.toNat

/-- `readI16`. -/
def readI16 : Reader TException Int16 := (fun n => (UInt16.ofNat n).toInt16) <$> readBE 2

/-- `writeI32`. -/
def writeI32 (value : Int32) : ByteString := encodeBE 4 value.toUInt32.toNat

/-- `readI32`. -/
def readI32 : Reader TException Int32 := (fun n => (UInt32.ofNat n).toInt32) <$> readBE 4

/-- A byte is read back. -/
theorem reads_byte (value : Int8) : readByte.Reads (writeByte value) value := by
  have hnat : (readBE 1).Reads (writeByte value) value.toUInt8.toNat :=
    reads_readBE value.toUInt8.toNat_lt
  have h := hnat.map fun n => (UInt8.ofNat n).toInt8
  rwa [UInt8.ofNat_toNat, Int8.toInt8_toUInt8] at h

/-- An `i16` is read back. -/
theorem reads_i16 (value : Int16) : readI16.Reads (writeI16 value) value := by
  have hnat : (readBE 2).Reads (writeI16 value) value.toUInt16.toNat :=
    reads_readBE value.toUInt16.toNat_lt
  have h := hnat.map fun n => (UInt16.ofNat n).toInt16
  rwa [UInt16.ofNat_toNat, Int16.toInt16_toUInt16] at h

/-- An `i32` is read back. -/
theorem reads_i32 (value : Int32) : readI32.Reads (writeI32 value) value := by
  have hnat : (readBE 4).Reads (writeI32 value) value.toUInt32.toNat :=
    reads_readBE value.toUInt32.toNat_lt
  have h := hnat.map fun n => (UInt32.ofNat n).toInt32
  rwa [UInt32.ofNat_toNat, Int32.toInt32_toUInt32] at h

/-- `writeString`. -/
def writeString (value : ByteString) : Option ByteString :=
  if value.length < 2 ^ 31 then some (encodeBE 4 value.length ++ value) else none

/-- `readString`: a negative size throws. -/
def readString : Reader TException ByteString := do
  let size ← readBE 4
  if size < 2 ^ 31 then take size else throw .other

/-- A string that can be written is read back. -/
theorem reads_string {value bytes : ByteString} (h : writeString value = some bytes) :
    readString.Reads bytes value := by
  obtain ⟨hlen, hbytes⟩ := Option.ite_none_right_eq_some.mp h
  obtain rfl := Option.some.inj hbytes
  have hsize : (readBE 4).Reads (encodeBE 4 value.length) value.length := reads_readBE (by omega)
  refine hsize.bind ?_
  rw [if_pos hlen]
  exact reads_take value

/-- A reader that throws moves nowhere. -/
theorem forward_throw {α : Type} (e : TException) : Forward (throw e : Reader TException α) :=
  fun _ _ _ h => nomatch h

/-- Reading a string only moves forward. -/
theorem forward_string : readString.Forward := by
  refine (forward_readBE 4).bind fun size => ?_
  split
  · exact forward_take size
  · exact forward_throw _

/-! ## Fields and messages -/

/-- The code of a type. -/
def typeCode : TType → UInt8
  | .stop => 0
  | .byte => 3
  | .i32 => 8
  | .string => 11
  | .struct => 12
  | .other code => code

/-- The type of a code. -/
def typeOf (code : UInt8) : TType :=
  if code = 0 then .stop
  else if code = 3 then .byte
  else if code = 8 then .i32
  else if code = 11 then .string
  else if code = 12 then .struct
  else .other code

/-- `writeFieldBegin`: the name is not written. -/
def writeFieldBegin (_name : ByteString) (type : TType) (id : Int16) : Option ByteString :=
  if typeOf (typeCode type) = type then some (encodeBE 1 (typeCode type).toNat ++ writeI16 id)
  else none

/-- `writeFieldStop`. -/
def writeFieldStop : ByteString := encodeBE 1 0

/-- `readFieldBegin`. -/
def readFieldBegin : Reader TException (TType × Int16) := do
  let code ← readBE 1
  if typeOf (UInt8.ofNat code) = .stop then return (.stop, 0)
  else return (typeOf (UInt8.ofNat code), ← readI16)

/-- The header of a field is read back. -/
theorem reads_fieldBegin (name : ByteString) {type : TType} {id : Int16} {bytes : ByteString}
    (hstop : type ≠ .stop) (h : writeFieldBegin name type id = some bytes) :
    readFieldBegin.Reads bytes (type, id) := by
  obtain ⟨htype, hbytes⟩ := Option.ite_none_right_eq_some.mp h
  obtain rfl := Option.some.inj hbytes
  have hcode : (readBE 1).Reads (encodeBE 1 (typeCode type).toNat) (typeCode type).toNat :=
    reads_readBE (typeCode type).toNat_lt
  refine hcode.bind ?_
  rw [UInt8.ofNat_toNat, htype, if_neg hstop]
  exact (reads_i16 id).map fun id => (type, id)

/-- The end of the fields is read back. -/
theorem reads_fieldStop : readFieldBegin.Reads writeFieldStop (.stop, 0) := by
  have hcode : (readBE 1).Reads (encodeBE 1 0) 0 := reads_readBE (by decide)
  rw [writeFieldStop, ← List.append_nil (encodeBE 1 0)]
  exact hcode.bind (reads_pure _)

/-- The header of a field uses up input. -/
theorem consumes_fieldBegin : readFieldBegin.Consumes := by
  refine (consumes_readBE (by decide)).bind fun code => ?_
  split
  · exact forward_pure _
  · exact ((forward_readBE 2).map _).bind fun id => forward_pure _

/-- The code of a type of messages. -/
def messageCode : TMessageType → UInt8
  | .call => 1
  | .reply => 2
  | .exception => 3
  | .other code => code

/-- The type of messages of a code. -/
def messageTypeOf (code : UInt8) : TMessageType :=
  if code = 1 then .call
  else if code = 2 then .reply
  else if code = 3 then .exception
  else .other code

/-- `VERSION_1` in the upper half of a word. -/
def version1 : ℕ := 0x8001

/-- `writeMessageBegin`, with the version. -/
def writeMessageBegin (name : ByteString) (type : TMessageType) (seqid : Int32) :
    Option ByteString := do
  let name ← writeString name
  if messageTypeOf (messageCode type) = type then
    some (encodeBE 4 (version1 * 2 ^ 16 + (messageCode type).toNat) ++ (name ++ writeI32 seqid))
  else none

/-- `readMessageBegin`: a word that is not negative is the size of the name in a message
without a version. -/
def readMessageBegin : Reader TException (ByteString × TMessageType × Int32) := do
  let word ← readBE 4
  if word < 2 ^ 31 then
    let name ← take word
    let code ← readBE 1
    return (name, messageTypeOf (UInt8.ofNat code), ← readI32)
  else if word / 2 ^ 16 = version1 then
    let name ← readString
    return (name, messageTypeOf (UInt8.ofNat word), ← readI32)
  else throw .other

/-- Reading an `i32` only moves forward. -/
theorem forward_i32 : readI32.Forward := (forward_readBE 4).map _

/-- The header of a message uses up input. -/
theorem consumes_messageBegin : readMessageBegin.Consumes := by
  refine (consumes_readBE (by decide)).bind fun word => ?_
  split
  · exact (forward_take word).bind fun name => (forward_readBE 1).bind fun code =>
      forward_i32.bind fun seqid => forward_pure _
  split
  · exact forward_string.bind fun name => forward_i32.bind fun seqid => forward_pure _
  · exact forward_throw _

/-- The header of a message is read back. -/
theorem reads_messageBegin {name : ByteString} {type : TMessageType} {seqid : Int32}
    {bytes : ByteString} (h : writeMessageBegin name type seqid = some bytes) :
    readMessageBegin.Reads bytes (name, type, seqid) := by
  obtain ⟨text, hname, hbytes⟩ := Option.bind_eq_some_iff.mp h
  obtain ⟨htype, hbytes⟩ := Option.ite_none_right_eq_some.mp hbytes
  obtain rfl := Option.some.inj hbytes
  have hlt := (messageCode type).toNat_lt
  have hword : (readBE 4).Reads (encodeBE 4 (version1 * 2 ^ 16 + (messageCode type).toNat))
      (version1 * 2 ^ 16 + (messageCode type).toNat) :=
    reads_readBE (by rw [version1]; omega)
  refine hword.bind ?_
  rw [if_neg (by rw [version1]; omega), if_pos (by rw [version1]; omega)]
  have hcode : UInt8.ofNat (version1 * 2 ^ 16 + (messageCode type).toNat) = messageCode type := by
    apply UInt8.toNat_inj.mp
    rw [UInt8.toNat_ofNat', version1]
    omega
  rw [hcode, htype]
  exact (reads_string hname).bind ((reads_i32 seqid).map fun seqid => (name, type, seqid))

/-! ## Values that are skipped -/

/-- One round of `skip(T_STRUCT)`. -/
def skipField (skip : TType → Reader TException Unit) (_ : Unit) :
    Reader TException (Unit ⊕ Unit) := do
  let (type, _) ← readFieldBegin
  if type = .stop then return .inr ()
  else
    skip type
    return .inl ()

/-- `skip`, with a limit for the depth. Containers do not occur in the services. -/
def skipAt : ℕ → TType → Reader TException Unit
  | _, .byte => (fun _ => ()) <$> readByte
  | _, .i32 => (fun _ => ()) <$> readI32
  | _, .string => (fun _ => ()) <$> readString
  | depth + 1, .struct => loop .other (skipField (skipAt depth)) ()
  | _, _ => throw .other

/-- A skipped struct takes a byte for each field. -/
theorem consumes_skipField {skip : TType → Reader TException Unit}
    (h : ∀ type, (skip type).Forward) (u : Unit) : (skipField skip u).Consumes := by
  refine consumes_fieldBegin.bind ?_
  rintro ⟨type, id⟩
  dsimp only
  split
  · exact forward_pure _
  · exact (h type).bind fun _ => forward_pure _

/-- Skipping only moves forward. -/
theorem forward_skipAt (depth : ℕ) (type : TType) : (skipAt depth type).Forward := by
  induction depth generalizing type with
  | zero =>
    cases type with
    | byte => exact ((forward_readBE 1).map _).map _
    | i32 => exact ((forward_readBE 4).map _).map _
    | string => exact forward_string.map _
    | stop => exact forward_throw _
    | struct => exact forward_throw _
    | other code => exact forward_throw _
  | succ depth ih =>
    cases type with
    | byte => exact ((forward_readBE 1).map _).map _
    | i32 => exact ((forward_readBE 4).map _).map _
    | string => exact forward_string.map _
    | stop => exact forward_throw _
    | struct => exact forward_loop (consumes_skipField ih) ()
    | other code => exact forward_throw _

/-! ## Exceptions -/

/-- The code of a type of exceptions. -/
def exceptionCode : TApplicationExceptionType → Int32
  | .unknown => 0
  | .unknownMethod => 1
  | .missingResult => 5
  | .other code => code

/-- The type of exceptions of a code. -/
def exceptionTypeOf (code : Int32) : TApplicationExceptionType :=
  if code = 0 then .unknown
  else if code = 1 then .unknownMethod
  else if code = 5 then .missingResult
  else .other code

/-- `TApplicationException::write`. -/
def writeException (x : TApplicationException) : Option ByteString := do
  let messageHeader ← writeFieldBegin (literal "message") .string 1
  let message ← writeString x.message
  let typeHeader ← writeFieldBegin (literal "type") .i32 2
  if exceptionTypeOf (exceptionCode x.type) = x.type then
    some (messageHeader ++ message ++
      (typeHeader ++ writeI32 (exceptionCode x.type) ++ writeFieldStop))
  else none

/-- One round of `TApplicationException::read`. -/
def readExceptionField (x : TApplicationException) :
    Reader TException (TApplicationException ⊕ TApplicationException) := do
  let (type, id) ← readFieldBegin
  if type = .stop then return .inr x
  else if id = 1 ∧ type = .string then return .inl { x with message := ← readString }
  else if id = 2 ∧ type = .i32 then return .inl { x with type := exceptionTypeOf (← readI32) }
  else
    skipAt 64 type
    return .inl x

/-- `TApplicationException::read`. -/
def readException : Reader TException TApplicationException :=
  loop .other readExceptionField { type := .unknown, message := [] }

/-- Each field of an exception uses up input. -/
theorem consumes_readExceptionField (x : TApplicationException) :
    (readExceptionField x).Consumes := by
  refine consumes_fieldBegin.bind ?_
  rintro ⟨type, id⟩
  dsimp only
  split
  · exact forward_pure _
  split
  · exact forward_string.bind fun _ => forward_pure _
  split
  · exact ((forward_readBE 4).map _).bind fun _ => forward_pure _
  · exact (forward_skipAt 64 type).bind fun _ => forward_pure _

/-- An exception is read back. -/
theorem reads_exception {x : TApplicationException} {bytes : ByteString}
    (h : writeException x = some bytes) : readException.Reads bytes x := by
  simp only [writeException, Option.bind_eq_bind, Option.bind_eq_some_iff] at h
  obtain ⟨messageHeader, hmessageHeader, message, hmessage, typeHeader, htypeHeader, h⟩ := h
  obtain ⟨htype, hbytes⟩ := Option.ite_none_right_eq_some.mp h
  obtain rfl := Option.some.inj hbytes
  have hfirst : (readExceptionField ⟨.unknown, []⟩).Reads (messageHeader ++ message)
      (.inl ⟨.unknown, x.message⟩) := by
    refine (reads_fieldBegin _ (by decide) hmessageHeader).bind ?_
    exact (reads_string hmessage).map fun m =>
      (.inl ⟨.unknown, m⟩ : TApplicationException ⊕ TApplicationException)
  have hsecond : (readExceptionField ⟨.unknown, x.message⟩).Reads
      (typeHeader ++ writeI32 (exceptionCode x.type)) (.inl x) := by
    refine (reads_fieldBegin _ (by decide) htypeHeader).bind ?_
    have hread := (reads_i32 (exceptionCode x.type)).map fun code =>
      (.inl ⟨exceptionTypeOf code, x.message⟩ : TApplicationException ⊕ TApplicationException)
    rwa [htype] at hread
  have hstop : (readExceptionField x).Reads writeFieldStop (.inr x) := by
    rw [← List.append_nil writeFieldStop]
    exact reads_fieldStop.bind (reads_pure _)
  exact reads_loop_next consumes_readExceptionField hfirst
    (reads_loop_next consumes_readExceptionField hsecond
      (reads_loop_exit consumes_readExceptionField hstop))

/-! ## The protocol -/

/-- The functions that write. -/
def writer : TWriter where
  writeMessageBegin := writeMessageBegin
  writeFieldBegin := writeFieldBegin
  writeFieldStop := some writeFieldStop
  writeByte value := some (writeByte value)
  writeI32 value := some (writeI32 value)
  writeString := writeString
  writeException := writeException

/-- What has been written can be skipped. -/
theorem reads_skipAt {depth : ℕ} {type : TType} {bytes : ByteString}
    (h : Skippable writer depth type bytes) : (skipAt depth type).Reads bytes () := by
  have hskip : ∀ depth u, (skipField (skipAt depth) u).Consumes :=
    fun depth => consumes_skipField (forward_skipAt depth)
  induction h with
  | @byte depth value bytes h =>
    obtain rfl := Option.some.inj h
    cases depth <;> exact (reads_byte value).map _
  | @i32 depth value bytes h =>
    obtain rfl := Option.some.inj h
    cases depth <;> exact (reads_i32 value).map _
  | @string depth value bytes h => cases depth <;> exact (reads_string h).map _
  | @stop depth bytes h =>
    obtain rfl := Option.some.inj h
    refine reads_loop_exit (hskip depth) ?_
    rw [← List.append_nil writeFieldStop]
    exact reads_fieldStop.bind (reads_pure _)
  | @field depth name type id header body bytes hstop hheader hbody hrest ihbody ihrest =>
    have hround : (skipField (skipAt depth) ()).Reads (header ++ body) (.inl ()) := by
      refine (reads_fieldBegin name hstop hheader).bind ?_
      dsimp only
      rw [if_neg hstop, ← List.append_nil body]
      exact ihbody.bind (reads_pure _)
    rw [← List.append_assoc]
    exact reads_loop_next (hskip depth) hround ihrest

/-- `TBinaryProtocol`. -/
def protocol : TProtocol where
  toTWriter := writer
  readMessageBegin := readMessageBegin
  readFieldBegin := readFieldBegin
  readByte := readByte
  readI32 := readI32
  readString := readString
  readException := readException
  skip := skipAt 64
  reads_messageBegin := reads_messageBegin
  reads_fieldBegin {name _ _ _} hstop h := reads_fieldBegin name hstop h
  reads_fieldStop h := Option.some.inj h ▸ reads_fieldStop
  reads_byte h := Option.some.inj h ▸ reads_byte _
  reads_i32 h := Option.some.inj h ▸ reads_i32 _
  reads_string := reads_string
  reads_exception := reads_exception
  depth := 64
  two_le_depth := by decide
  reads_skip := reads_skipAt
  skip_i32 := rfl
  skip_string := rfl
  consumes_messageBegin := consumes_messageBegin
  consumes_fieldBegin := consumes_fieldBegin
  forward_byte := (forward_readBE 1).map _
  forward_i32 := forward_i32
  forward_string := forward_string
  forward_skip := forward_skipAt 64

end ThriftProxy.Binary
