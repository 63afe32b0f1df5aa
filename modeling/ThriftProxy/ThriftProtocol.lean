import ThriftProxy.Handler
import ThriftProxy.Lib.Wire

/-!
# The protocol below the generated code

What the generated readers and writers call on a `TProtocol`, with the laws that they
rely on: a value that has been written is read back, whatever follows it, and can be
skipped. The binary protocol has these laws.
-/

namespace ThriftProxy

open Wire Wire.Reader Machine

/-! ## Values -/

/-- `TType`. -/
inductive TType
  /-- `T_STOP`. -/
  | stop
  /-- `T_BYTE`. -/
  | byte
  /-- `T_I32`. -/
  | i32
  /-- `T_STRING`. -/
  | string
  /-- `T_STRUCT`. -/
  | struct
  /-- A type that no field of the services has. -/
  | other (code : UInt8)
  deriving DecidableEq

/-- `TMessageType`. -/
inductive TMessageType
  /-- `T_CALL`. -/
  | call
  /-- `T_REPLY`. -/
  | reply
  /-- `T_EXCEPTION`. -/
  | exception
  /-- Any other type. -/
  | other (code : UInt8)
  deriving DecidableEq

/-- `TApplicationExceptionType`. -/
inductive TApplicationExceptionType
  /-- `UNKNOWN`. -/
  | unknown
  /-- `UNKNOWN_METHOD`. -/
  | unknownMethod
  /-- `MISSING_RESULT`. -/
  | missingResult
  /-- Any other type. -/
  | other (code : Int32)
  deriving DecidableEq

/-- `TApplicationException`. -/
structure TApplicationException where
  /-- `type_`. -/
  type : TApplicationExceptionType
  /-- `message_`. -/
  message : ByteString
  deriving DecidableEq

/-- `TException`. -/
inductive TException
  /-- A `TApplicationException`. -/
  | application (x : TApplicationException)
  /-- An exception of the protocol or of the transport. -/
  | other
  deriving DecidableEq

/-! ## Protocols -/

/-- The functions of a protocol that write. One that throws writes nothing. -/
structure TWriter where
  writeMessageBegin : ByteString → TMessageType → Int32 → Option ByteString
  writeFieldBegin : ByteString → TType → Int16 → Option ByteString
  writeFieldStop : Option ByteString
  writeByte : Int8 → Option ByteString
  writeI32 : Int32 → Option ByteString
  writeString : ByteString → Option ByteString
  /-- `TApplicationException::write`. -/
  writeException : TApplicationException → Option ByteString

/-- Values as they are written, with structs up to some depth. -/
inductive Skippable (w : TWriter) : ℕ → TType → ByteString → Prop
  | byte {depth : ℕ} {value : Int8} {bytes : ByteString} (h : w.writeByte value = some bytes) :
      Skippable w depth .byte bytes
  | i32 {depth : ℕ} {value : Int32} {bytes : ByteString} (h : w.writeI32 value = some bytes) :
      Skippable w depth .i32 bytes
  | string {depth : ℕ} {value bytes : ByteString} (h : w.writeString value = some bytes) :
      Skippable w depth .string bytes
  | stop {depth : ℕ} {bytes : ByteString} (h : w.writeFieldStop = some bytes) :
      Skippable w (depth + 1) .struct bytes
  | field {depth : ℕ} {name : ByteString} {type : TType} {id : Int16}
      {header body bytes : ByteString} (hstop : type ≠ .stop)
      (hheader : w.writeFieldBegin name type id = some header)
      (hbody : Skippable w depth type body) (hrest : Skippable w (depth + 1) .struct bytes) :
      Skippable w (depth + 1) .struct (header ++ (body ++ bytes))

/-- What can be skipped can be skipped at a greater depth. -/
theorem Skippable.mono {w : TWriter} {depth depth' : ℕ} {type : TType} {bytes : ByteString}
    (h : Skippable w depth type bytes) (hle : depth ≤ depth') : Skippable w depth' type bytes := by
  induction h generalizing depth' with
  | byte h => exact .byte h
  | i32 h => exact .i32 h
  | string h => exact .string h
  | stop h =>
    obtain ⟨d, rfl⟩ := Nat.exists_eq_add_of_le' (Nat.le_of_add_left_le hle)
    exact .stop h
  | field hstop hheader hbody hrest ihbody ihrest =>
    obtain ⟨d, rfl⟩ := Nat.exists_eq_add_of_le' (Nat.le_of_add_left_le hle)
    exact .field hstop hheader (ihbody (by omega)) (ihrest hle)

/-- A protocol. The calls that begin and end a struct, and those that end a field or a
message, leave no bytes. -/
structure TProtocol extends TWriter where
  readMessageBegin : Reader TException (ByteString × TMessageType × Int32)
  readFieldBegin : Reader TException (TType × Int16)
  readByte : Reader TException Int8
  readI32 : Reader TException Int32
  readString : Reader TException ByteString
  /-- `TApplicationException::read`. -/
  readException : Reader TException TApplicationException
  skip : TType → Reader TException Unit
  /-- What is written is read back. -/
  reads_messageBegin : ∀ {name type seqid bytes}, writeMessageBegin name type seqid = some bytes →
    readMessageBegin.Reads bytes (name, type, seqid)
  reads_fieldBegin : ∀ {name type id bytes}, type ≠ .stop →
    writeFieldBegin name type id = some bytes → readFieldBegin.Reads bytes (type, id)
  reads_fieldStop : ∀ {bytes}, writeFieldStop = some bytes → readFieldBegin.Reads bytes (.stop, 0)
  reads_byte : ∀ {value bytes}, writeByte value = some bytes → readByte.Reads bytes value
  reads_i32 : ∀ {value bytes}, writeI32 value = some bytes → readI32.Reads bytes value
  reads_string : ∀ {value bytes}, writeString value = some bytes → readString.Reads bytes value
  reads_exception : ∀ {x bytes}, writeException x = some bytes → readException.Reads bytes x
  /-- Structs as deep as those of the services can be skipped, and deeper ones. -/
  depth : ℕ
  two_le_depth : 2 ≤ depth
  reads_skip : ∀ {type bytes}, Skippable toTWriter depth type bytes → (skip type).Reads bytes ()
  /-- A value that is skipped is read. -/
  skip_i32 : skip .i32 = (fun _ => ()) <$> readI32
  skip_string : skip .string = (fun _ => ()) <$> readString
  /-- A header takes some bytes, and nothing puts any back. -/
  consumes_messageBegin : readMessageBegin.Consumes
  consumes_fieldBegin : readFieldBegin.Consumes
  forward_byte : readByte.Forward
  forward_i32 : readI32.Forward
  forward_string : readString.Forward
  forward_skip : ∀ type, (skip type).Forward

end ThriftProxy
