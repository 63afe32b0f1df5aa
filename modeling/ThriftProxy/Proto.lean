import ThriftProxy.Lib.Memory

/-!
# The wire format

The packed little-endian structures of `proto.h`: the header of every package
and the fixed part of a moderation request. Encoders follow the client of
`test.py`; the proxy overlays the structures on its buffers.
-/

namespace ThriftProxy

open Machine

/-! ## Unsigned fields -/

/-- The `uint32_t` stored at an offset. -/
def readU32 (offset : ℕ) (bytes : List UInt8) : UInt32 :=
  UInt32.ofNat (decodeLE (field offset 4 bytes))

/-- The `uint16_t` stored at an offset. -/
def readU16 (offset : ℕ) (bytes : List UInt8) : UInt16 :=
  UInt16.ofNat (decodeLE (field offset 2 bytes))

/-- The four bytes of a `uint32_t`. -/
def bytesU32 (value : UInt32) : List UInt8 := encodeLE 4 value.toNat

/-- The two bytes of a `uint16_t`. -/
def bytesU16 (value : UInt16) : List UInt8 := encodeLE 2 value.toNat

/-- A 32-bit field has four bytes. -/
@[simp] theorem length_bytesU32 (value : UInt32) : (bytesU32 value).length = 4 :=
  length_encodeLE 4 _

/-- A 16-bit field has two bytes. -/
@[simp] theorem length_bytesU16 (value : UInt16) : (bytesU16 value).length = 2 :=
  length_encodeLE 2 _

/-- A field is not read from the part of a layout in front of it. -/
theorem readU32_append_right {front back : List UInt8} {offset : ℕ} (h : front.length ≤ offset) :
    readU32 offset (front ++ back) = readU32 (offset - front.length) back := by
  rw [readU32, field_append_right h, readU32]

/-- A field is not read from the part of a layout in front of it. -/
theorem readU16_append_right {front back : List UInt8} {offset : ℕ} (h : front.length ≤ offset) :
    readU16 offset (front ++ back) = readU16 (offset - front.length) back := by
  rw [readU16, field_append_right h, readU16]

/-- A stored `uint32_t` is read back. -/
@[simp] theorem readU32_bytesU32 (value : UInt32) (back : List UInt8) :
    readU32 0 (bytesU32 value ++ back) = value := by
  rw [readU32, field_append_self (length_bytesU32 value), bytesU32, decodeLE_encodeLE,
    Nat.mod_eq_of_lt (by have := value.toNat_lt; omega), UInt32.ofNat_toNat]

/-- A stored `uint16_t` is read back. -/
@[simp] theorem readU16_bytesU16 (value : UInt16) (back : List UInt8) :
    readU16 0 (bytesU16 value ++ back) = value := by
  rw [readU16, field_append_self (length_bytesU16 value), bytesU16, decodeLE_encodeLE,
    Nat.mod_eq_of_lt (by have := value.toNat_lt; omega), UInt16.ofNat_toNat]

/-! ## The header -/

/-- `ProtoHeader`. -/
structure ProtoHeader where
  /-- `pkg_len`. -/
  pkgLen : UInt32
  /-- `seq_num`. -/
  seqNum : UInt32
  /-- `cmd_id`. -/
  cmdId : UInt16
  /-- `status_code`. -/
  statusCode : UInt32
  /-- `user_id`. -/
  userId : UInt32
  deriving DecidableEq

/-- `sizeof(ProtoHeader)`. -/
def sizeofProtoHeader : ℕ := 18

/-- The packed bytes of a header. -/
def ProtoHeader.encode (h : ProtoHeader) : List UInt8 :=
  bytesU32 h.pkgLen ++ (bytesU32 h.seqNum ++ (bytesU16 h.cmdId ++
    (bytesU32 h.statusCode ++ bytesU32 h.userId)))

/-- The header overlaid on a buffer. -/
def ProtoHeader.decode (bytes : List UInt8) : ProtoHeader :=
  { pkgLen := readU32 0 bytes, seqNum := readU32 4 bytes, cmdId := readU16 8 bytes,
    statusCode := readU32 10 bytes, userId := readU32 14 bytes }

/-- Every header has the size of the struct. -/
@[simp] theorem ProtoHeader.length_encode (h : ProtoHeader) :
    h.encode.length = sizeofProtoHeader := by
  simp [ProtoHeader.encode, sizeofProtoHeader]

/-- The header in front of a package is read back. -/
@[simp] theorem ProtoHeader.decode_encode (h : ProtoHeader) (body : List UInt8) :
    ProtoHeader.decode (h.encode ++ body) = h := by
  simp [ProtoHeader.decode, ProtoHeader.encode, List.append_assoc, readU32_append_right,
    readU16_append_right]

/-- `get_pkg_len_cli`: the length that frames the next package of a stream. -/
def getPkgLenCli (buf : List UInt8) : ℤ :=
  if buf.length < 4 then 0 else (readU32 0 buf).toInt32.toInt

/-! ## The body of a moderation request -/

/-- `WRITE_MESSAGE_CMD_ID`. -/
def writeMessageCmdId : UInt16 := 0x4702

/-- `DataBodyHuaXian`. The name is the text in front of the NUL padding of the
field `char nick[16]`. -/
structure DataBodyHuaXian where
  /-- `game_id`. -/
  gameId : UInt32
  /-- `nick`. -/
  nick : List UInt8
  /-- `type`. -/
  type : UInt8
  /-- `home_id`. -/
  homeId : UInt32
  /-- `role_grade`. -/
  roleGrade : UInt32
  /-- `vip_grade`. -/
  vipGrade : UInt32
  deriving DecidableEq

/-- `sizeof(DataBodyHuaXian)`. -/
def sizeofDataBodyHuaXian : ℕ := 33

/-- The offset of `ContentBody::content` in the body of a request: the fixed
part and `content_len`. -/
def contentOffset : ℕ := sizeofDataBodyHuaXian + 4

/-- A `char[16]` field: the text cut or padded with NULs to 16 bytes. -/
def nickField (nick : List UInt8) : List UInt8 := (nick ++ List.replicate 16 0).take 16

/-- The nick field is filled up to its size. -/
@[simp] theorem length_nickField (nick : List UInt8) : (nickField nick).length = 16 := by
  simp [nickField]

/-- The packed bytes of the fixed part. -/
def DataBodyHuaXian.encode (d : DataBodyHuaXian) : List UInt8 :=
  bytesU32 d.gameId ++ (nickField d.nick ++ ([d.type] ++ (bytesU32 d.homeId ++
    (bytesU32 d.roleGrade ++ bytesU32 d.vipGrade))))

/-- The fixed part of every body has the size of the struct. -/
@[simp] theorem DataBodyHuaXian.length_encode (d : DataBodyHuaXian) :
    d.encode.length = sizeofDataBodyHuaXian := by
  simp [DataBodyHuaXian.encode, sizeofDataBodyHuaXian]

section

variable (d : DataBodyHuaXian) (back : List UInt8)

/-- The game identifier is read back. -/
@[simp] theorem DataBodyHuaXian.gameId_encode : readU32 0 (d.encode ++ back) = d.gameId := by
  simp [DataBodyHuaXian.encode, List.append_assoc]

/-- The name field has the type byte right behind it. -/
theorem DataBodyHuaXian.drop_encode : (d.encode ++ back).drop 4 = nickField d.nick ++
    (d.type :: (bytesU32 d.homeId ++ (bytesU32 d.roleGrade ++ (bytesU32 d.vipGrade ++ back)))) := by
  rw [DataBodyHuaXian.encode, List.append_assoc, List.drop_append_of_le_length (by simp),
    List.drop_of_length_le (by simp)]
  simp [List.append_assoc]

/-- The type byte is read back. -/
@[simp] theorem DataBodyHuaXian.type_encode :
    UInt8.ofNat (decodeLE (field 20 1 (d.encode ++ back))) = d.type := by
  rw [DataBodyHuaXian.encode]
  simp only [List.append_assoc]
  rw [field_append_right (by simp), field_append_right (by simp)]
  simp [field, decodeLE]

/-- The home identifier is read back. -/
@[simp] theorem DataBodyHuaXian.homeId_encode : readU32 21 (d.encode ++ back) = d.homeId := by
  rw [DataBodyHuaXian.encode]
  simp only [List.append_assoc]
  rw [readU32_append_right (by simp), readU32_append_right (by simp),
    readU32_append_right (by simp)]
  simp

/-- The grade is read back. -/
@[simp] theorem DataBodyHuaXian.roleGrade_encode :
    readU32 25 (d.encode ++ back) = d.roleGrade := by
  rw [DataBodyHuaXian.encode]
  simp only [List.append_assoc]
  rw [readU32_append_right (by simp), readU32_append_right (by simp),
    readU32_append_right (by simp), readU32_append_right (by simp)]
  simp

/-- The VIP grade is read back. -/
@[simp] theorem DataBodyHuaXian.vipGrade_encode :
    readU32 29 (d.encode ++ back) = d.vipGrade := by
  rw [DataBodyHuaXian.encode]
  simp only [List.append_assoc]
  rw [readU32_append_right (by simp), readU32_append_right (by simp),
    readU32_append_right (by simp), readU32_append_right (by simp),
    readU32_append_right (by simp)]
  simp

end

/-- A name that is shorter than its field ends inside the field. -/
theorem cstr_nickField {nick : List UInt8} (h : nick.length ≤ 15) (hzero : 0 ∉ nick)
    (back : List UInt8) : cstr (nickField nick ++ back) = nick := by
  have hfield : nickField nick = nick ++ List.replicate (16 - nick.length) 0 := by
    rw [nickField, List.take_append, List.take_of_length_le (by omega), List.take_replicate]
    simp
  have hrest : List.replicate (16 - nick.length) (0 : UInt8) =
      0 :: List.replicate (15 - nick.length) 0 := by
    rw [← List.replicate_succ]
    congr 1
    omega
  rw [hfield, hrest, List.append_assoc, cstr_append_of_notMem hzero]
  simp [cstr]

/-- A name that fills its field is read on into what follows. -/
theorem cstr_nickField_of_full {nick : List UInt8} (h : nick.length = 16) (hzero : 0 ∉ nick)
    (back : List UInt8) : cstr (nickField nick ++ back) = nick ++ cstr back := by
  have hfield : nickField nick = nick := by
    rw [nickField, List.take_append_of_le_length h.ge, List.take_of_length_le h.le]
  rw [hfield, cstr_append_of_notMem hzero]

/-- The package that the client of `test.py` packs, for any content. -/
def pack (userId : UInt32) (d : DataBodyHuaXian) (contentLen : UInt32) (content : List UInt8) :
    List UInt8 :=
  let body := d.encode ++ (bytesU32 contentLen ++ content)
  let header : ProtoHeader :=
    { pkgLen := UInt32.ofNat (sizeofProtoHeader + body.length), seqNum := 0,
      cmdId := writeMessageCmdId, statusCode := 0, userId := userId }
  header.encode ++ body

end ThriftProxy
