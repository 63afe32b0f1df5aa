import Mathlib.Data.List.TakeWhile
import Mathlib.Tactic.Ring

/-!
# Machine integers, byte layouts and buffer accesses

What C++ code relies on below its own types: the wrap-around of an `int`,
unsigned fields stored little-endian in packed structures, C strings that end at
their first NUL, and the bounds that an access to a buffer has to respect.
-/

namespace Machine

/-! ## Machine integers -/

/-- The value a 32-bit `int` holds after an arithmetic operation. -/
def wrapInt (x : ℤ) : ℤ := x.bmod (2 ^ 32)

/-- Nothing wraps inside the range of `int`. -/
theorem wrapInt_eq_self {x : ℤ} (hlow : -2 ^ 31 ≤ x) (hhigh : x < 2 ^ 31) : wrapInt x = x := by
  unfold wrapInt
  rw [Int.bmod_eq_of_le] <;> omega

/-- Converting a natural number to `uint32_t` by way of an integer. -/
theorem uint32_ofInt_natCast (n : ℕ) : UInt32.ofInt n = UInt32.ofNat n := by
  apply UInt32.toNat_inj.mp
  simp only [UInt32.ofInt, UInt32.toNat_ofNat']
  omega

/-! ## Little-endian fields -/

/-- The low `width` bytes of a number, least significant first. -/
def encodeLE : ℕ → ℕ → List UInt8
  | 0, _ => []
  | width + 1, value => UInt8.ofNat value :: encodeLE width (value / 256)

/-- The number stored in a field, least significant byte first. -/
def decodeLE (bytes : List UInt8) : ℕ := bytes.foldr (fun b rest => b.toNat + 256 * rest) 0

/-- A field has the width it was encoded with. -/
@[simp] theorem length_encodeLE (width value : ℕ) : (encodeLE width value).length = width := by
  induction width generalizing value with
  | zero => rfl
  | succ width ih => simp [encodeLE, ih]

/-- Decoding recovers the encoded value up to the width of the field. -/
theorem decodeLE_encodeLE (width value : ℕ) :
    decodeLE (encodeLE width value) = value % 256 ^ width := by
  induction width generalizing value with
  | zero => simp [encodeLE, decodeLE, Nat.mod_one]
  | succ width ih =>
    have hhead : (UInt8.ofNat value).toNat = value % 256 := by simp
    have hstep : decodeLE (encodeLE (width + 1) value) =
        value % 256 + 256 * (value / 256 % 256 ^ width) := by
      rw [← ih, ← hhead]
      rfl
    rw [hstep, pow_succ', Nat.mod_mul]

/-- Zeros behind a number do not change it. -/
theorem decodeLE_append_zeros (bytes : List UInt8) (count : ℕ) :
    decodeLE (bytes ++ List.replicate count 0) = decodeLE bytes := by
  induction bytes with
  | nil =>
    induction count with
    | zero => rfl
    | succ count ih =>
      rw [List.nil_append] at ih ⊢
      rw [List.replicate_succ, decodeLE, List.foldr_cons]
      simpa [decodeLE] using ih
  | cons b bytes ih =>
    have hcons : ∀ bytes, decodeLE (b :: bytes) = b.toNat + 256 * decodeLE bytes := fun _ => rfl
    rw [List.cons_append, hcons, hcons, ih]

/-- The bytes at `offset` of a structure, `count` of them. -/
def field (offset count : ℕ) (bytes : List UInt8) : List UInt8 := (bytes.drop offset).take count

/-- A field that ends inside the front part of a layout. -/
theorem field_append_left {front back : List UInt8} {offset count : ℕ}
    (h : offset + count ≤ front.length) :
    field offset count (front ++ back) = field offset count front := by
  unfold field
  rw [List.drop_append_of_le_length (by omega), List.take_append_of_le_length]
  rw [List.length_drop]
  omega

/-- A field that starts behind the front part of a layout. -/
theorem field_append_right {front back : List UInt8} {offset count : ℕ}
    (h : front.length ≤ offset) :
    field offset count (front ++ back) = field (offset - front.length) count back := by
  unfold field
  rw [List.drop_append, List.drop_eq_nil_of_le h, List.nil_append]

/-- The field that is exactly the front part of a layout. -/
theorem field_append_self {front back : List UInt8} {count : ℕ} (h : front.length = count) :
    field 0 count (front ++ back) = front := by
  subst h
  simp [field]

/-! ## C strings -/

/-- The C string that starts a stretch of memory: the bytes before the first NUL. -/
def cstr (bytes : List UInt8) : List UInt8 := bytes.takeWhile (· != 0)

/-- A C string contains no NUL. -/
theorem zero_notMem_cstr (bytes : List UInt8) : (0 : UInt8) ∉ cstr bytes := by
  intro h
  simpa using List.mem_takeWhile_imp h

/-- A C string ends inside the front part of memory when that part has a NUL. -/
theorem cstr_append_of_mem {front back : List UInt8} (h : (0 : UInt8) ∈ front) :
    cstr (front ++ back) = cstr front := by
  unfold cstr
  rw [List.takeWhile_append, if_neg]
  intro hlen
  have hall : front.takeWhile (· != 0) = front :=
    (List.takeWhile_prefix _).eq_of_length hlen
  rw [← hall] at h
  simpa using List.mem_takeWhile_imp h

/-- A C string runs through a part of memory that has no NUL. -/
theorem cstr_append_of_notMem {front back : List UInt8} (h : (0 : UInt8) ∉ front) :
    cstr (front ++ back) = front ++ cstr back := by
  unfold cstr
  apply List.takeWhile_append_of_pos
  intro b hb
  have hne : b ≠ 0 := fun hzero => h (hzero ▸ hb)
  simpa using hne

/-- Memory without a NUL is read to its end. -/
theorem cstr_eq_self {bytes : List UInt8} (h : (0 : UInt8) ∉ bytes) : cstr bytes = bytes := by
  simpa [cstr] using @cstr_append_of_notMem bytes [] h

/-- Cutting memory before reading a C string cuts the C string. -/
theorem cstr_take (count : ℕ) (bytes : List UInt8) :
    cstr (bytes.take count) = (cstr bytes).take count := by
  induction bytes generalizing count with
  | nil => simp [cstr]
  | cons b bytes ih =>
    cases count with
    | zero => simp [cstr]
    | succ count =>
      by_cases hb : b = 0
      · simp [cstr, hb]
      · have := ih count
        simpa [cstr, hb] using this

/-- A C string is shorter than a bound exactly when a NUL stands before it. -/
theorem length_cstr_lt_iff {count : ℕ} {bytes : List UInt8} (h : count ≤ bytes.length) :
    (cstr bytes).length < count ↔ (0 : UInt8) ∈ bytes.take count := by
  constructor
  · intro hlt
    by_contra hnone
    have hcut := cstr_take count bytes
    rw [cstr_eq_self hnone] at hcut
    have hlen := congrArg List.length hcut
    simp only [List.length_take] at hlen
    omega
  · intro hmem
    by_contra hge
    apply zero_notMem_cstr bytes
    have hcut := cstr_take count bytes
    have hfull : (cstr (bytes.take count)).length = (bytes.take count).length := by
      rw [hcut, List.length_take, List.length_take]
      omega
    have hself : cstr (bytes.take count) = bytes.take count :=
      (List.takeWhile_prefix _).eq_of_length hfull
    rw [← hself, hcut] at hmem
    exact List.mem_of_mem_take hmem

/-! ## Buffers and accesses -/

/-- An array of a fixed number of bytes. -/
structure Buffer (size : ℕ) where
  /-- The bytes of the array. -/
  bytes : List UInt8
  /-- There are as many as the array holds. -/
  length_eq : bytes.length = size
  deriving DecidableEq

/-- A zeroed array with bytes copied to its start. -/
def Buffer.zeroFilled (size : ℕ) (bytes : List UInt8) : Buffer size :=
  { bytes := bytes.take size ++ List.replicate (size - bytes.length) 0
    length_eq := by
      rw [List.length_append, List.length_take, List.length_replicate]
      omega }

/-- What does not fit is cut off. -/
theorem Buffer.bytes_zeroFilled (size : ℕ) (bytes : List UInt8) :
    (Buffer.zeroFilled size bytes).bytes =
      bytes.take size ++ List.replicate (size - bytes.length) 0 := rfl

/-- What fits is followed by zeros. -/
theorem Buffer.zeroFilled_bytes {size : ℕ} {bytes : List UInt8} (h : bytes.length ≤ size) :
    (Buffer.zeroFilled size bytes).bytes = bytes ++ List.replicate (size - bytes.length) 0 := by
  rw [Buffer.bytes_zeroFilled, List.take_of_length_le h]

/-- A field inside a zeroed buffer holds what it holds in the bytes copied there. -/
theorem Buffer.decodeLE_field_zeroFilled {size offset count : ℕ} (h : offset + count ≤ size)
    (bytes : List UInt8) : decodeLE (field offset count (Buffer.zeroFilled size bytes).bytes) =
      decodeLE (field offset count bytes) := by
  have hfront : ((bytes.take size).drop offset).take count = field offset count bytes := by
    rw [List.drop_take, List.take_take, min_eq_left (by omega), field]
  rw [Buffer.bytes_zeroFilled, field, List.drop_append, List.take_append, hfront,
    List.drop_replicate, List.take_replicate, decodeLE_append_zeros]

/-- An access to a buffer or array of `size` elements: the elements from
`offset` on, `count` of them. -/
structure Access where
  /-- The number of elements of the buffer. -/
  size : ℕ
  /-- The first element accessed. -/
  offset : ℤ
  /-- The number of elements accessed. -/
  count : ℕ
  deriving DecidableEq

/-- The access touches elements of the buffer only. -/
def Access.InRange (a : Access) : Prop := 0 ≤ a.offset ∧ a.offset + a.count ≤ a.size

instance (a : Access) : Decidable a.InRange := by unfold Access.InRange; infer_instance

end Machine
