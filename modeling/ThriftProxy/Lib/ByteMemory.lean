import ThriftProxy.Lib.Memory
import ThriftProxy.Lib.WordMemory
import Mathlib.Data.List.GetD

/-!
# Byte-addressed memory

Memory as a function from addresses to bytes. Its words are little-endian, so it
is a word memory, and a single byte can be written apart from the words.
-/

namespace Machine

open WordMemory

/-- Memory addressed by bytes. -/
abbrev ByteMemory := ℕ → UInt8

namespace ByteMemory

/-- The eight bytes from an address on. -/
def word (m : ByteMemory) (a : ℕ) : List UInt8 := (List.range 8).map fun i => m (a + i)

/-- The memory with a word written to an address. -/
def setWord (m : ByteMemory) (a v : ℕ) : ByteMemory :=
  fun x => if a ≤ x ∧ x < a + 8 then (encodeLE 8 v).getD (x - a) 0 else m x

/-- The memory with a byte written to an address. -/
def poke (m : ByteMemory) (x : ℕ) (b : UInt8) : ByteMemory := Function.update m x b

/-- `memset(a, 0, len)`. -/
def clear (m : ByteMemory) (a len : ℕ) : ByteMemory :=
  fun x => if a ≤ x ∧ x < a + len then 0 else m x

/-- A word that was written is read back byte by byte. -/
theorem word_setWord (m : ByteMemory) (a v : ℕ) : (m.setWord a v).word a = encodeLE 8 v := by
  apply List.ext_getElem
  · simp [word]
  · intro i hi hi'
    have hlt : i < 8 := by simpa [word] using hi
    simp only [word, setWord, List.getElem_map, List.getElem_range]
    rw [if_pos (by omega), Nat.add_sub_cancel_left, List.getD_eq_getElem _ _ hi']

/-- A word depends on its own bytes only. -/
theorem word_congr {m m' : ByteMemory} {a : ℕ} (h : ∀ x, a ≤ x → x < a + 8 → m' x = m x) :
    m'.word a = m.word a := by
  apply List.map_congr_left
  intro i hi
  have hlt := List.mem_range.mp hi
  exact h (a + i) (by omega) (by omega)

instance : WordMemory ByteMemory where
  load m a := decodeLE (m.word a)
  store m a v := m.setWord a v
  load_store_self m a v hv := by
    rw [word_setWord, decodeLE_encodeLE]
    exact Nat.mod_eq_of_lt hv
  load_store_of_apart m a v b h := by
    congr 1
    apply word_congr
    intro x hx hx'
    rw [setWord, if_neg (by omega)]

/-- The value of a word depends on its own bytes only. -/
theorem load_congr {m m' : ByteMemory} {a : ℕ} (h : ∀ x, a ≤ x → x < a + 8 → m' x = m x) :
    load m' a = load m a := by
  change decodeLE (m'.word a) = decodeLE (m.word a)
  rw [word_congr h]

/-- A word that is stored changes its own bytes only. -/
theorem store_apply_of_notMem {m : ByteMemory} {a v x : ℕ} (h : x < a ∨ a + 8 ≤ x) :
    store m a v x = m x := by
  change m.setWord a v x = m x
  rw [setWord, if_neg (by omega)]

end ByteMemory

end Machine
