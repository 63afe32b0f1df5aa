import ThriftProxy.Refinement

/-!
# Inbound bounds

Which packages `ProcPkgCli` can copy without leaving the package, the buffer of
the `ClientInfo` or the array of list heads. A package arrives as the bytes that
`get_pkg_len_cli` has framed; the guard in `ProcPkgCli` compares its length with
8192, twice the size of the buffer, and its file descriptor with nothing.
-/

namespace ThriftProxy

open Machine

/-- The package leaves no trace: the store is as before and no task is queued. -/
def PkgOutcome.Rejected (out : PkgOutcome) (st : Store) : Prop := out.store = st ∧ out.task = none

/-- A package is rejected, or every access it causes is in range. -/
def InboundSafe (st : Store) (fd : Int32) (pkg : List UInt8) (malloc : Option ℕ)
    (procTime : Timeval) (now : ℤ) : Prop :=
  (procPkgCli st fd pkg malloc procTime now).Rejected st ∨
    ∀ access ∈ (procPkgCli st fd pkg malloc procTime now).accesses, access.InRange

/-- `get_pkg_len_cli` has framed the first `n` bytes of a stream as a package, and
they have arrived. -/
structure Framed (stream : List UInt8) (n : ℕ) : Prop where
  length_eq : getPkgLenCli stream = n
  pos : 0 < n
  arrived : n ≤ stream.length

/-- The accesses of an accepted package are in range exactly when it holds a
header, its body fits and its file descriptor is valid. -/
theorem acceptAccesses_inRange_iff {st : Store} {fd : Int32} {len : ℕ} (hlen : len ≤ 8192) :
    (∀ access ∈ acceptAccesses st fd len, access.InRange) ↔
      (sizeofProtoHeader ≤ len ∧ len ≤ sizeofProtoHeader + bufSize) ∧
        0 ≤ fd.toInt ∧ fd.toInt < st.maxOpenFd := by
  have hbuf : bufSize = 4096 := rfl
  have hheader : sizeofProtoHeader = 18 := rfl
  have hunder : len < 18 → sizeSub len 18 = len + 2 ^ 64 - 18 :=
    sizeSub_of_lt
  have hover : 18 ≤ len → sizeSub len 18 = len - 18 := fun h => sizeSub_of_le h (by omega)
  simp only [acceptAccesses, headerAccesses, List.cons_append, List.nil_append, List.forall_mem_cons,
    List.not_mem_nil, false_implies, implies_true, and_true, Access.InRange, hbuf, hheader]
  by_cases hshort : len < 18
  · rw [hunder hshort]
    omega
  · rw [hover (by omega)]
    omega

/-- **Inbound bounds.** A framed package is rejected or handled within bounds
exactly when it is longer than 8192 bytes, no item is left for it, or it holds
a header, its body fits in the buffer and its file descriptor is valid. -/
theorem inboundSafe_iff {stream : List UInt8} {n : ℕ} (hframed : Framed stream n) (st : Store)
    (fd : Int32) (malloc : Option ℕ) (procTime : Timeval) (now : ℤ) :
    InboundSafe st fd (stream.take n) malloc procTime now ↔
      8192 < n ∨ st.pool.Exhausted malloc ∨
        (sizeofProtoHeader ≤ n ∧ n ≤ sizeofProtoHeader + bufSize) ∧
          0 ≤ fd.toInt ∧ fd.toInt < st.maxOpenFd := by
  have hlength : (stream.take n).length = n := List.length_take_of_le hframed.arrived
  by_cases hrefused : 8192 < (stream.take n).length ∨ st.pool.Exhausted malloc
  · have hrejected : InboundSafe st fd (stream.take n) malloc procTime now :=
      Or.inl (procPkgCli_refused fd procTime now hrefused)
    rw [hlength] at hrefused
    constructor
    · intro _
      rcases hrefused with h | h
      · exact Or.inl h
      · exact Or.inr (Or.inl h)
    · exact fun _ => hrejected
  · rw [not_or, not_lt] at hrefused
    obtain ⟨hlen, hroom⟩ := hrefused
    obtain ⟨pool, words, ci, -, hproc⟩ := procPkgCli_accepted fd procTime now
      hlen hroom
    unfold InboundSafe PkgOutcome.Rejected
    rw [hproc, hlength, acceptAccesses_inRange_iff (hlength ▸ hlen)]
    rw [hlength] at hlen
    constructor
    · rintro (⟨-, htask⟩ | hrange)
      · simp at htask
      · exact Or.inr (Or.inr hrange)
    · rintro (h | h | h)
      · omega
      · exact absurd h hroom
      · exact Or.inr h

/-- A package of four bytes, its length field only: the header is read behind
its end, and the length of the body wraps around. -/
theorem not_inboundSafe_four_bytes :
    Framed [4, 0, 0, 0] 4 ∧
      ¬ InboundSafe freshStore 7 ([4, 0, 0, 0].take 4) none ⟨100, 0⟩ 100 := by
  refine ⟨⟨by decide, by decide, by decide⟩, ?_⟩
  rintro (⟨-, htask⟩ | hrange)
  · exact absurd htask (by decide)
  · exact absurd (hrange ⟨4, 4, 4⟩ (by decide)) (by decide)

/-- A package that is a header only is handled within bounds. -/
theorem inboundSafe_iff_emptyPackage :
    InboundSafe freshStore 7 (emptyPackage.take 18) none ⟨100, 0⟩ 100 ↔
      8192 < 18 ∨ freshStore.pool.Exhausted none ∨
        (sizeofProtoHeader ≤ 18 ∧ 18 ≤ sizeofProtoHeader + bufSize) ∧
          0 ≤ (7 : Int32).toInt ∧ (7 : Int32).toInt < freshStore.maxOpenFd :=
  inboundSafe_iff ⟨by decide, by decide, by decide⟩ freshStore 7 none ⟨100, 0⟩ 100

end ThriftProxy
