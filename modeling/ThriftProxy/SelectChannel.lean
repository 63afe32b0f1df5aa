import ThriftProxy.Lib.Memory
import ThriftProxy.Lib.Residues

/-!
# The distribution of packages over workers

`select_channel` of `server.cpp` sends the packages of the clients to the
workers in turn, leaving out the last one, which `plugin_init` makes the control
process. Its counter is an `int` that is converted to `unsigned` for the
remainder, so the rotation is exact until the counter has run through all its
values, and beyond only if their number is a multiple of the number of workers.
-/

namespace ThriftProxy

open Machine Residues

/-- The processes of the server. -/
inductive ProcType
  | procMain
  | procConn
  | procWork

/-- The implementations of `IProcessor` that `plugin_init` creates. -/
inductive Processor
  | proxy
  | control
  deriving DecidableEq

/-- `plugin_init`: its return code and the processor it creates. Whether the
processor can be created and initialised is supplied by the environment. -/
def pluginInit (type : ProcType) (workIdx workNum : UInt32) (starts : Processor → Bool) :
    ℤ × Option Processor :=
  match type with
  | .procWork =>
    let main := if workIdx = workNum - 1 then .control else .proxy
    (if starts main then 0 else -1, some main)
  | .procMain => (0, none)
  | .procConn => (0, none)

/-- `select_channel`: the next `serialize_num` and the channel. With one worker
the divisor is zero. -/
def selectChannel (serializeNum : ℤ) (workNum : UInt32) : Option (ℤ × ℤ) :=
  if workNum - 1 = 0 then none
  else
    some (wrapInt (serializeNum + 1), wrapInt (UInt32.ofInt serializeNum % (workNum - 1)).toNat)

/-- The channels of some consecutive calls. -/
def channels (workNum : UInt32) : ℕ → ℤ → List ℤ
  | 0, _ => []
  | calls + 1, serializeNum =>
    match selectChannel serializeNum workNum with
    | some (next, channel) => channel :: channels workNum calls next
    | none => []

/-- The number of proxies among the workers. -/
def proxyCount (workNum : UInt32) : ℕ := workNum.toNat - 1

/-- The first calls distribute the packages over the proxies: each result is the
index of a proxy, and every window of some rounds of calls chooses each proxy
once a round. -/
structure Distributes (workNum : UInt32) (calls : ℕ) : Prop where
  /-- Each result is the index of a worker that `plugin_init` makes a proxy. -/
  proxy : ∀ r ∈ channels workNum calls 0, 0 ≤ r ∧ r < proxyCount workNum ∧
    ∀ starts, (pluginInit .procWork (UInt32.ofInt r) workNum starts).2 = some .proxy
  /-- Each proxy is chosen once a round. -/
  fair : ∀ k m, k + m * proxyCount workNum ≤ calls → ∀ j < proxyCount workNum,
    (((channels workNum calls 0).drop k).take (m * proxyCount workNum)).count (j : ℤ) = m

/-! ## The channels of consecutive calls -/

/-- The divisor of `select_channel` is the number of proxies. -/
theorem toNat_sub_one {workNum : UInt32} (h : 2 ≤ workNum.toNat) :
    (workNum - 1).toNat = proxyCount workNum := by
  rw [UInt32.toNat_sub_of_le _ _ (by rw [UInt32.le_iff_toNat_le]; simp; omega)]
  rfl

/-- The wrapped counter converts to the number of calls modulo `2 ^ 32`. -/
theorem uint32_ofInt_wrapInt (k : ℕ) : (UInt32.ofInt (wrapInt k)).toNat = k % 2 ^ 32 := by
  have hmod : wrapInt (k : ℤ) % 2 ^ 32 = (k % 2 ^ 32 : ℕ) := by
    have h := Int.bmod_emod (x := (k : ℤ)) (m := 2 ^ 32)
    push_cast at h ⊢
    exact h
  rw [UInt32.ofInt, hmod, Int.toNat_natCast, UInt32.toNat_ofNat', Nat.mod_mod]

/-- The channels of some calls, the first of which has been preceded by `k` others. -/
theorem channels_eq {workNum : UInt32} (h : 2 ≤ workNum.toNat) (calls k : ℕ) :
    channels workNum calls (wrapInt k) =
      (List.range' k calls).map fun i => wrapInt (i % 2 ^ 32 % proxyCount workNum : ℕ) := by
  induction calls generalizing k with
  | zero => rfl
  | succ calls ih =>
    have hdivisor := toNat_sub_one h
    have hne : ¬ workNum - 1 = 0 := by
      intro hzero
      rw [hzero] at hdivisor
      unfold proxyCount at hdivisor
      simp at hdivisor
      omega
    have hnext : wrapInt (wrapInt (k : ℤ) + 1) = wrapInt ((k + 1 : ℕ) : ℤ) := by
      unfold wrapInt
      rw [Int.bmod_add_bmod]
      push_cast
      rfl
    simp only [channels, selectChannel, hne, if_false, hnext, ih, List.range'_succ, List.map_cons,
      UInt32.toNat_mod, uint32_ofInt_wrapInt, hdivisor]

/-- The channels of the calls since the start of the process. -/
theorem channels_zero {workNum : UInt32} (h : 2 ≤ workNum.toNat) (calls : ℕ) :
    channels workNum calls 0 =
      (List.range' 0 calls).map fun i => wrapInt (i % 2 ^ 32 % proxyCount workNum : ℕ) := by
  have heq := channels_eq h calls 0
  rwa [show wrapInt ((0 : ℕ) : ℤ) = 0 by decide] at heq

/-- A window of the calls since the start of the process. -/
theorem window_eq {workNum : UInt32} (h : 2 ≤ workNum.toNat) {calls k length : ℕ}
    (hwindow : k + length ≤ calls) :
    ((channels workNum calls 0).drop k).take length =
      (List.range length).map fun i =>
        wrapInt ((k + i) % 2 ^ 32 % proxyCount workNum : ℕ) := by
  rw [channels_zero h, ← List.map_drop, ← List.map_take, List.drop_range',
    List.take_range'_of_length_ge (by omega), List.range'_eq_map_range, List.map_map]
  simp [Function.comp_def]

/-- A remainder that an `int` can hold is the channel itself. -/
theorem wrapInt_natCast {x : ℕ} (h : x < 2 ^ 31) : wrapInt (x : ℤ) = x :=
  wrapInt_eq_self (by omega) (by omega)

/-- How often a window chooses a proxy, when every channel is an `int`. -/
theorem count_window {workNum : UInt32} (h : 2 ≤ workNum.toNat)
    (hint : proxyCount workNum ≤ 2 ^ 31) {calls k length j : ℕ} (hwindow : k + length ≤ calls) :
    (((channels workNum calls 0).drop k).take length).count (j : ℤ) =
      Nat.count (fun i => (k + i) % 2 ^ 32 % proxyCount workNum = j) length := by
  have hpos : 0 < proxyCount workNum := by unfold proxyCount; omega
  rw [window_eq h hwindow, List.count, List.countP_map, Nat.count]
  apply List.countP_congr
  intro i _
  have hlt := Nat.mod_lt ((k + i) % 2 ^ 32) hpos
  rw [Function.comp, wrapInt_natCast (by omega), beq_iff_eq, decide_eq_true_eq, Nat.cast_inj]

/-- The index of a proxy is not that of the control process. -/
theorem pluginInit_of_lt {workNum idx : UInt32} (h : 2 ≤ workNum.toNat)
    (hlt : idx.toNat < proxyCount workNum) (starts : Processor → Bool) :
    (pluginInit .procWork idx workNum starts).2 = some .proxy := by
  have hne : idx ≠ workNum - 1 := by
    rintro rfl
    rw [toNat_sub_one h] at hlt
    exact lt_irrefl _ hlt
  simp [pluginInit, hne]

/-! ## Exact distribution -/

/-- Before the counter has run through all its values, or when their number is a
multiple of the number of proxies, the channel is the number of the call modulo
the number of proxies. -/
theorem channel_eq_mod {n i calls : ℕ} (h : calls ≤ 2 ^ 32 ∨ n ∣ 2 ^ 32) (hi : i < calls) :
    i % 2 ^ 32 % n = i % n := by
  rcases h with hcalls | hdvd
  · have hlt : i < 2 ^ 32 := by omega
    rw [Nat.mod_eq_of_lt hlt]
  · exact Nat.mod_mod_of_dvd i hdvd

/-- The window around the wrap of the counter misses a proxy. -/
theorem count_window_wrap {n : ℕ} (hpos : 0 < n) (hn : n ≤ 2 ^ 32) (hdvd : ¬ n ∣ 2 ^ 32) :
    Nat.count (fun i => (2 ^ 32 + 1 - n + i) % 2 ^ 32 % n = 2 ^ 32 % n) n = 0 := by
  rw [Nat.count_iff_forall_not]
  intro i hi heq
  by_cases hlast : i + 1 = n
  · rw [show 2 ^ 32 + 1 - n + i = 2 ^ 32 by omega, Nat.mod_self, Nat.zero_mod] at heq
    exact hdvd (Nat.dvd_of_mod_eq_zero heq.symm)
  · rw [Nat.mod_eq_of_lt (show 2 ^ 32 + 1 - n + i < 2 ^ 32 by omega)] at heq
    have hround := count_mod_eq_zero (n := n) (k := 2 ^ 32 + 1 - n) (le_refl (n - 1)) (by omega)
    rw [show 2 ^ 32 + 1 - n + (n - 1) = 2 ^ 32 by omega, Nat.count_iff_forall_not] at hround
    exact hround i (by omega) heq

/-- There are fewer than `2 ^ 32` proxies. -/
theorem proxyCount_lt (workNum : UInt32) : proxyCount workNum < 2 ^ 32 :=
  lt_of_le_of_lt (Nat.sub_le _ _) workNum.toNat_lt

/-- A fair distribution has no result beyond the range of an `int`. -/
theorem Distributes.int_suffices {workNum : UInt32} {calls : ℕ} (hdist : Distributes workNum calls)
    (h : 2 ≤ workNum.toNat) : proxyCount workNum ≤ 2 ^ 31 ∨ calls ≤ 2 ^ 31 := by
  by_contra hne
  push Not at hne
  have hmem : wrapInt (2 ^ 31 % 2 ^ 32 % proxyCount workNum : ℕ) ∈ channels workNum calls 0 := by
    rw [channels_zero h]
    exact List.mem_map.mpr ⟨2 ^ 31, by simp; omega, rfl⟩
  have hneg := (hdist.proxy _ hmem).1
  rw [Nat.mod_eq_of_lt (show 2 ^ 31 < 2 ^ 32 by decide), Nat.mod_eq_of_lt hne.1] at hneg
  exact absurd hneg (by decide)

/-- In a fair distribution the wrap of the counter is not noticed. -/
theorem Distributes.counter_suffices {workNum : UInt32} {calls : ℕ}
    (hdist : Distributes workNum calls) (h : 2 ≤ workNum.toNat) :
    calls ≤ 2 ^ 32 ∨ proxyCount workNum ∣ 2 ^ 32 := by
  have hint := hdist.int_suffices h
  have hpos : 0 < proxyCount workNum := by unfold proxyCount; omega
  have hmax := proxyCount_lt workNum
  by_contra hne
  push Not at hne
  have hwindow : (2 ^ 32 + 1 - proxyCount workNum) + 1 * proxyCount workNum ≤ calls := by omega
  have honce := hdist.fair _ 1 hwindow (2 ^ 32 % proxyCount workNum) (Nat.mod_lt _ hpos)
  rw [count_window h (by omega) hwindow, Nat.one_mul,
    count_window_wrap hpos hmax.le hne.2] at honce
  cases honce

/-- **Work distribution.** The first calls of `select_channel` distribute the
packages over the proxies if and only if the counter has not yet run through all
its values or the number of proxies divides `2 ^ 32`, and the remainders fit
into an `int` as long as they reach its range. -/
theorem distributes_iff {workNum : UInt32} (h : 2 ≤ workNum.toNat) (calls : ℕ) :
    Distributes workNum calls ↔
      (calls ≤ 2 ^ 32 ∨ proxyCount workNum ∣ 2 ^ 32) ∧
        (proxyCount workNum ≤ 2 ^ 31 ∨ calls ≤ 2 ^ 31) := by
  have hpos : 0 < proxyCount workNum := by unfold proxyCount; omega
  have hmax := proxyCount_lt workNum
  constructor
  · intro hdist
    exact ⟨hdist.counter_suffices h, hdist.int_suffices h⟩
  · rintro ⟨hcalls, hint⟩
    have hchannel : ∀ i < calls, i % 2 ^ 32 % proxyCount workNum < 2 ^ 31 := by
      intro i hi
      rw [channel_eq_mod hcalls hi]
      have hlt := Nat.mod_lt i hpos
      have hle := Nat.mod_le i (proxyCount workNum)
      omega
    constructor
    · intro r hr
      rw [channels_zero h] at hr
      obtain ⟨i, hi, rfl⟩ := List.mem_map.mp hr
      have hlt := Nat.mod_lt (i % 2 ^ 32) hpos
      rw [wrapInt_natCast (hchannel i (by simpa using hi))]
      refine ⟨by omega, by exact_mod_cast hlt, ?_⟩
      apply pluginInit_of_lt h
      rw [uint32_ofInt_natCast, UInt32.toNat_ofNat', Nat.mod_eq_of_lt (by omega)]
      exact hlt
    · intro k m hwindow j hj
      by_cases hsmall : proxyCount workNum ≤ 2 ^ 31
      · rw [count_window h hsmall hwindow]
        have hsame : Nat.count (fun i => (k + i) % 2 ^ 32 % proxyCount workNum = j)
            (m * proxyCount workNum) =
            Nat.count (fun i => (k + i) % proxyCount workNum = j) (m * proxyCount workNum) := by
          apply List.countP_congr
          intro i hi
          have hlt := List.mem_range.mp hi
          simp only [channel_eq_mod hcalls (show k + i < calls by omega)]
        rw [hsame, count_mod_window hj]
      · -- no round fits into the calls
        obtain rfl : m = 0 := by
          by_contra hne
          have hround := Nat.le_mul_of_pos_left (proxyCount workNum) (Nat.pos_of_ne_zero hne)
          omega
        simp

/-- With three proxies, the calls before and after the wrap of the counter both
choose the first of them. -/
theorem not_distributes_wrap : ¬ Distributes 4 (2 ^ 32 + 1) := by
  intro hdist
  have hmiss := hdist.fair (2 ^ 32 - 2) 1 (by decide) 1 (by decide)
  rw [count_window (by decide) (by decide) (by decide)] at hmiss
  exact absurd hmiss (by decide)

/-- The equivalence for three proxies and the first six calls. -/
theorem distributes_iff_three : Distributes 4 6 ∧ channels 4 6 0 = [0, 1, 2, 0, 1, 2] :=
  ⟨(distributes_iff (by decide) 6).mpr ⟨Or.inl (by decide), Or.inl (by decide)⟩, by decide⟩

end ThriftProxy
