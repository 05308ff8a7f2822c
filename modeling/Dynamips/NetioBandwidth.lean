import Dynamips.Lib.RunningTotal
import Mathlib.Data.BitVec
import Mathlib.Data.Rat.Floor
import Mathlib.Tactic.NormNum
import Mathlib.Tactic.Linarith

/-! The bandwidth constraint of a NetIO descriptor: the counters of the last slots of
time, and what they say about a transmission. -/
set_option autoImplicit false

namespace Dynamips.NetioBw
open RunningTotal Function

def netioBwSamples : Nat := 10

def netioBwSampleItv : Nat := 30

instance : NeZero netioBwSamples := ⟨by decide⟩

/-- `ptask_sleep_time`, which a start with zero leaves as it is. -/
abbrev SleepTime := {t : BitVec 32 // t ≠ 0}

/-- The bandwidth fields of `netio_desc` -/
structure Netio where
  bandwidth : BitVec 32
  bwCnt : Fin netioBwSamples → BitVec 64
  bwCntTotal : BitVec 64
  bwPos : Fin netioBwSamples
  bwPtaskCnt : BitVec 32

/-- `netio_create` fills the descriptor with zeros. -/
def Netio.init : Netio where
  bandwidth := 0
  bwCnt := fun _ => 0
  bwCntTotal := 0
  bwPos := ⟨0, by decide⟩
  bwPtaskCnt := 0

def netioCanTransmit (nio : Netio) : Bool :=
  if nio.bandwidth = 0 then true
  else
    let bwCurrent : BitVec 32 := (nio.bwCntTotal * 8 * 1000).setWidth 32
    let bwCurrent := bwCurrent / BitVec.ofNat 32 (1024 * netioBwSampleItv * netioBwSamples)
    decide (bwCurrent < nio.bandwidth)

def netioUpdateBwStat (nio : Netio) (bytes : BitVec 64) : Netio :=
  { nio with
    bwCnt := update nio.bwCnt nio.bwPos (nio.bwCnt nio.bwPos + bytes)
    bwCntTotal := nio.bwCntTotal + bytes }

/-- `++bw_pos`, back to zero behind the last counter. -/
def nextPos (pos : Fin netioBwSamples) : Fin netioBwSamples :=
  if h : (pos : Nat) + 1 = netioBwSamples then ⟨0, by decide⟩ else ⟨pos + 1, by omega⟩

def netioClearBwStat (ptaskSleepTime : SleepTime) (nio : Netio) : Netio :=
  let bwPtaskCnt := nio.bwPtaskCnt + 1
  if bwPtaskCnt = BitVec.ofNat 32 netioBwSampleItv / ptaskSleepTime.1 then
    let bwPos := nextPos nio.bwPos
    { nio with
      bwPtaskCnt := 0
      bwPos
      bwCntTotal := nio.bwCntTotal - nio.bwCnt bwPos
      bwCnt := update nio.bwCnt bwPos 0 }
  else { nio with bwPtaskCnt }

def netioSetBandwidth (nio : Netio) (bandwidth : BitVec 32) : Netio := { nio with bandwidth }

inductive Op where
  | transmit (bytes : BitVec 64)
  | clear (ptaskSleepTime : SleepTime)
  | setBandwidth (bandwidth : BitVec 32)

/-- The descriptor, and how many bytes were transmitted in each slot of time, the
newest in front. -/
structure World where
  nio : Netio
  slots : List Nat

def World.init : World := ⟨Netio.init, []⟩

/-- A slot ends where `netio_clear_bw_stat` goes to the next counter. -/
def step (w : World) : Op → World
  | .transmit bytes => ⟨netioUpdateBwStat w.nio bytes, countNewest bytes.toNat w.slots⟩
  | .clear t =>
    let nio := netioClearBwStat t w.nio
    ⟨nio, if nio.bwPos = w.nio.bwPos then w.slots else 0 :: w.slots⟩
  | .setBandwidth bandwidth => ⟨netioSetBandwidth w.nio bandwidth, w.slots⟩

def run (ops : List Op) : World := ops.foldl step World.init

def World.bytes (w : World) : Nat := windowSum netioBwSamples w.slots

/-- The measured bandwidth in Kb/s: the bits of the window over its seconds. -/
def World.measured (w : World) : Rat :=
  ((w.bytes : Rat) * 8 / 1024) / ((netioBwSampleItv : Rat) * netioBwSamples / 1000)

/-- The total is the sum of the counters, and a transmission is allowed exactly below
the limit. -/
structure BwOk (w : World) : Prop where
  total : w.nio.bwCntTotal = ∑ i, w.nio.bwCnt i
  limit : netioCanTransmit w.nio = true ↔
    w.nio.bandwidth = 0 ∨ w.measured < (w.nio.bandwidth.toNat : Rat)

/-- The product with the bytes of the window, and what it is compared with. -/
def World.product (w : World) : Nat := w.bytes * 8 * 1000

def World.limit (w : World) : Nat :=
  w.nio.bandwidth.toNat * (1024 * netioBwSampleItv * netioBwSamples)

/-- A product that has reached the limit has done so in its lower 32 bits. -/
def ProductFits (w : World) : Prop := w.limit ≤ w.product → w.limit ≤ w.product % 2 ^ 32

structure Counts (w : World) : Prop where
  total : w.nio.bwCntTotal = ∑ i, w.nio.bwCnt i
  holds : Holds w.nio.bwCnt w.nio.bwPos w.slots

theorem nextPos_eq (pos : Fin netioBwSamples) : nextPos pos = pos + 1 := by
  revert pos
  decide

theorem nextPos_ne (pos : Fin netioBwSamples) : nextPos pos ≠ pos := by
  revert pos
  decide

theorem natCast_toNat (x : BitVec 64) : ((x.toNat : Nat) : BitVec 64) = x := by
  simp

theorem counts_step {w : World} (h : Counts w) (op : Op) : Counts (step w op) := by
  cases op with
  | transmit bytes =>
    refine ⟨?_, ?_⟩
    · simp only [step, netioUpdateBwStat]
      rw [sum_update, h.total]
      ring
    · have hcount := h.holds.count bytes.toNat
      rwa [natCast_toNat] at hcount
  | clear t =>
    simp only [step, netioClearBwStat]
    split
    · rw [if_neg (nextPos_ne _)]
      refine ⟨?_, ?_⟩
      · simp only
        rw [sum_update, h.total, add_zero]
      · simp only [nextPos_eq]
        exact h.holds.rotate
    · rw [if_pos rfl]
      exact ⟨h.total, h.holds⟩
  | setBandwidth bandwidth => exact ⟨h.total, h.holds⟩

theorem counts_init : Counts World.init := by
  refine ⟨?_, fun k => ?_⟩
  · simp [World.init, Netio.init]
  · simp [World.init, Netio.init]

theorem counts_run (ops : List Op) : Counts (run ops) := by
  induction ops using List.reverseRecOn with
  | nil => exact counts_init
  | append_singleton ops op ih =>
    rw [run, List.foldl_concat]
    exact counts_step ih op

variable {w : World}

theorem toNat_product (h : Counts w) :
    ((w.nio.bwCntTotal * 8 * 1000).setWidth 32).toNat = w.product % 2 ^ 32 := by
  have htotal : w.nio.bwCntTotal.toNat = w.bytes % 2 ^ 64 := by
    rw [h.total, h.holds.sum_eq, BitVec.natCast_eq_ofNat, BitVec.toNat_ofNat]
    rfl
  have hbits : (8 : BitVec 64).toNat = 8 := rfl
  have hmillis : (1000 : BitVec 64).toNat = 1000 := rfl
  simp only [BitVec.toNat_setWidth, BitVec.toNat_mul, htotal, hbits, hmillis, World.product]
  omega

theorem canTransmit_iff (h : Counts w) : netioCanTransmit w.nio = true ↔
    w.nio.bandwidth = 0 ∨ w.product % 2 ^ 32 < w.limit := by
  simp only [netioCanTransmit]
  split
  · rename_i hzero
    simp [hzero]
  · rename_i hne
    rw [decide_eq_true_eq, BitVec.lt_def, BitVec.toNat_udiv, toNat_product h,
      Nat.div_lt_iff_lt_mul (by decide), or_iff_right hne]
    rfl

theorem measured_lt_iff (w : World) :
    w.measured < (w.nio.bandwidth.toNat : Rat) ↔ w.product < w.limit := by
  have hlimit : (w.product : Rat) < w.limit ↔ w.product < w.limit := Nat.cast_lt
  rw [← hlimit]
  simp only [World.measured, World.product, World.limit, netioBwSampleItv, netioBwSamples]
  push_cast
  constructor
  · intro h
    linarith
  · intro h
    linarith

/-- After every history of transmissions and resets the total is the sum of the
counters; the limit is applied exactly where the product has not lost it. -/
theorem bw_ok_iff (ops : List Op) : BwOk (run ops) ↔ ProductFits (run ops) := by
  have h := counts_run ops
  have hexact : (netioCanTransmit (run ops).nio = true ↔
      (run ops).nio.bandwidth = 0 ∨ (run ops).measured < ((run ops).nio.bandwidth.toNat : Rat)) ↔
        ProductFits (run ops) := by
    rw [canTransmit_iff h, measured_lt_iff, ProductFits]
    have hmod := Nat.mod_le (run ops).product (2 ^ 32)
    by_cases hzero : (run ops).nio.bandwidth = 0
    · have hlimit : (run ops).limit = 0 := by simp [World.limit, hzero]
      simp [hzero, hlimit]
    · simp only [hzero, false_or]
      omega
  exact ⟨fun hok => hexact.mp hok.limit, fun hfits => ⟨h.total, hexact.mpr hfits⟩⟩

theorem slots_transmits {y : Nat} {slots : List Nat} (h : w.slots = y :: slots) (k : Nat)
    (bytes : BitVec 64) : ((List.replicate k (Op.transmit bytes)).foldl step w).slots =
      (y + k * bytes.toNat) :: slots := by
  induction k generalizing w y with
  | zero => simpa using h
  | succ k ih =>
    have hnext : (step w (.transmit bytes)).slots = (y + bytes.toNat) :: slots := by
      simp [step, h, countNewest]
    rw [List.replicate_succ, List.foldl_cons, ih hnext, Nat.succ_mul]
    congr 1
    omega

theorem bandwidth_transmits (k : Nat) (bytes : BitVec 64) :
    ((List.replicate k (Op.transmit bytes)).foldl step w).nio.bandwidth = w.nio.bandwidth := by
  induction k generalizing w with
  | zero => rfl
  | succ k ih =>
    rw [List.replicate_succ, List.foldl_cons, ih]
    rfl

/-- 263 packets of 2048 bytes in one slot of time, with a limit of 10000 Kb/s -/
def burstOps : List Op :=
  .setBandwidth 10000 :: .transmit 2048 :: List.replicate 262 (.transmit 2048)

theorem run_burstOps : (run burstOps).slots = [538624] ∧
    (run burstOps).nio.bandwidth = 10000 := by
  rw [run, burstOps, List.foldl_cons, List.foldl_cons, bandwidth_transmits]
  refine ⟨?_, rfl⟩
  rw [@slots_transmits _ 2048 [] rfl]
  simp

theorem not_bw_ok : ¬ BwOk (run burstOps) := by
  obtain ⟨hslots, hband⟩ := run_burstOps
  have hbytes : (run burstOps).bytes = 538624 := by
    simp [World.bytes, hslots, windowSum, netioBwSamples, Finset.sum_range_succ]
  intro hok
  have hlimit := hok.limit
  rw [canTransmit_iff (counts_run burstOps), measured_lt_iff] at hlimit
  simp [World.product, World.limit, hbytes, hband, netioBwSampleItv, netioBwSamples] at hlimit

end Dynamips.NetioBw
