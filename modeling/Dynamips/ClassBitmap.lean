import Mathlib.Algebra.Order.Ring.Int
import Mathlib.Data.List.FinRange
import Mathlib.Tactic.ByContra
set_option autoImplicit false

namespace Dynamips.Ilt

/-- `normalize_size` of utils.h, in `u_int` arithmetic. -/
def normalizeSize (val nb : BitVec 32) (shift : Nat) : BitVec 32 :=
  ((val + nb - 1) &&& ~~~(nb - 1)) >>> shift

theorem normalizeSize_cbm {n : Nat} (h : n < 2 ^ 31) :
    (normalizeSize (BitVec.ofNat 32 n) 32#32 5).toNat = (n + 31) / 32 := by
  have hmask : ∀ x : BitVec 32, (x &&& ~~~(31#32)) >>> 5 = x >>> 5 := by
    intro x
    apply BitVec.eq_of_getLsbD_eq
    intro i hi
    have h31 : (31#32).getLsbD (5 + i) = false := by
      rw [show (31#32) = BitVec.ofNat 32 (2 ^ 5 - 1) from rfl, BitVec.getLsbD_ofNat,
        Nat.testBit_two_pow_sub_one]
      simp
    simp only [BitVec.getLsbD_ushiftRight, BitVec.getLsbD_and, BitVec.getLsbD_not, h31]
    by_cases hlt : 5 + i < 32
    · simp [hlt]
    · simp [BitVec.getLsbD_of_ge x (5 + i) (by omega)]
  have hval : BitVec.ofNat 32 n + 32#32 - 1 = BitVec.ofNat 32 (n + 31) := by
    apply BitVec.eq_of_toNat_eq
    simp
    omega
  have hone : (32#32 - 1 : BitVec 32) = 31#32 := rfl
  rw [normalizeSize, hval, hone, hmask,
    BitVec.toNat_ushiftRight, BitVec.toNat_ofNat, Nat.shiftRight_eq_div_pow]
  omega

/-- The arguments of `ilt_create`: `get_insn` is only called on the indices of
the table, and the count is an `int`. -/
structure InsnTable (Insn : Type) where
  nrInsn : Nat
  getInsn : Fin nrInsn → Insn
  chkHi : Insn → Nat → Bool
  chkLo : Insn → Nat → Bool
  nrInsn_lt : nrInsn < 2 ^ 31

namespace InsnTable

variable {Insn : Type} (ilt : InsnTable Insn)

def cbmSize : Nat := (normalizeSize (BitVec.ofNat 32 ilt.nrInsn) 32#32 5).toNat

theorem cbmSize_eq : ilt.cbmSize = (ilt.nrInsn + 31) / 32 :=
  normalizeSize_cbm ilt.nrInsn_lt

theorem slot_lt (i : Fin ilt.nrInsn) : i.val >>> 5 < ilt.cbmSize := by
  have hi := i.isLt
  rw [cbmSize_eq, Nat.shiftRight_eq_div_pow]
  omega

end InsnTable

variable {Insn : Type} {ilt : InsnTable Insn}

/-- A class bitmap of `cbm_size` words; every rule number addresses one of them. -/
abbrev Cbm (ilt : InsnTable Insn) := Vector (BitVec 32) ilt.cbmSize

def ruleMask (rule : Nat) : BitVec 32 := 1#32 <<< (rule &&& 31)

def cbmSetRule (cbm : Cbm ilt) (rule : Fin ilt.nrInsn) : Cbm ilt :=
  have h := ilt.slot_lt rule
  cbm.set (rule.val >>> 5) (cbm[rule.val >>> 5] ||| ruleMask rule)

def cbmUnsetRule (cbm : Cbm ilt) (rule : Fin ilt.nrInsn) : Cbm ilt :=
  have h := ilt.slot_lt rule
  cbm.set (rule.val >>> 5) (cbm[rule.val >>> 5] &&& ~~~ruleMask rule)

def cbmCheckRule (cbm : Cbm ilt) (rule : Fin ilt.nrInsn) : Bool :=
  have h := ilt.slot_lt rule
  (cbm[rule.val >>> 5] &&& ruleMask rule) != 0

def cbmBitwiseAnd (a1 a2 : Cbm ilt) : Cbm ilt :=
  Vector.zipWith (· &&& ·) a1 a2

/-- `cbm_first_match`: the first rule whose bit is set, or -1. -/
def cbmFirstMatch (cbm : Cbm ilt) : Int :=
  match (List.finRange ilt.nrInsn).find? (cbmCheckRule cbm) with
  | some i => i.val
  | none => -1

def cbmCreate : Cbm ilt := Vector.replicate ilt.cbmSize 0#32

/-- Bit `k` of a bitmap, padding included. -/
def cbmBit (cbm : Cbm ilt) (k : Nat) : Bool :=
  (cbm[k / 32]?.getD 0#32).getLsbD (k % 32)

theorem cbm_ext {a b : Cbm ilt} (h : ∀ k, cbmBit a k = cbmBit b k) : a = b := by
  apply Vector.ext
  intro i hi
  apply BitVec.eq_of_getLsbD_eq
  intro j hj
  have hk := h (32 * i + j)
  have hdiv : (32 * i + j) / 32 = i := by omega
  have hmod : (32 * i + j) % 32 = j := by omega
  simpa [cbmBit, hdiv, hmod, hi] using hk

theorem cbmBit_cbmCreate (k : Nat) : cbmBit (cbmCreate : Cbm ilt) k = false := by
  by_cases h : k / 32 < ilt.cbmSize
  · simp [cbmBit, cbmCreate, h]
  · simp [cbmBit, cbmCreate, h]

theorem getLsbD_ruleMask (rule k : Nat) :
    (ruleMask rule).getLsbD (k % 32) = decide (k % 32 = rule % 32) := by
  have hmask : rule &&& 31 = rule % 32 := Nat.and_two_pow_sub_one_eq_mod rule 5
  have hlt : k % 32 < 32 := by omega
  rw [ruleMask, hmask, BitVec.getLsbD_shiftLeft]
  by_cases h : k % 32 = rule % 32
  · simp [h, Nat.mod_lt]
  · by_cases hle : k % 32 < rule % 32
    · simp [h, hle]
    · have hpos : k % 32 - rule % 32 ≠ 0 := by omega
      simp [h, hpos]

theorem getLsbD_slot (cbm : Cbm ilt) (rule : Fin ilt.nrInsn) {k : Nat}
    (hk : k / 32 = rule.val / 32) (h : rule.val >>> 5 < ilt.cbmSize) :
    cbm[rule.val >>> 5].getLsbD (k % 32) = cbmBit cbm k := by
  have hshift : rule.val >>> 5 = rule.val / 32 := Nat.shiftRight_eq_div_pow _ 5
  have hlt : rule.val / 32 < ilt.cbmSize := by omega
  simp [cbmBit, hk, hshift, hlt]

theorem cbmBit_set (cbm : Cbm ilt) (rule : Fin ilt.nrInsn) (f : BitVec 32 → BitVec 32) (k : Nat)
    (h : rule.val >>> 5 < ilt.cbmSize) :
    cbmBit (cbm.set (rule.val >>> 5) (f cbm[rule.val >>> 5]) h) k =
      if k / 32 = rule.val / 32 then (f cbm[rule.val >>> 5]).getLsbD (k % 32) else cbmBit cbm k := by
  have hshift : rule.val >>> 5 = rule.val / 32 := Nat.shiftRight_eq_div_pow _ 5
  by_cases hk : k / 32 = rule.val / 32
  · have hlt : k / 32 < ilt.cbmSize := by omega
    simp [cbmBit, hk, hshift]
  · have hne : rule.val >>> 5 ≠ k / 32 := by omega
    simp [cbmBit, hk, hne]

theorem cbmBit_cbmSetRule (cbm : Cbm ilt) (rule : Fin ilt.nrInsn) (k : Nat) :
    cbmBit (cbmSetRule cbm rule) k = (decide (k = rule.val) || cbmBit cbm k) := by
  have hlt := ilt.slot_lt rule
  rw [cbmSetRule, cbmBit_set cbm rule (· ||| ruleMask rule.val)]
  by_cases hk : k / 32 = rule.val / 32
  · have hword := getLsbD_slot cbm rule hk hlt
    rw [if_pos hk, BitVec.getLsbD_or, hword, getLsbD_ruleMask, Bool.or_comm]
    congr 2
    apply propext
    omega
  · have hne : k ≠ rule.val := by rintro rfl; exact hk rfl
    simp [hk, hne]

theorem cbmBit_cbmUnsetRule (cbm : Cbm ilt) (rule : Fin ilt.nrInsn) (k : Nat) :
    cbmBit (cbmUnsetRule cbm rule) k = (!decide (k = rule.val) && cbmBit cbm k) := by
  have hlt := ilt.slot_lt rule
  rw [cbmUnsetRule, cbmBit_set cbm rule (· &&& ~~~ruleMask rule.val)]
  by_cases hk : k / 32 = rule.val / 32
  · have hword := getLsbD_slot cbm rule hk hlt
    have hbit : k % 32 < 32 := Nat.mod_lt _ (by decide)
    have hiff : (k % 32 = rule.val % 32) = (k = rule.val) := by
      apply propext
      omega
    simp only [hk, if_true, BitVec.getLsbD_and, BitVec.getLsbD_not, hword, getLsbD_ruleMask, hbit,
      hiff, decide_true, Bool.true_and, Bool.and_comm]
  · have hne : k ≠ rule.val := by rintro rfl; exact hk rfl
    simp [hk, hne]

theorem cbmCheckRule_eq (cbm : Cbm ilt) (rule : Fin ilt.nrInsn) :
    cbmCheckRule cbm rule = cbmBit cbm rule.val := by
  have hlt := ilt.slot_lt rule
  have hbit := getLsbD_slot cbm rule rfl hlt
  have hmask : ruleMask rule.val = BitVec.twoPow 32 (rule.val % 32) := by
    rw [ruleMask, BitVec.twoPow_eq, show rule.val &&& 31 = rule.val % 32 from
      Nat.and_two_pow_sub_one_eq_mod rule.val 5]
  rw [cbmCheckRule, ← hbit, hmask, BitVec.and_twoPow]
  cases h : cbm[rule.val >>> 5].getLsbD (rule.val % 32) with
  | false => simp
  | true =>
    have hne : BitVec.twoPow 32 (rule.val % 32) ≠ 0#32 := by
      intro hz
      have hself := BitVec.getLsbD_twoPow (w := 32) (rule.val % 32) (rule.val % 32)
      rw [hz] at hself
      simp [Nat.mod_lt] at hself
    simpa using hne

theorem cbmBit_cbmBitwiseAnd (a1 a2 : Cbm ilt) (k : Nat) :
    cbmBit (cbmBitwiseAnd a1 a2) k = (cbmBit a1 k && cbmBit a2 k) := by
  by_cases h : k / 32 < ilt.cbmSize
  · simp [cbmBit, cbmBitwiseAnd, h]
  · simp [cbmBit, cbmBitwiseAnd, h]

/-- `rfc_check_insn`: every rule bit of the bitmap is set or cleared in turn. -/
def rfcCheckInsn (ilt : InsnTable Insn) (pcheck : Insn → Nat → Bool) (value : Nat)
    (cbm : Cbm ilt) : Cbm ilt :=
  (List.finRange ilt.nrInsn).foldl
    (fun cbm i => if pcheck (ilt.getInsn i) value then cbmSetRule cbm i else cbmUnsetRule cbm i) cbm

theorem cbmBit_foldl_check (p : Fin ilt.nrInsn → Bool) (l : List (Fin ilt.nrInsn)) (cbm : Cbm ilt)
    (k : Nat) :
    cbmBit (l.foldl (fun cbm i => if p i then cbmSetRule cbm i else cbmUnsetRule cbm i) cbm) k =
      if h : ∃ hk : k < ilt.nrInsn, ⟨k, hk⟩ ∈ l then p ⟨k, h.1⟩ else cbmBit cbm k := by
  induction l generalizing cbm with
  | nil => simp
  | cons i l ih =>
    rw [List.foldl_cons, ih]
    by_cases htail : ∃ hk : k < ilt.nrInsn, ⟨k, hk⟩ ∈ l
    · have hcons : ∃ hk : k < ilt.nrInsn, ⟨k, hk⟩ ∈ i :: l :=
        ⟨htail.1, List.mem_cons_of_mem _ htail.2⟩
      simp only [htail, hcons, dif_pos]
    · by_cases hi : k = i.val
      · have hcons : ∃ hk : k < ilt.nrInsn, ⟨k, hk⟩ ∈ i :: l :=
          ⟨hi ▸ i.isLt, by simp [hi]⟩
        have hfin : (⟨k, hcons.1⟩ : Fin ilt.nrInsn) = i := Fin.ext hi
        rw [dif_neg htail, dif_pos hcons, hfin]
        cases hp : p i with
        | true => simp [cbmBit_cbmSetRule, hi]
        | false => simp [cbmBit_cbmUnsetRule, hi]
      · have hcons : ¬ ∃ hk : k < ilt.nrInsn, ⟨k, hk⟩ ∈ i :: l := by
          rintro ⟨hk, hmem⟩
          rcases List.mem_cons.mp hmem with heq | hmem
          · exact hi (congrArg Fin.val heq)
          · exact htail ⟨hk, hmem⟩
        simp only [htail, hcons, dif_neg, not_false_eq_true]
        cases hp : p i with
        | true => simp [cbmBit_cbmSetRule, hi]
        | false => simp [cbmBit_cbmUnsetRule, hi]

def Padded (cbm : Cbm ilt) : Prop := ∀ k, ilt.nrInsn ≤ k → cbmBit cbm k = false

/-- Membership of rule `k` in the set selected by `p`, false outside the table. -/
def ruleBit (p : Fin ilt.nrInsn → Bool) (k : Nat) : Bool :=
  if h : k < ilt.nrInsn then p ⟨k, h⟩ else false

theorem cbmBit_rfcCheckInsn (pcheck : Insn → Nat → Bool) (value : Nat) {cbm : Cbm ilt}
    (h : Padded cbm) (k : Nat) :
    cbmBit (rfcCheckInsn ilt pcheck value cbm) k =
      ruleBit (fun i => pcheck (ilt.getInsn i) value) k := by
  rw [rfcCheckInsn, cbmBit_foldl_check (fun i => pcheck (ilt.getInsn i) value)]
  by_cases hk : k < ilt.nrInsn
  · simp [ruleBit, hk]
  · simp [ruleBit, hk, h k (by omega)]

theorem padded_rfcCheckInsn (pcheck : Insn → Nat → Bool) (value : Nat) {cbm : Cbm ilt}
    (h : Padded cbm) : Padded (rfcCheckInsn ilt pcheck value cbm) := by
  intro k hk
  rw [cbmBit_rfcCheckInsn pcheck value h]
  simp [ruleBit, Nat.not_lt.mpr hk]

/-- The bitmap of the rules that accept a value, whatever bitmap the check started from. -/
def valueCbm (ilt : InsnTable Insn) (pcheck : Insn → Nat → Bool) (value : Nat) : Cbm ilt :=
  rfcCheckInsn ilt pcheck value cbmCreate

theorem padded_cbmCreate : Padded (cbmCreate : Cbm ilt) := fun k _ => cbmBit_cbmCreate k

theorem rfcCheckInsn_eq (pcheck : Insn → Nat → Bool) (value : Nat) {cbm : Cbm ilt}
    (h : Padded cbm) : rfcCheckInsn ilt pcheck value cbm = valueCbm ilt pcheck value := by
  apply cbm_ext
  intro k
  rw [valueCbm, cbmBit_rfcCheckInsn pcheck value h, cbmBit_rfcCheckInsn pcheck value padded_cbmCreate]

theorem cbmBit_valueCbm (pcheck : Insn → Nat → Bool) (value k : Nat) :
    cbmBit (valueCbm ilt pcheck value) k = ruleBit (fun i => pcheck (ilt.getInsn i) value) k :=
  cbmBit_rfcCheckInsn pcheck value padded_cbmCreate k

theorem valueCbm_eq_iff (pcheck : Insn → Nat → Bool) (v w : Nat) :
    valueCbm ilt pcheck v = valueCbm ilt pcheck w ↔
      ∀ i, pcheck (ilt.getInsn i) v = pcheck (ilt.getInsn i) w := by
  constructor
  · intro h i
    have hbit := congrArg (fun c => cbmBit c i.val) h
    simpa [cbmBit_valueCbm, ruleBit] using hbit
  · intro h
    apply cbm_ext
    intro k
    simp [cbmBit_valueCbm, ruleBit, h]

end Dynamips.Ilt
