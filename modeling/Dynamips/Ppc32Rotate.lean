import Dynamips.Ppc32

/-! The PowerPC shifts and rotates (ppc32_exec.c, ppc32_exec.h). A host shift by
an amount that is not below the width of its operand is undefined in C, and has
no result here. -/
set_option autoImplicit false

namespace Dynamips.Ppc32

open Mips64 (bits)

/-- `x << n` of the host -/
def hostShl (x n : BitVec 32) : Option (BitVec 32) :=
  if n.toNat < 32 then some (x <<< n.toNat) else none

/-- `x >> n` of the host, for an unsigned `x` -/
def hostShr (x n : BitVec 32) : Option (BitVec 32) :=
  if n.toNat < 32 then some (x >>> n.toNat) else none

/-- `x >> n` of the host, for a signed `x` -/
def hostSar (x n : BitVec 32) : Option (BitVec 32) :=
  if n.toNat < 32 then some (x.sshiftRight n.toNat) else none

def rotateMask (mb me : BitVec 32) : Option (BitVec 32) :=
  (hostShr 0xffffffff mb).bind fun first =>
    (hostShr 0xffffffff me).bind fun last =>
      (hostShr last 1).map fun last =>
        if me < mb then ~~~(first ^^^ last) else first ^^^ last

def hostRotate (x sh : BitVec 32) : Option (BitVec 32) :=
  (hostShl x sh).bind fun left => (hostShr x (32 - sh)).map fun right => left ||| right

def fieldSh (insn : Insn) : BitVec 32 := bits insn 11 15

def fieldMb (insn : Insn) : BitVec 32 := bits insn 6 10

def fieldMe (insn : Insn) : BitVec 32 := bits insn 1 5

/-- The end of a handler: CR0 for the dot forms, then the register. -/
def finishShift (rc : Bool) (regs : Regs) (insn : Insn) (tmp : BitVec 32) : Regs :=
  (if rc then execUpdateCr0 regs tmp else regs).setGpr (regA insn) tmp

def rotateInsert (rc : Bool) (regs : Regs) (insn : Insn) : Option Regs :=
  (hostRotate (regs.gpr (regD insn)) (fieldSh insn)).bind fun r =>
    (rotateMask (fieldMb insn) (fieldMe insn)).map fun mask =>
      finishShift rc regs insn ((r &&& mask) ||| (regs.gpr (regA insn) &&& ~~~mask))

def execRLWIMI := rotateInsert false

def execRLWIMI_dot := rotateInsert true

def rotateAnd (rc : Bool) (regs : Regs) (insn : Insn) (sh : BitVec 32) : Option Regs :=
  (hostRotate (regs.gpr (regD insn)) sh).bind fun r =>
    (rotateMask (fieldMb insn) (fieldMe insn)).map fun mask =>
      finishShift rc regs insn (r &&& mask)

def execRLWINM (regs : Regs) (insn : Insn) : Option Regs :=
  rotateAnd false regs insn (fieldSh insn)

def execRLWINM_dot (regs : Regs) (insn : Insn) : Option Regs :=
  rotateAnd true regs insn (fieldSh insn)

def execRLWNM (regs : Regs) (insn : Insn) : Option Regs :=
  rotateAnd false regs insn (regs.gpr (regB insn) &&& 0x1f)

def execRLWNM_dot (regs : Regs) (insn : Insn) : Option Regs :=
  rotateAnd true regs insn (regs.gpr (regB insn) &&& 0x1f)

def shiftLogical (shift : BitVec 32 → BitVec 32 → Option (BitVec 32)) (rc : Bool) (regs : Regs)
    (insn : Insn) : Option Regs :=
  let s := regs.gpr (regB insn) &&& 0x3f
  let tmp := if s &&& 0x20 = 0 then shift (regs.gpr (regD insn)) s else some 0
  tmp.map fun tmp => finishShift rc regs insn tmp

def execSLW := shiftLogical hostShl false

def execSLW_dot := shiftLogical hostShl true

def execSRW := shiftLogical hostShr false

def execSRW_dot := shiftLogical hostShr true

/-- The common part of SRAW and SRAWI: the result and the carry of a shift by
`sh`. -/
def shiftAlgebraic (s sh : BitVec 32) : Option (BitVec 32 × Bool) :=
  (hostSar s sh).bind fun r =>
    (hostShl 0xffffffff sh).map fun high =>
      (r, decide (s &&& 0x80000000 ≠ 0 ∧ s &&& ~~~high ≠ 0))

def execSRAW (regs : Regs) (insn : Insn) : Option Regs :=
  let s := regs.gpr (regD insn)
  let sh := regs.gpr (regB insn)
  if sh &&& 0x20 ≠ 0 then
    (hostSar s 31).map fun r => finishShift false { regs with xerCa := r.getLsbD 0 } insn r
  else
    (shiftAlgebraic s sh).map fun res =>
      finishShift false { regs with xerCa := res.2 } insn res.1

def shiftAlgebraicImmediate (rc : Bool) (regs : Regs) (insn : Insn) : Option Regs :=
  (shiftAlgebraic (regs.gpr (regD insn)) (fieldSh insn)).map fun res =>
    finishShift rc { regs with xerCa := res.2 } insn res.1

def execSRAWI := shiftAlgebraicImmediate false

def execSRAWI_dot := shiftAlgebraicImmediate true

inductive ShiftMnemonic where
  | rlwimi | rlwimiDot
  | rlwinm | rlwinmDot
  | rlwnm | rlwnmDot
  | slw | slwDot
  | sraw
  | srawi | srawiDot
  | srw | srwDot
deriving DecidableEq, Repr

def ShiftMnemonic.exec : ShiftMnemonic → Regs → Insn → Option Regs
  | .rlwimi => execRLWIMI
  | .rlwimiDot => execRLWIMI_dot
  | .rlwinm => execRLWINM
  | .rlwinmDot => execRLWINM_dot
  | .rlwnm => execRLWNM
  | .rlwnmDot => execRLWNM_dot
  | .slw => execSLW
  | .slwDot => execSLW_dot
  | .sraw => execSRAW
  | .srawi => execSRAWI
  | .srawiDot => execSRAWI_dot
  | .srw => execSRW
  | .srwDot => execSRW_dot

def ShiftMnemonic.rc : ShiftMnemonic → Bool
  | .rlwimiDot | .rlwinmDot | .rlwnmDot | .slwDot | .srawiDot | .srwDot => true
  | .rlwimi | .rlwinm | .rlwnm | .slw | .sraw | .srawi | .srw => false

/-- Whether `MASK(mb, me)` has the bit `i`: the bits from `mb` to `me` counted
from the top, around the end when `me` comes first. -/
def inMask (mb me i : Nat) : Bool :=
  if mb ≤ me then decide (mb ≤ 31 - i ∧ 31 - i ≤ me) else decide (mb ≤ 31 - i ∨ 31 - i ≤ me)

def maskOf (mb me : Nat) : BitVec 32 :=
  (BitVec.ofBoolListLE ((List.range 32).map (inMask mb me))).setWidth 32

def amount (m : ShiftMnemonic) (regs : Regs) (insn : Insn) : Nat :=
  match m with
  | .rlwimi | .rlwimiDot | .rlwinm | .rlwinmDot | .srawi | .srawiDot => (fieldSh insn).toNat
  | .rlwnm | .rlwnmDot => (regs.gpr (regB insn)).toNat % 32
  | .slw | .slwDot | .srw | .srwDot | .sraw => (regs.gpr (regB insn)).toNat % 64

def shifted (m : ShiftMnemonic) (regs : Regs) (insn : Insn) : BitVec 32 :=
  let x := regs.gpr (regD insn)
  let n := amount m regs insn
  let mask := maskOf (fieldMb insn).toNat (fieldMe insn).toNat
  match m with
  | .rlwimi | .rlwimiDot => (x.rotateLeft n &&& mask) ||| (regs.gpr (regA insn) &&& ~~~mask)
  | .rlwinm | .rlwinmDot | .rlwnm | .rlwnmDot => x.rotateLeft n &&& mask
  | .slw | .slwDot => x <<< n
  | .srw | .srwDot => x >>> n
  | .sraw | .srawi | .srawiDot => x.sshiftRight n

def shiftedCarry (m : ShiftMnemonic) (regs : Regs) (insn : Insn) : Bool :=
  match m with
  | .sraw | .srawi | .srawiDot =>
    decide ((regs.gpr (regD insn)).toInt < 0 ∧
      ∃ i < amount m regs insn, (regs.gpr (regD insn)).getLsbD i = true)
  | _ => regs.xerCa

def expectedShift (m : ShiftMnemonic) (regs : Regs) (insn : Insn) : Regs :=
  { gpr := Function.update regs.gpr (regA insn) (shifted m regs insn)
    xer := regs.xer
    xerCa := shiftedCarry m regs insn
    crFields :=
      if m.rc then
        Function.update regs.crFields 0 (cr0Of (shifted m regs insn) (soOf regs.xer))
      else regs.crFields }

def ShiftsBelowWidth (m : ShiftMnemonic) (regs : Regs) (insn : Insn) : Prop :=
  match m with
  | .rlwimi | .rlwimiDot | .rlwinm | .rlwinmDot => fieldSh insn ≠ 0
  | .rlwnm | .rlwnmDot => (regs.gpr (regB insn)).toNat % 32 ≠ 0
  | .sraw => (regs.gpr (regB insn)).toNat < 32 ∨ (regs.gpr (regB insn)).getLsbD 5 = true
  | _ => True

variable {rc : Bool} {regs : Regs} {insn : Insn} {x n mb me sh : BitVec 32}

theorem hostShl_eq (h : n.toNat < 32) : hostShl x n = some (x <<< n.toNat) := if_pos h

theorem hostShr_eq (h : n.toNat < 32) : hostShr x n = some (x >>> n.toNat) := if_pos h

theorem hostSar_eq (h : n.toNat < 32) : hostSar x n = some (x.sshiftRight n.toNat) := if_pos h

theorem toNat_bits_five (insn : Insn) (start : Nat) :
    (bits insn start (start + 4)).toNat < 32 := by
  have hmask : (1#32 <<< (start + 4 - start + 1)) - 1#32 = 31#32 := by
    rw [Nat.add_sub_cancel_left]
    decide
  unfold bits
  rw [hmask, BitVec.toNat_and]
  exact Nat.lt_succ_of_le Nat.and_le_right

theorem toNat_fieldSh (insn : Insn) : (fieldSh insn).toNat < 32 := toNat_bits_five insn 11

theorem toNat_fieldMb (insn : Insn) : (fieldMb insn).toNat < 32 := toNat_bits_five insn 6

theorem toNat_fieldMe (insn : Insn) : (fieldMe insn).toNat < 32 := toNat_bits_five insn 1

theorem getLsbD_maskOf {mb me i : Nat} (hi : i < 32) :
    (maskOf mb me).getLsbD i = inMask mb me i := by
  rw [maskOf, BitVec.getLsbD_setWidth, BitVec.getLsbD_ofBoolListLE, List.getD_eq_getElem?_getD,
    List.getElem?_map, List.getElem?_range hi]
  simp [hi]

theorem rotateMask_eq (hmb : mb.toNat < 32) (hme : me.toNat < 32) :
    rotateMask mb me = some (maskOf mb.toNat me.toNat) := by
  have hone : (1 : BitVec 32).toNat < 32 := by decide
  unfold rotateMask
  rw [hostShr_eq hmb, Option.bind_some, hostShr_eq hme, Option.bind_some, hostShr_eq hone,
    Option.map_some]
  congr 1
  apply BitVec.eq_of_getLsbD_eq
  intro i hi
  have hones : ∀ k, (0xffffffff : BitVec 32).getLsbD k = decide (k < 32) := fun k =>
    BitVec.getLsbD_allOnes
  have htoNat : (1 : BitVec 32).toNat = 1 := rfl
  rw [getLsbD_maskOf hi]
  unfold inMask
  by_cases hlt : me < mb
  · rw [if_pos hlt, if_neg (by rw [BitVec.lt_def] at hlt; omega)]
    simp only [BitVec.getLsbD_not, BitVec.getLsbD_xor, BitVec.getLsbD_ushiftRight, hones, hi,
      decide_true, Bool.true_and, htoNat]
    rw [BitVec.lt_def] at hlt
    rw [Bool.eq_iff_iff]
    by_cases hfirst : mb.toNat + i < 32
    · by_cases hlast : me.toNat + (1 + i) < 32
      · simp [hfirst, hlast]
        omega
      · simp [hfirst, hlast]
        omega
    · by_cases hlast : me.toNat + (1 + i) < 32
      · simp [hfirst, hlast]
        omega
      · simp [hfirst, hlast]
        omega
  · rw [if_neg hlt, if_pos (by rw [BitVec.lt_def] at hlt; omega)]
    simp only [BitVec.getLsbD_xor, BitVec.getLsbD_ushiftRight, hones, htoNat]
    rw [BitVec.lt_def] at hlt
    rw [Bool.eq_iff_iff]
    by_cases hfirst : mb.toNat + i < 32
    · by_cases hlast : me.toNat + (1 + i) < 32
      · simp [hfirst, hlast]
        omega
      · simp [hfirst, hlast]
        omega
    · by_cases hlast : me.toNat + (1 + i) < 32
      · simp [hfirst, hlast]
        omega
      · simp [hfirst, hlast]
        omega

theorem toNat_rest (h : sh.toNat < 32) : (32 - sh).toNat = 32 - sh.toNat := by
  have hwidth : (32 : BitVec 32).toNat = 32 := rfl
  rw [BitVec.toNat_sub_of_le, hwidth]
  rw [BitVec.le_def, hwidth]
  omega

theorem hostRotate_eq (h : sh.toNat < 32) (hne : sh.toNat ≠ 0) :
    hostRotate x sh = some (x.rotateLeft sh.toNat) := by
  have hrest := toNat_rest h
  unfold hostRotate
  rw [hostShl_eq h, hostShr_eq (by omega), hrest, BitVec.rotateLeft_eq_rotateLeftAux_of_lt h]
  rfl

theorem hostRotate_zero (h : sh.toNat = 0) : hostRotate x sh = none := by
  have hrest := toNat_rest (show sh.toNat < 32 by omega)
  unfold hostRotate
  rw [hostShl_eq (by omega), Option.bind_some, hostShr, if_neg (by omega)]
  rfl

theorem finishShift_eq {d : BitVec 32} :
    finishShift rc regs insn d =
      { gpr := Function.update regs.gpr (regA insn) d
        xer := regs.xer
        xerCa := regs.xerCa
        crFields :=
          if rc then Function.update regs.crFields 0 (cr0Of d (soOf regs.xer))
          else regs.crFields } := by
  unfold finishShift
  cases rc with
  | false => rfl
  | true => simp [execUpdateCr0_eq, Regs.setGpr]

theorem rotate_iff (m : ShiftMnemonic) (result : BitVec 32 → BitVec 32 → BitVec 32)
    (hlt : sh.toNat < 32)
    (hresult : shifted m regs insn =
      result ((regs.gpr (regD insn)).rotateLeft sh.toNat)
        (maskOf (fieldMb insn).toNat (fieldMe insn).toNat))
    (hcarry : shiftedCarry m regs insn = regs.xerCa) (hrc : m.rc = rc) :
    ((hostRotate (regs.gpr (regD insn)) sh).bind fun r =>
      (rotateMask (fieldMb insn) (fieldMe insn)).map fun mask =>
        finishShift rc regs insn (result r mask)) = some (expectedShift m regs insn) ↔
      sh.toNat ≠ 0 := by
  by_cases hzero : sh.toNat = 0
  · rw [hostRotate_zero hzero]
    exact iff_of_false (by simp) fun h => h hzero
  · refine iff_of_true ?_ hzero
    rw [hostRotate_eq hlt hzero, Option.bind_some,
      rotateMask_eq (toNat_fieldMb insn) (toNat_fieldMe insn), Option.map_some, finishShift_eq,
      ← hresult]
    unfold expectedShift
    rw [hcarry, hrc]

theorem toNat_and_1f (x : BitVec 32) : (x &&& 0x1f).toNat = x.toNat % 32 := by
  rw [BitVec.toNat_and]
  exact Nat.and_two_pow_sub_one_eq_mod x.toNat 5

theorem toNat_and_3f (x : BitVec 32) : (x &&& 0x3f).toNat = x.toNat % 64 := by
  rw [BitVec.toNat_and]
  exact Nat.and_two_pow_sub_one_eq_mod x.toNat 6

theorem and_20_eq_zero (x : BitVec 32) : x &&& 0x20 = 0 ↔ x.getLsbD 5 = false := by
  have hpow : (0x20 : BitVec 32) = BitVec.twoPow 32 5 := by decide
  rw [hpow, BitVec.and_twoPow]
  cases x.getLsbD 5 with
  | false => simp
  | true =>
    simp
    decide

theorem getLsbD_five (x : BitVec 32) : x.getLsbD 5 = decide (x.toNat / 32 % 2 = 1) :=
  Nat.testBit_eq_decide_div_mod_eq

theorem shiftLogical_eq {shift : BitVec 32 → BitVec 32 → Option (BitVec 32)} (m : ShiftMnemonic)
    (hshift : ∀ s : BitVec 32, s.toNat < 32 → s.toNat = amount m regs insn →
      shift (regs.gpr (regD insn)) s = some (shifted m regs insn))
    (hout : 32 ≤ amount m regs insn → shifted m regs insn = 0)
    (hamount : amount m regs insn = (regs.gpr (regB insn)).toNat % 64)
    (hcarry : shiftedCarry m regs insn = regs.xerCa) (hrc : m.rc = rc) :
    shiftLogical shift rc regs insn = some (expectedShift m regs insn) := by
  have hs := toNat_and_3f (regs.gpr (regB insn))
  have hbit := getLsbD_five (regs.gpr (regB insn) &&& 0x3f)
  rw [hs] at hbit
  have htmp : (if regs.gpr (regB insn) &&& 0x3f &&& 0x20 = 0 then
      shift (regs.gpr (regD insn)) (regs.gpr (regB insn) &&& 0x3f) else some 0) =
      some (shifted m regs insn) := by
    by_cases h : regs.gpr (regB insn) &&& 0x3f &&& 0x20 = 0
    · rw [if_pos h]
      rw [and_20_eq_zero, hbit, decide_eq_false_iff_not] at h
      exact hshift _ (by omega) (by omega)
    · rw [if_neg h]
      rw [and_20_eq_zero, hbit, decide_eq_false_iff_not, not_not] at h
      rw [hout (by omega)]
  simp only [shiftLogical, htmp, Option.map_some, finishShift_eq]
  unfold expectedShift
  rw [hcarry, hrc]

theorem and_ne_zero_iff (x y : BitVec 32) :
    x &&& y ≠ 0 ↔ ∃ i < 32, x.getLsbD i = true ∧ y.getLsbD i = true := by
  constructor
  · intro h
    by_contra hnone
    refine h (BitVec.eq_of_getLsbD_eq fun i hi => ?_)
    rw [BitVec.getLsbD_and]
    cases hx : x.getLsbD i with
    | false => simp
    | true =>
      cases hy : y.getLsbD i with
      | false => simp
      | true => exact absurd ⟨i, hi, hx, hy⟩ hnone
  · intro h heq
    obtain ⟨i, -, hx, hy⟩ := h
    have hbit := congrArg (fun z : BitVec 32 => z.getLsbD i) heq
    simp [hx, hy] at hbit

theorem shiftAlgebraic_eq (h : sh.toNat < 32) :
    shiftAlgebraic x sh =
      some (x.sshiftRight sh.toNat,
        decide (x.toInt < 0 ∧ ∃ i < sh.toNat, x.getLsbD i = true)) := by
  have hones : ∀ k, (0xffffffff : BitVec 32).getLsbD k = decide (k < 32) := fun k =>
    BitVec.getLsbD_allOnes
  have hlost : x &&& ~~~((0xffffffff : BitVec 32) <<< sh.toNat) ≠ 0 ↔
      ∃ i < sh.toNat, x.getLsbD i = true := by
    rw [and_ne_zero_iff]
    constructor
    · rintro ⟨i, hi, hx, hmask⟩
      simp only [BitVec.getLsbD_not, BitVec.getLsbD_shiftLeft, hones, hi, decide_true,
        Bool.true_and, Bool.not_eq_true', Bool.and_eq_false_iff, Bool.not_eq_false',
        decide_eq_true_eq, decide_eq_false_iff_not] at hmask
      exact ⟨i, by omega, hx⟩
    · rintro ⟨i, hi, hx⟩
      refine ⟨i, by omega, hx, ?_⟩
      simp only [BitVec.getLsbD_not, BitVec.getLsbD_shiftLeft, show i < 32 by omega, hi,
        decide_true, Bool.not_true, Bool.and_false, Bool.false_and, Bool.not_false]
      rfl
  unfold shiftAlgebraic
  rw [hostSar_eq h, Option.bind_some, hostShl_eq h, Option.map_some]
  congr 2
  rw [decide_eq_decide, hlost, and_signBit_ne_zero, BitVec.msb_eq_toInt, decide_eq_true_eq]

theorem shiftAlgebraic_none (h : 32 ≤ sh.toNat) : shiftAlgebraic x sh = none := by
  unfold shiftAlgebraic
  rw [hostSar, if_neg (by omega)]
  rfl

theorem sshiftRight_ge {k : Nat} (h : 31 ≤ k) : x.sshiftRight k = x.sshiftRight 31 := by
  apply BitVec.eq_of_getLsbD_eq
  intro i hi
  rw [BitVec.getLsbD_sshiftRight, BitVec.getLsbD_sshiftRight, BitVec.msb_eq_getLsbD_last]
  rcases Nat.eq_zero_or_pos i with rfl | hpos
  · rcases Nat.eq_or_lt_of_le h with rfl | hlt
    · rfl
    · simp [show ¬ k < 32 by omega]
  · simp [show ¬ k + i < 32 by omega, show ¬ 31 + i < 32 by omega]

theorem execSRAW_long (h : (regs.gpr (regB insn)).getLsbD 5 = true) :
    execSRAW regs insn = some (expectedShift .sraw regs insn) := by
  have hbit := getLsbD_five (regs.gpr (regB insn))
  rw [h] at hbit
  have hamount : 32 ≤ (regs.gpr (regB insn)).toNat % 64 := by
    have htrue := of_decide_eq_true hbit.symm
    omega
  have hset : regs.gpr (regB insn) &&& 0x20 ≠ 0 := by
    rw [Ne, and_20_eq_zero, h]
    decide
  have hhost : hostSar (regs.gpr (regD insn)) 31 =
      some ((regs.gpr (regD insn)).sshiftRight 31) := hostSar_eq (by decide)
  have hresult : shifted .sraw regs insn = (regs.gpr (regD insn)).sshiftRight 31 :=
    sshiftRight_ge (show 31 ≤ (regs.gpr (regB insn)).toNat % 64 by omega)
  have hcarry : shiftedCarry .sraw regs insn =
      ((regs.gpr (regD insn)).sshiftRight 31).getLsbD 0 := by
    rw [BitVec.getLsbD_sshiftRight]
    simp only [shiftedCarry, amount]
    cases hmsb : (regs.gpr (regD insn)).getLsbD 31 with
    | false =>
      refine (decide_eq_false fun hneg => ?_).trans (by simp)
      have hsign := hneg.1
      rw [← decide_eq_true_eq (p := (regs.gpr (regD insn)).toInt < 0), ← BitVec.msb_eq_toInt,
        BitVec.msb_eq_getLsbD_last, hmsb] at hsign
      cases hsign
    | true =>
      refine (decide_eq_true ⟨?_, 31, by omega, hmsb⟩).trans (by simp)
      rw [← decide_eq_true_eq (p := (regs.gpr (regD insn)).toInt < 0), ← BitVec.msb_eq_toInt,
        BitVec.msb_eq_getLsbD_last, hmsb]
  unfold execSRAW
  simp only [if_pos hset, hhost, Option.map_some, finishShift_eq, ← hresult]
  unfold expectedShift
  rw [hcarry, hresult]
  rfl

theorem execSRAW_short (h : (regs.gpr (regB insn)).getLsbD 5 = false) :
    execSRAW regs insn = some (expectedShift .sraw regs insn) ↔
      (regs.gpr (regB insn)).toNat < 32 := by
  have hclear : ¬ regs.gpr (regB insn) &&& 0x20 ≠ 0 := not_not.mpr ((and_20_eq_zero _).mpr h)
  unfold execSRAW
  simp only [if_neg hclear]
  by_cases hlt : (regs.gpr (regB insn)).toNat < 32
  · have hmod : (regs.gpr (regB insn)).toNat % 64 = (regs.gpr (regB insn)).toNat := by omega
    refine iff_of_true ?_ hlt
    rw [shiftAlgebraic_eq hlt, Option.map_some, finishShift_eq]
    simp only [expectedShift, shifted, shiftedCarry, amount, hmod]
    rfl
  · refine iff_of_false ?_ hlt
    rw [shiftAlgebraic_none (by omega)]
    simp

theorem shiftAlgebraicImmediate_eq (m : ShiftMnemonic) (hrc : m.rc = rc)
    (hm : m = .srawi ∨ m = .srawiDot) :
    shiftAlgebraicImmediate rc regs insn = some (expectedShift m regs insn) := by
  unfold shiftAlgebraicImmediate
  rw [shiftAlgebraic_eq (toNat_fieldSh insn), Option.map_some, finishShift_eq, ← hrc]
  rcases hm with rfl | rfl
  · rfl
  · rfl

theorem fieldSh_ne_zero : (fieldSh insn).toNat ≠ 0 ↔ fieldSh insn ≠ 0 := by
  rw [Ne, Ne, BitVec.toNat_eq]
  rfl

/-- A shift or rotate has the result and the carry of the architecture exactly
where its amount keeps every host shift below the width of the word; elsewhere
it makes an undefined one. -/
theorem shift_instructions (m : ShiftMnemonic) (regs : Regs) (insn : Insn) :
    m.exec regs insn = some (expectedShift m regs insn) ↔ ShiftsBelowWidth m regs insn := by
  have hsh := toNat_fieldSh insn
  have hnm := toNat_and_1f (regs.gpr (regB insn))
  have hnmlt : (regs.gpr (regB insn) &&& 0x1f).toNat < 32 := by omega
  have hand : ∀ m : ShiftMnemonic, m = .rlwnm ∨ m = .rlwnmDot → shifted m regs insn =
      (regs.gpr (regD insn)).rotateLeft (regs.gpr (regB insn) &&& 0x1f).toNat &&&
        maskOf (fieldMb insn).toNat (fieldMe insn).toNat := by
    rintro m (rfl | rfl)
    · rw [hnm]
      rfl
    · rw [hnm]
      rfl
  have hzero : ∀ n, 32 ≤ n → regs.gpr (regD insn) <<< n = 0 ∧ regs.gpr (regD insn) >>> n = 0 :=
    fun n hn => ⟨BitVec.shiftLeft_eq_zero hn, BitVec.ushiftRight_eq_zero hn⟩
  cases m with
  | rlwimi =>
    exact (rotate_iff .rlwimi (fun r mask => (r &&& mask) ||| (regs.gpr (regA insn) &&& ~~~mask))
      hsh rfl rfl rfl).trans fieldSh_ne_zero
  | rlwimiDot =>
    exact (rotate_iff .rlwimiDot
      (fun r mask => (r &&& mask) ||| (regs.gpr (regA insn) &&& ~~~mask))
      hsh rfl rfl rfl).trans fieldSh_ne_zero
  | rlwinm => exact (rotate_iff .rlwinm (· &&& ·) hsh rfl rfl rfl).trans fieldSh_ne_zero
  | rlwinmDot => exact (rotate_iff .rlwinmDot (· &&& ·) hsh rfl rfl rfl).trans fieldSh_ne_zero
  | rlwnm =>
    rw [ShiftsBelowWidth, ← hnm]
    exact rotate_iff .rlwnm (· &&& ·) hnmlt (hand .rlwnm (.inl rfl)) rfl rfl
  | rlwnmDot =>
    rw [ShiftsBelowWidth, ← hnm]
    exact rotate_iff .rlwnmDot (· &&& ·) hnmlt (hand .rlwnmDot (.inr rfl)) rfl rfl
  | slw =>
    exact iff_of_true (shiftLogical_eq .slw (fun s hs hn => by rw [hostShl_eq hs, hn]; rfl)
      (fun hn => (hzero _ hn).1) rfl rfl rfl) trivial
  | slwDot =>
    exact iff_of_true (shiftLogical_eq .slwDot (fun s hs hn => by rw [hostShl_eq hs, hn]; rfl)
      (fun hn => (hzero _ hn).1) rfl rfl rfl) trivial
  | srw =>
    exact iff_of_true (shiftLogical_eq .srw (fun s hs hn => by rw [hostShr_eq hs, hn]; rfl)
      (fun hn => (hzero _ hn).2) rfl rfl rfl) trivial
  | srwDot =>
    exact iff_of_true (shiftLogical_eq .srwDot (fun s hs hn => by rw [hostShr_eq hs, hn]; rfl)
      (fun hn => (hzero _ hn).2) rfl rfl rfl) trivial
  | sraw =>
    cases hbit : (regs.gpr (regB insn)).getLsbD 5 with
    | true => exact iff_of_true (execSRAW_long hbit) (.inr hbit)
    | false =>
      refine (execSRAW_short hbit).trans ?_
      rw [ShiftsBelowWidth, hbit]
      simp
  | srawi => exact iff_of_true (shiftAlgebraicImmediate_eq .srawi rfl (.inl rfl)) trivial
  | srawiDot => exact iff_of_true (shiftAlgebraicImmediate_eq .srawiDot rfl (.inr rfl)) trivial

/-- RLWINM by 0, as in `clrlwi`, shifts a word right by 32. -/
theorem not_shift_instructions :
    ¬ ∀ (m : ShiftMnemonic) (regs : Regs) (insn : Insn),
      m.exec regs insn = some (expectedShift m regs insn) := by
  intro h
  have hsome := congrArg Option.isSome (h .rlwinm ⟨fun _ => 1, 0, false, fun _ => 0⟩ 0x5483043e)
  revert hsome
  decide

end Dynamips.Ppc32
