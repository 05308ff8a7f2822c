import Dynamips.Mips64

/-! The registers of a PowerPC CPU that its integer instructions read and write
(ppc32.h), with the helpers that those instructions share (ppc32_exec.c). -/
set_option autoImplicit false

namespace Dynamips.Ppc32

open Mips64 (bits)

abbrev Insn := BitVec 32

abbrev RegNum := BitVec 5

def PPC32_CR_LT_BIT : Nat := 3

def PPC32_CR_GT_BIT : Nat := 2

def PPC32_CR_EQ_BIT : Nat := 1

def PPC32_CR_SO_BIT : Nat := 0

def PPC32_XER_SO : BitVec 32 := 0x80000000

def PPC32_XER_OV : BitVec 32 := 0x40000000

/-- `xer` without its carry, which the CPU keeps apart in `xer_ca` as 0 or 1,
and the eight fields of the condition register. -/
structure Regs where
  gpr : RegNum → BitVec 32
  xer : BitVec 32
  xerCa : Bool
  crFields : BitVec 3 → BitVec 32

def signExtend32 (x : BitVec 32) (len : Nat) : BitVec 32 :=
  (x <<< (32 - len)).sshiftRight (32 - len)

/-- The register fields of an instruction, `rd` or `rs` first. -/
def regD (insn : Insn) : RegNum := (bits insn 21 25).setWidth 5

def regA (insn : Insn) : RegNum := (bits insn 16 20).setWidth 5

def regB (insn : Insn) : RegNum := (bits insn 11 15).setWidth 5

def imm (insn : Insn) : BitVec 32 := bits insn 0 15

def Regs.setGpr (regs : Regs) (reg : RegNum) (val : BitVec 32) : Regs :=
  { regs with gpr := Function.update regs.gpr reg val }

/-- The carry as the number that `xer_ca` holds. -/
def Regs.carry (regs : Regs) : BitVec 32 := (BitVec.ofBool regs.xerCa).setWidth 32

def execUpdateCr0 (regs : Regs) (val : BitVec 32) : Regs :=
  let res : BitVec 32 :=
    if val &&& 0x80000000 ≠ 0 then 1#32 <<< PPC32_CR_LT_BIT
    else if val > 0 then 1#32 <<< PPC32_CR_GT_BIT
    else 1#32 <<< PPC32_CR_EQ_BIT
  let res := if regs.xer &&& PPC32_XER_SO ≠ 0 then res ||| (1#32 <<< PPC32_CR_SO_BIT) else res
  { regs with crFields := Function.update regs.crFields 0 res }

def execOvSum (regs : Regs) (r a b : BitVec 32) : Regs :=
  let sc := ~~~(a ^^^ b) &&& (a ^^^ r) &&& 0x80000000
  if sc ≠ 0 then { regs with xer := regs.xer ||| (PPC32_XER_SO ||| PPC32_XER_OV) }
  else { regs with xer := regs.xer &&& ~~~PPC32_XER_OV }

def execOvSub (regs : Regs) (r a b : BitVec 32) : Regs :=
  let sc := (a ^^^ b) &&& (a ^^^ r) &&& 0x80000000
  if sc ≠ 0 then { regs with xer := regs.xer ||| (PPC32_XER_SO ||| PPC32_XER_OV) }
  else { regs with xer := regs.xer &&& ~~~PPC32_XER_OV }

def execCaSum (regs : Regs) (r a _b : BitVec 32) : Regs := { regs with xerCa := decide (r < a) }

def execCaSub (regs : Regs) (_r a b : BitVec 32) : Regs := { regs with xerCa := decide (b > a) }

/-- Condition register field 0 as the architecture has it, for a signed result
and the summary overflow. -/
def cr0Of (d : BitVec 32) (so : Bool) : BitVec 32 :=
  (if d.toInt < 0 then 8 else if 0 < d.toInt then 4 else 2) ||| if so then 1 else 0

def soOf (xer : BitVec 32) : Bool := xer.getLsbD 31

theorem and_signBit_ne_zero (x : BitVec 32) : x &&& 0x80000000 ≠ 0 ↔ x.msb = true := by
  have hpow : (0x80000000 : BitVec 32) = BitVec.twoPow 32 31 := by decide
  rw [hpow, BitVec.and_twoPow, BitVec.msb_eq_getLsbD_last]
  cases x.getLsbD 31 with
  | false => simp
  | true => simp

theorem execUpdateCr0_eq (regs : Regs) (val : BitVec 32) :
    execUpdateCr0 regs val =
      { regs with crFields := Function.update regs.crFields 0 (cr0Of val (soOf regs.xer)) } := by
  have hso : regs.xer &&& PPC32_XER_SO ≠ 0 ↔ soOf regs.xer = true := by
    rw [PPC32_XER_SO, and_signBit_ne_zero, BitVec.msb_eq_getLsbD_last]
    rfl
  have hsign : val &&& 0x80000000 ≠ 0 ↔ val.toInt < 0 := by
    rw [and_signBit_ne_zero, BitVec.msb_eq_toInt, decide_eq_true_eq]
  have hpos : ¬ val.toInt < 0 → (val > 0 ↔ 0 < val.toInt) := by
    intro hneg
    have hzero : (0 : BitVec 32).toNat = 0 := rfl
    have hcond := BitVec.toInt_eq_toNat_cond val
    rw [gt_iff_lt, BitVec.lt_def, hzero]
    split at hcond
    · omega
    · omega
  simp only [execUpdateCr0, hso, hsign, cr0Of]
  congr 2
  by_cases hneg : val.toInt < 0
  · rw [if_pos hneg, if_pos hneg]
    cases soOf regs.xer <;> rfl
  · rw [if_neg hneg, if_neg hneg]
    by_cases hgt : 0 < val.toInt
    · rw [if_pos ((hpos hneg).mpr hgt), if_pos hgt]
      cases soOf regs.xer <;> rfl
    · rw [if_neg fun hv => hgt ((hpos hneg).mp hv), if_neg hgt]
      cases soOf regs.xer <;> rfl

end Dynamips.Ppc32
