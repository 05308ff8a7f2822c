import Dynamips.Lib.Limbs
import Dynamips.Ppc32

/-! The PowerPC instructions that add and subtract with a carry
(ppc32_exec.c), against the exact sums. -/
set_option autoImplicit false

namespace Dynamips.Ppc32

/-- The end of a handler: overflow and CR0 as its form asks, then the register. -/
def finish (oe rc : Bool) (regs : Regs) (rd : RegNum) (d a b : BitVec 32) : Regs :=
  let regs := if oe then execOvSum regs d a b else regs
  let regs := if rc then execUpdateCr0 regs d else regs
  regs.setGpr rd d

def addCarrying (oe rc : Bool) (regs : Regs) (insn : Insn) : Regs :=
  let a := regs.gpr (regA insn)
  let b := regs.gpr (regB insn)
  let d := a + b
  finish oe rc (execCaSum regs d a b) (regD insn) d a b

def execADDC := addCarrying false false

def execADDC_dot := addCarrying false true

def execADDCO := addCarrying true false

def execADDCO_dot := addCarrying true true

def addExtended (oe rc : Bool) (regs : Regs) (rd : RegNum) (a b : BitVec 32) : Regs :=
  let carry := regs.carry
  let regs := { regs with xerCa := false }
  let d := a + b + carry
  let regs := if b + carry < b ∨ d < a then { regs with xerCa := true } else regs
  finish oe rc regs rd d a b

def addExtendedRegs (oe rc : Bool) (regs : Regs) (insn : Insn) : Regs :=
  addExtended oe rc regs (regD insn) (regs.gpr (regA insn)) (regs.gpr (regB insn))

def execADDE := addExtendedRegs false false

def execADDE_dot := addExtendedRegs false true

def execADDEO := addExtendedRegs true false

def execADDEO_dot := addExtendedRegs true true

def addImmediateCarrying (rc : Bool) (regs : Regs) (insn : Insn) : Regs :=
  let a := regs.gpr (regA insn)
  let d := a + signExtend32 (imm insn) 16
  finish false rc (execCaSum regs d a 0) (regD insn) d a 0

def execADDIC := addImmediateCarrying false

def execADDIC_dot := addImmediateCarrying true

def addMinusOneExtended (rc : Bool) (regs : Regs) (insn : Insn) : Regs :=
  addExtended false rc regs (regD insn) (regs.gpr (regA insn)) 0xffffffff

def execADDME := addMinusOneExtended false

def execADDME_dot := addMinusOneExtended true

def addZeroExtended (rc : Bool) (regs : Regs) (insn : Insn) : Regs :=
  let carry := regs.carry
  let regs := { regs with xerCa := false }
  let a := regs.gpr (regA insn)
  let d := a + carry
  let regs := if d < a then { regs with xerCa := true } else regs
  finish false rc regs (regD insn) d a 0

def execADDZE := addZeroExtended false

def execADDZE_dot := addZeroExtended true

def subtractCarrying (rc : Bool) (regs : Regs) (rd : RegNum) (a b carry : BitVec 32) : Regs :=
  let tmp := a + carry
  let r := b + tmp
  let regs := execCaSum regs tmp a carry
  let regs := if r < tmp then { regs with xerCa := true } else regs
  finish false rc regs rd r a b

def execSUBFC (regs : Regs) (insn : Insn) : Regs :=
  subtractCarrying false regs (regD insn) (~~~ regs.gpr (regA insn)) (regs.gpr (regB insn)) 1

def execSUBFC_dot (regs : Regs) (insn : Insn) : Regs :=
  subtractCarrying true regs (regD insn) (~~~ regs.gpr (regA insn)) (regs.gpr (regB insn)) 1

def execSUBFE (regs : Regs) (insn : Insn) : Regs :=
  subtractCarrying false regs (regD insn) (~~~ regs.gpr (regA insn)) (regs.gpr (regB insn))
    regs.carry

def execSUBFIC (regs : Regs) (insn : Insn) : Regs :=
  subtractCarrying false regs (regD insn) (~~~ regs.gpr (regA insn)) (signExtend32 (imm insn) 16) 1

def subtractCarryingOverflow (rc : Bool) (regs : Regs) (insn : Insn) : Regs :=
  let a := regs.gpr (regA insn)
  let b := regs.gpr (regB insn)
  let tmp := b - a
  let regs := execOvSub (execCaSub regs tmp b a) tmp b a
  let regs := if rc then execUpdateCr0 regs tmp else regs
  regs.setGpr (regD insn) tmp

def execSUBFCO := subtractCarryingOverflow false

def execSUBFCO_dot := subtractCarryingOverflow true

def subtractZeroExtended (rc : Bool) (regs : Regs) (insn : Insn) : Regs :=
  let carry := regs.carry
  let a := ~~~ regs.gpr (regA insn)
  let r := a + carry
  let regs := if r < a then { regs with xerCa := true } else regs
  finish false rc regs (regD insn) r a 0

def execSUBFZE := subtractZeroExtended false

def execSUBFZE_dot := subtractZeroExtended true

def execNEG (regs : Regs) (insn : Insn) : Regs :=
  regs.setGpr (regD insn) (~~~ regs.gpr (regA insn) + 1)

def execNEG_dot (regs : Regs) (insn : Insn) : Regs :=
  let tmp := ~~~ regs.gpr (regA insn) + 1
  (execUpdateCr0 regs tmp).setGpr (regD insn) tmp

def negateOverflow (regs : Regs) (insn : Insn) : Regs :=
  let tmp := ~~~ regs.gpr (regA insn) + 1
  let regs := regs.setGpr (regD insn) tmp
  let regs := { regs with xer := regs.xer &&& ~~~PPC32_XER_OV }
  let regs :=
    if tmp = 0x80000000 then { regs with xer := regs.xer ||| (PPC32_XER_OV ||| PPC32_XER_SO) }
    else regs
  execUpdateCr0 regs tmp

def execNEGO := negateOverflow

def execNEGO_dot := negateOverflow

inductive Mnemonic where
  | addc | addcDot | addco | addcoDot
  | adde | addeDot | addeo | addeoDot
  | addic | addicDot
  | addme | addmeDot
  | addze | addzeDot
  | subfc | subfcDot | subfco | subfcoDot
  | subfe
  | subfic
  | subfze | subfzeDot
  | neg | negDot | nego | negoDot
deriving DecidableEq, Repr

def Mnemonic.exec : Mnemonic → Regs → Insn → Regs
  | .addc => execADDC
  | .addcDot => execADDC_dot
  | .addco => execADDCO
  | .addcoDot => execADDCO_dot
  | .adde => execADDE
  | .addeDot => execADDE_dot
  | .addeo => execADDEO
  | .addeoDot => execADDEO_dot
  | .addic => execADDIC
  | .addicDot => execADDIC_dot
  | .addme => execADDME
  | .addmeDot => execADDME_dot
  | .addze => execADDZE
  | .addzeDot => execADDZE_dot
  | .subfc => execSUBFC
  | .subfcDot => execSUBFC_dot
  | .subfco => execSUBFCO
  | .subfcoDot => execSUBFCO_dot
  | .subfe => execSUBFE
  | .subfic => execSUBFIC
  | .subfze => execSUBFZE
  | .subfzeDot => execSUBFZE_dot
  | .neg => execNEG
  | .negDot => execNEG_dot
  | .nego => execNEGO
  | .negoDot => execNEGO_dot

/-- The sums of the architecture: each instruction adds two words and a carry. -/
inductive Op where
  | addc
  | adde
  | addic
  | addme
  | addze
  | subfc
  | subfe
  | subfic
  | subfze
  | neg
deriving DecidableEq, Repr

def Op.left : Op → Regs → Insn → BitVec 32
  | .addc, regs, insn | .adde, regs, insn | .addic, regs, insn | .addme, regs, insn
  | .addze, regs, insn => regs.gpr (regA insn)
  | .subfc, regs, insn | .subfe, regs, insn | .subfic, regs, insn | .subfze, regs, insn
  | .neg, regs, insn => ~~~ regs.gpr (regA insn)

def Op.right : Op → Regs → Insn → BitVec 32
  | .addc, regs, insn | .adde, regs, insn | .subfc, regs, insn | .subfe, regs, insn =>
    regs.gpr (regB insn)
  | .addic, _, insn | .subfic, _, insn => signExtend32 (imm insn) 16
  | .addme, _, _ => -1
  | .addze, _, _ | .subfze, _, _ | .neg, _, _ => 0

def Op.carryIn : Op → Regs → Bool
  | .addc, _ | .addic, _ => false
  | .subfc, _ | .subfic, _ | .neg, _ => true
  | .adde, regs | .addme, regs | .addze, regs | .subfe, regs | .subfze, regs => regs.xerCa

/-- A sum in one of its forms: `oe` records overflow, `rc` compares with zero. -/
structure Form where
  op : Op
  oe : Bool
  rc : Bool

def Mnemonic.form : Mnemonic → Form
  | .addc => ⟨.addc, false, false⟩
  | .addcDot => ⟨.addc, false, true⟩
  | .addco => ⟨.addc, true, false⟩
  | .addcoDot => ⟨.addc, true, true⟩
  | .adde => ⟨.adde, false, false⟩
  | .addeDot => ⟨.adde, false, true⟩
  | .addeo => ⟨.adde, true, false⟩
  | .addeoDot => ⟨.adde, true, true⟩
  | .addic => ⟨.addic, false, false⟩
  | .addicDot => ⟨.addic, false, true⟩
  | .addme => ⟨.addme, false, false⟩
  | .addmeDot => ⟨.addme, false, true⟩
  | .addze => ⟨.addze, false, false⟩
  | .addzeDot => ⟨.addze, false, true⟩
  | .subfc => ⟨.subfc, false, false⟩
  | .subfcDot => ⟨.subfc, false, true⟩
  | .subfco => ⟨.subfc, true, false⟩
  | .subfcoDot => ⟨.subfc, true, true⟩
  | .subfe => ⟨.subfe, false, false⟩
  | .subfic => ⟨.subfic, false, false⟩
  | .subfze => ⟨.subfze, false, false⟩
  | .subfzeDot => ⟨.subfze, false, true⟩
  | .neg => ⟨.neg, false, false⟩
  | .negDot => ⟨.neg, false, true⟩
  | .nego => ⟨.neg, true, false⟩
  | .negoDot => ⟨.neg, true, true⟩

def total (x y : BitVec 32) (c : Bool) : Nat := x.toNat + y.toNat + c.toNat

def Overflows (x y : BitVec 32) (c : Bool) : Prop :=
  x.toInt + y.toInt + c.toNat < -2 ^ 31 ∨ 2 ^ 31 ≤ x.toInt + y.toInt + c.toNat

instance (x y : BitVec 32) (c : Bool) : Decidable (Overflows x y c) :=
  inferInstanceAs (Decidable (_ ∨ _))

def xerAfter (oe : Bool) (xer x y : BitVec 32) (c : Bool) : BitVec 32 :=
  if oe = false then xer
  else if Overflows x y c then xer ||| (PPC32_XER_SO ||| PPC32_XER_OV)
  else xer &&& ~~~PPC32_XER_OV

/-- The registers as the sum should leave them; a negation leaves the carry. -/
def expected (form : Form) (regs : Regs) (insn : Insn) : Regs :=
  let x := form.op.left regs insn
  let y := form.op.right regs insn
  let c := form.op.carryIn regs
  let d := BitVec.ofNat 32 (total x y c)
  { gpr := Function.update regs.gpr (regD insn) d
    xer := xerAfter form.oe regs.xer x y c
    xerCa := if form.op = .neg then regs.xerCa else decide (2 ^ 32 ≤ total x y c)
    crFields :=
      if form.rc then
        Function.update regs.crFields 0 (cr0Of d (soOf (xerAfter form.oe regs.xer x y c)))
      else regs.crFields }

variable {oe rc : Bool} {regs : Regs} {insn : Insn} {rd : RegNum} {x y a b d : BitVec 32}
  {c : Bool}

theorem toNat_carry (regs : Regs) : regs.carry.toNat = regs.xerCa.toNat := by
  unfold Regs.carry
  cases regs.xerCa <;> rfl

theorem toNat_ofNat_total : (BitVec.ofNat 32 (total x y c)).toNat = total x y c % 2 ^ 32 :=
  BitVec.toNat_ofNat ..

theorem msb_eq_decide (x : BitVec 32) : x.msb = decide (2 ^ 31 ≤ x.toNat) :=
  BitVec.msb_eq_decide x

theorem ovSum_iff :
    ~~~(x ^^^ y) &&& (x ^^^ BitVec.ofNat 32 (total x y c)) &&& 0x80000000 ≠ 0 ↔
      Overflows x y c := by
  have hx := x.isLt
  have hy := y.isLt
  have hc := Bool.toNat_lt c
  have hxi := BitVec.toInt_eq_toNat_cond x
  have hyi := BitVec.toInt_eq_toNat_cond y
  rw [and_signBit_ne_zero, BitVec.msb_and, BitVec.msb_not, BitVec.msb_xor, BitVec.msb_xor,
    msb_eq_decide, msb_eq_decide, msb_eq_decide, toNat_ofNat_total]
  unfold Overflows total
  split at hxi
  · split at hyi
    · simp
      omega
    · simp
      omega
  · split at hyi
    · simp
      omega
    · simp
      omega

theorem finish_eq (hov : oe = true → a = x ∧ b = y) :
    finish oe rc regs rd (BitVec.ofNat 32 (total x y c)) a b =
      { gpr := Function.update regs.gpr rd (BitVec.ofNat 32 (total x y c))
        xer := xerAfter oe regs.xer x y c
        xerCa := regs.xerCa
        crFields :=
          if rc then
            Function.update regs.crFields 0
              (cr0Of (BitVec.ofNat 32 (total x y c)) (soOf (xerAfter oe regs.xer x y c)))
          else regs.crFields } := by
  unfold finish xerAfter
  cases oe with
  | false =>
    cases rc with
    | false => rfl
    | true => simp [execUpdateCr0_eq, Regs.setGpr]
  | true =>
    obtain ⟨rfl, rfl⟩ := hov rfl
    simp only [execOvSum, ovSum_iff]
    by_cases hover : Overflows a b c
    · cases rc with
      | false => simp [hover, Regs.setGpr]
      | true => simp [hover, execUpdateCr0_eq, Regs.setGpr]
    · cases rc with
      | false => simp [hover, Regs.setGpr]
      | true => simp [hover, execUpdateCr0_eq, Regs.setGpr]

theorem finish_expected {op : Op} (hop : op ≠ .neg)
    (hd : d = BitVec.ofNat 32 (total (op.left regs insn) (op.right regs insn) (op.carryIn regs)))
    (hca : c = decide (2 ^ 32 ≤ total (op.left regs insn) (op.right regs insn) (op.carryIn regs)))
    (hov : oe = true → a = op.left regs insn ∧ b = op.right regs insn) :
    finish oe rc { regs with xerCa := c } (regD insn) d a b = expected ⟨op, oe, rc⟩ regs insn := by
  subst hd
  rw [finish_eq hov]
  simp only [expected, if_neg hop, hca]

theorem sum_eq (h : d.toNat = total x y c % 2 ^ 32) : d = BitVec.ofNat 32 (total x y c) := by
  apply BitVec.eq_of_toNat_eq
  rw [h, toNat_ofNat_total]

theorem addCarrying_expected : addCarrying oe rc regs insn = expected ⟨.addc, oe, rc⟩ regs insn := by
  have ha := (regs.gpr (regA insn)).isLt
  have hb := (regs.gpr (regB insn)).isLt
  refine finish_expected (by decide) (sum_eq ?_) ?_ fun _ => ⟨rfl, rfl⟩
  · simp [Op.left, Op.right, Op.carryIn, total, BitVec.toNat_add]
  · rw [decide_eq_decide, BitVec.lt_def, BitVec.toNat_add]
    simp only [Op.left, Op.right, Op.carryIn, total, Bool.toNat_false]
    omega

theorem addExtended_expected {op : Op} (hop : op ≠ .neg) (ha : a = op.left regs insn)
    (hb : b = op.right regs insn) (hc : op.carryIn regs = regs.xerCa) :
    addExtended oe rc regs (regD insn) a b = expected ⟨op, oe, rc⟩ regs insn := by
  have hcarry := toNat_carry regs
  have hbit := Bool.toNat_lt regs.xerCa
  have hsum : a + b + regs.carry = BitVec.ofNat 32 (total a b regs.xerCa) := by
    apply sum_eq
    simp only [BitVec.toNat_add, hcarry, total]
    omega
  have hca : (b + regs.carry < b ∨ a + b + regs.carry < a) ↔
      2 ^ 32 ≤ total a b regs.xerCa := by
    have hlta := a.isLt
    have hltb := b.isLt
    simp only [BitVec.lt_def, BitVec.toNat_add, hcarry, total]
    omega
  have hregs : (if b + regs.carry < b ∨ a + b + regs.carry < a then
      { { regs with xerCa := false } with xerCa := true } else { regs with xerCa := false }) =
      { regs with xerCa := decide (2 ^ 32 ≤ total a b regs.xerCa) } := by
    by_cases h : 2 ^ 32 ≤ total a b regs.xerCa
    · rw [if_pos (hca.mpr h), decide_eq_true h]
    · rw [if_neg fun hh => h (hca.mp hh), decide_eq_false h]
  simp only [addExtended, hregs]
  subst ha hb
  rw [← hc] at hsum ⊢
  exact finish_expected hop hsum rfl fun _ => ⟨rfl, rfl⟩

theorem addImmediateCarrying_expected :
    addImmediateCarrying rc regs insn = expected ⟨.addic, false, rc⟩ regs insn := by
  have ha := (regs.gpr (regA insn)).isLt
  have hb := (signExtend32 (imm insn) 16).isLt
  refine finish_expected (by decide) (sum_eq ?_) ?_ fun h => by cases h
  · simp [Op.left, Op.right, Op.carryIn, total, BitVec.toNat_add]
  · rw [decide_eq_decide, BitVec.lt_def, BitVec.toNat_add]
    simp only [Op.left, Op.right, Op.carryIn, total, Bool.toNat_false]
    omega

theorem lt_add_carry (a : BitVec 32) (regs : Regs) :
    a + regs.carry < a ↔ 2 ^ 32 ≤ total a 0 regs.xerCa := by
  have ha := a.isLt
  have hcarry := toNat_carry regs
  have hbit := Bool.toNat_lt regs.xerCa
  have hzero : (0 : BitVec 32).toNat = 0 := rfl
  simp only [BitVec.lt_def, BitVec.toNat_add, hcarry, total, hzero]
  omega

theorem add_carry_eq (a : BitVec 32) (regs : Regs) :
    a + regs.carry = BitVec.ofNat 32 (total a 0 regs.xerCa) := by
  have hcarry := toNat_carry regs
  apply sum_eq
  simp [BitVec.toNat_add, hcarry, total]

theorem addZeroExtended_expected :
    addZeroExtended rc regs insn = expected ⟨.addze, false, rc⟩ regs insn := by
  have hregs : (if regs.gpr (regA insn) + regs.carry < regs.gpr (regA insn) then
      { { regs with xerCa := false } with xerCa := true } else { regs with xerCa := false }) =
      { regs with xerCa := decide (2 ^ 32 ≤ total (regs.gpr (regA insn)) 0 regs.xerCa) } := by
    by_cases h : 2 ^ 32 ≤ total (regs.gpr (regA insn)) 0 regs.xerCa
    · rw [if_pos ((lt_add_carry _ regs).mpr h), decide_eq_true h]
    · rw [if_neg fun hh => h ((lt_add_carry _ regs).mp hh), decide_eq_false h]
  simp only [addZeroExtended, hregs]
  exact finish_expected (by decide) (add_carry_eq _ regs) rfl fun h => by cases h

theorem subtractCarrying_expected {op : Op} {carry : BitVec 32} (hop : op ≠ .neg)
    (ha : a = op.left regs insn) (hb : b = op.right regs insn)
    (hc : carry.toNat = (op.carryIn regs).toNat) :
    subtractCarrying rc regs (regD insn) a b carry = expected ⟨op, false, rc⟩ regs insn := by
  have hbit := Bool.toNat_lt (op.carryIn regs)
  have hlta := a.isLt
  have hltb := b.isLt
  have hsum : b + (a + carry) = BitVec.ofNat 32 (total a b (op.carryIn regs)) := by
    apply sum_eq
    simp only [BitVec.toNat_add, hc, total]
    omega
  have hca : (a + carry < a ∨ b + (a + carry) < a + carry) ↔
      2 ^ 32 ≤ total a b (op.carryIn regs) := by
    simp only [BitVec.lt_def, BitVec.toNat_add, hc, total]
    omega
  have hregs : (if b + (a + carry) < a + carry then
      { execCaSum regs (a + carry) a carry with xerCa := true }
      else execCaSum regs (a + carry) a carry) =
      { regs with xerCa := decide (2 ^ 32 ≤ total a b (op.carryIn regs)) } := by
    unfold execCaSum
    by_cases h : b + (a + carry) < a + carry
    · rw [if_pos h, decide_eq_true (hca.mp (.inr h))]
    · rw [if_neg h]
      congr 1
      rw [decide_eq_decide, ← hca]
      exact (or_iff_left h).symm
  simp only [subtractCarrying, hregs]
  subst ha hb
  exact finish_expected hop hsum rfl fun h => by cases h

theorem subtractZeroExtended_expected :
    subtractZeroExtended rc regs insn = expected ⟨.subfze, false, rc⟩ regs insn ↔
      regs.xerCa = false ∨ regs.gpr (regA insn) = 0 := by
  have hcarry := lt_add_carry (~~~ regs.gpr (regA insn)) regs
  have hzero : (0 : BitVec 32).toNat = 0 := rfl
  have hbound := (regs.gpr (regA insn)).isLt
  have htotal : 2 ^ 32 ≤ total (~~~ regs.gpr (regA insn)) 0 regs.xerCa ↔
      regs.xerCa = true ∧ regs.gpr (regA insn) = 0 := by
    rw [BitVec.toNat_eq, hzero]
    simp only [total, BitVec.toNat_not, hzero]
    cases regs.xerCa with
    | false => simp; omega
    | true => simp; omega
  have hregs : (if ~~~ regs.gpr (regA insn) + regs.carry < ~~~ regs.gpr (regA insn) then
      { regs with xerCa := true } else regs) = regs := by
    split
    · rename_i h
      rw [← (htotal.mp (hcarry.mp h)).1]
    · rfl
  have hform := @finish_eq false rc regs (regD insn) (~~~ regs.gpr (regA insn)) 0
    (~~~ regs.gpr (regA insn)) 0 regs.xerCa fun h => by cases h
  have hexec : subtractZeroExtended rc regs insn =
      { expected ⟨.subfze, false, rc⟩ regs insn with xerCa := regs.xerCa } := by
    simp only [subtractZeroExtended, hregs]
    rw [add_carry_eq, hform]
    rfl
  have hca : (expected ⟨.subfze, false, rc⟩ regs insn).xerCa =
      decide (2 ^ 32 ≤ total (~~~ regs.gpr (regA insn)) 0 regs.xerCa) := rfl
  rw [hexec]
  constructor
  · intro h
    have hfield := congrArg Regs.xerCa h
    rw [hca] at hfield
    simp only at hfield
    cases hc : regs.xerCa with
    | false => exact .inl rfl
    | true =>
      rw [hc] at hfield
      have htrue := of_decide_eq_true hfield.symm
      rw [← hc] at htrue
      exact .inr (htotal.mp htrue).2
  · intro h
    have hfield : regs.xerCa = (expected ⟨.subfze, false, rc⟩ regs insn).xerCa := by
      rw [hca]
      cases hc : regs.xerCa with
      | false =>
        rw [hc] at htotal
        exact (decide_eq_false fun hh => absurd (htotal.mp hh).1 (by decide)).symm
      | true =>
        rw [hc] at h htotal
        exact (decide_eq_true (htotal.mpr ⟨rfl, h.resolve_left (by decide)⟩)).symm
    rw [hfield]

theorem neg_eq (a : BitVec 32) : ~~~ a + 1 = BitVec.ofNat 32 (total (~~~ a) 0 true) := by
  apply sum_eq
  simp [BitVec.toNat_add, total]

theorem execNEG_expected : execNEG regs insn = expected ⟨.neg, false, false⟩ regs insn := by
  unfold execNEG
  rw [neg_eq]
  rfl

theorem execNEG_dot_expected : execNEG_dot regs insn = expected ⟨.neg, false, true⟩ regs insn := by
  simp only [execNEG_dot, neg_eq, execUpdateCr0_eq]
  rfl

theorem neg_overflows (a : BitVec 32) : ~~~ a + 1 = 0x80000000 ↔ Overflows (~~~ a) 0 true := by
  have hbound := a.isLt
  have hint := BitVec.toInt_eq_toNat_cond (~~~ a)
  have hmin : (0x80000000 : BitVec 32).toNat = 2 ^ 31 := rfl
  have hone : (1 : BitVec 32).toNat = 1 := rfl
  have hzero : (0 : BitVec 32).toInt = 0 := rfl
  rw [BitVec.toNat_eq, BitVec.toNat_add, hmin, hone]
  unfold Overflows
  rw [hzero, Bool.toNat_true]
  rw [BitVec.toNat_not] at hint ⊢
  split at hint
  · omega
  · omega

theorem or_and_not (xer : BitVec 32) :
    xer &&& ~~~PPC32_XER_OV ||| (PPC32_XER_OV ||| PPC32_XER_SO) =
      xer ||| (PPC32_XER_SO ||| PPC32_XER_OV) := by
  apply BitVec.eq_of_getLsbD_eq
  intro k hk
  simp only [BitVec.getLsbD_or, BitVec.getLsbD_and, BitVec.getLsbD_not, hk, decide_true,
    Bool.true_and]
  cases xer.getLsbD k <;> cases PPC32_XER_OV.getLsbD k <;> cases PPC32_XER_SO.getLsbD k <;> rfl

theorem negateOverflow_expected :
    negateOverflow regs insn = expected ⟨.neg, true, true⟩ regs insn := by
  simp only [negateOverflow, neg_overflows, execUpdateCr0_eq, Regs.setGpr]
  simp only [expected, xerAfter, Op.left, Op.right, Op.carryIn, Bool.true_eq_false, if_false,
    if_true, ← neg_eq]
  by_cases hover : Overflows (~~~ regs.gpr (regA insn)) 0 true
  · simp only [hover, if_true, or_and_not]
  · simp only [hover, if_false]

theorem subtractCarryingOverflow_ne (rc : Bool) :
    subtractCarryingOverflow rc regs insn ≠ expected ⟨.subfc, true, rc⟩ regs insn := by
  intro h
  have hca := congrArg Regs.xerCa h
  have hleft : (subtractCarryingOverflow rc regs insn).xerCa =
      decide (regs.gpr (regA insn) > regs.gpr (regB insn)) := by
    unfold subtractCarryingOverflow execOvSub execCaSub
    cases rc with
    | false => simp only [Regs.setGpr, if_false, Bool.false_eq_true]; split <;> rfl
    | true => simp only [Regs.setGpr, if_true, execUpdateCr0_eq]; split <;> rfl
  have hright : (expected ⟨.subfc, true, rc⟩ regs insn).xerCa =
      decide (2 ^ 32 ≤ total (~~~ regs.gpr (regA insn)) (regs.gpr (regB insn)) true) := rfl
  have ha := (regs.gpr (regA insn)).isLt
  rw [hleft, hright, decide_eq_decide, gt_iff_lt, BitVec.lt_def] at hca
  simp only [total, BitVec.toNat_not, Bool.toNat_true] at hca
  omega

def Right (m : Mnemonic) (regs : Regs) (insn : Insn) : Prop :=
  match m with
  | .subfco | .subfcoDot => False
  | .subfze | .subfzeDot => regs.xerCa = false ∨ regs.gpr (regA insn) = 0
  | .nego =>
    regs.crFields 0 =
      cr0Of (-(regs.gpr (regA insn)))
        (soOf regs.xer || decide (regs.gpr (regA insn) = 0x80000000))
  | _ => True

theorem not_add_one (a : BitVec 32) : ~~~ a + 1 = -a := (BitVec.neg_eq_not_add a).symm

theorem soOf_xerAfter (xer a : BitVec 32) :
    soOf (xerAfter true xer (~~~ a) 0 true) = (soOf xer || decide (a = 0x80000000)) := by
  have hneg : Overflows (~~~ a) 0 true ↔ a = 0x80000000 := by
    rw [← neg_overflows, not_add_one]
    constructor
    · intro h
      have hback := congrArg (fun x : BitVec 32 => -x) h
      simpa using hback
    · intro h
      rw [h]
      rfl
  unfold xerAfter
  simp only [Bool.true_eq_false, if_false, hneg]
  by_cases ha : a = 0x80000000
  · rw [if_pos ha, decide_eq_true ha]
    simp [soOf, PPC32_XER_SO, PPC32_XER_OV]
  · rw [if_neg ha, decide_eq_false ha]
    simp [soOf, PPC32_XER_OV]

theorem execNEGO_expected :
    execNEGO regs insn = expected ⟨.neg, true, false⟩ regs insn ↔ Right .nego regs insn := by
  have hdot : execNEGO regs insn =
      { expected ⟨.neg, true, false⟩ regs insn with
        crFields := Function.update regs.crFields 0
          (cr0Of (-(regs.gpr (regA insn)))
            (soOf regs.xer || decide (regs.gpr (regA insn) = 0x80000000))) } := by
    rw [← soOf_xerAfter, ← not_add_one, neg_eq]
    exact negateOverflow_expected
  rw [hdot]
  simp only [Right]
  constructor
  · intro h
    have hcr := congrArg (fun r : Regs => r.crFields 0) h
    simp only [Function.update_self] at hcr
    exact hcr.symm
  · intro h
    rw [← h, Function.update_eq_self]
    rfl

theorem exec_expected_iff (m : Mnemonic) (regs : Regs) (insn : Insn) :
    m.exec regs insn = expected m.form regs insn ↔ Right m regs insn := by
  have hone : (1 : BitVec 32).toNat = true.toNat := rfl
  have hcarry := toNat_carry regs
  cases m with
  | addc | addcDot | addco | addcoDot => exact iff_of_true addCarrying_expected trivial
  | adde | addeDot | addeo | addeoDot =>
    exact iff_of_true (addExtended_expected (by decide) rfl rfl rfl) trivial
  | addic | addicDot => exact iff_of_true addImmediateCarrying_expected trivial
  | addme | addmeDot => exact iff_of_true (addExtended_expected (by decide) rfl rfl rfl) trivial
  | addze | addzeDot => exact iff_of_true addZeroExtended_expected trivial
  | subfc | subfcDot | subfic =>
    exact iff_of_true (subtractCarrying_expected (by decide) rfl rfl hone) trivial
  | subfe => exact iff_of_true (subtractCarrying_expected (by decide) rfl rfl hcarry) trivial
  | subfco => exact iff_of_false (subtractCarryingOverflow_ne false) id
  | subfcoDot => exact iff_of_false (subtractCarryingOverflow_ne true) id
  | subfze | subfzeDot => exact subtractZeroExtended_expected
  | neg => exact iff_of_true execNEG_expected trivial
  | negDot => exact iff_of_true execNEG_dot_expected trivial
  | nego => exact execNEGO_expected
  | negoDot => exact iff_of_true negateOverflow_expected trivial

structure Link where
  mnemonic : Mnemonic
  regs : Regs
  insn : Insn

def Link.step (l : Link) : Limbs.Step 32 :=
  { x := l.mnemonic.form.op.left l.regs l.insn
    y := l.mnemonic.form.op.right l.regs l.insn
    carryIn := l.mnemonic.form.op.carryIn l.regs
    sum := (l.mnemonic.exec l.regs l.insn).gpr (regD l.insn)
    carryOut := (l.mnemonic.exec l.regs l.insn).xerCa }

theorem step_exact {l : Link} (hop : l.mnemonic.form.op ≠ .neg)
    (h : l.mnemonic.exec l.regs l.insn = expected l.mnemonic.form l.regs l.insn) :
    l.step.Exact := by
  have hx := (l.mnemonic.form.op.left l.regs l.insn).isLt
  have hy := (l.mnemonic.form.op.right l.regs l.insn).isLt
  have hc := Bool.toNat_lt (l.mnemonic.form.op.carryIn l.regs)
  unfold Limbs.Step.Exact Link.step
  simp only [h, expected, Function.update_self, if_neg hop, toNat_ofNat_total]
  unfold total
  by_cases hcarry : 2 ^ 32 ≤ (l.mnemonic.form.op.left l.regs l.insn).toNat +
      (l.mnemonic.form.op.right l.regs l.insn).toNat + (l.mnemonic.form.op.carryIn l.regs).toNat
  · rw [decide_eq_true hcarry, Bool.toNat_true]
    omega
  · rw [decide_eq_false hcarry, Bool.toNat_false]
    omega

/-- The handlers leave exactly the sum, its carry, its overflow and, in the dot
forms, its comparison where the states are right for them, and nowhere else.
From such instructions, each taking the carry that the one before it left,
multiword sums of any length come out exact. -/
theorem carry_instructions (m : Mnemonic) (regs : Regs) (insn : Insn) (carry : Bool)
    (links : List Link) :
    (m.exec regs insn = expected m.form regs insn ↔ Right m regs insn) ∧
      (Limbs.Linked carry (links.map Link.step) →
      (∀ l ∈ links, l.mnemonic.form.op ≠ .neg ∧ Right l.mnemonic l.regs l.insn) →
      Limbs.value ((links.map Link.step).map Limbs.Step.sum) +
          2 ^ (32 * links.length) * (Limbs.lastCarry carry (links.map Link.step)).toNat =
        Limbs.value ((links.map Link.step).map Limbs.Step.x) +
          Limbs.value ((links.map Link.step).map Limbs.Step.y) + carry.toNat) := by
  refine ⟨exec_expected_iff m regs insn, fun hlinked hright => ?_⟩
  have hexact : ∀ s ∈ links.map Link.step, s.Exact := by
    intro s hs
    obtain ⟨l, hl, rfl⟩ := List.mem_map.mp hs
    have hl := hright l hl
    exact step_exact hl.1 ((exec_expected_iff _ _ _).mpr hl.2)
  have hvalue := Limbs.value_of_linked hlinked hexact
  rwa [List.length_map] at hvalue

/-- ADDC of two words of all ones, and ADDE of the words above them. -/
def twoWords : List Link :=
  [⟨.addc, ⟨fun _ => -1, 0, false, fun _ => 0⟩, 0x7c642814⟩,
    ⟨.adde, ⟨fun _ => 0, 0, true, fun _ => 0⟩, 0x7c642914⟩]

theorem carry_instructions_twoWords :
    Limbs.value ((twoWords.map Link.step).map Limbs.Step.sum) +
        2 ^ (32 * twoWords.length) *
          (Limbs.lastCarry false (twoWords.map Link.step)).toNat =
      Limbs.value ((twoWords.map Link.step).map Limbs.Step.x) +
        Limbs.value ((twoWords.map Link.step).map Limbs.Step.y) + false.toNat := by
  refine (carry_instructions .addc ⟨fun _ => -1, 0, false, fun _ => 0⟩ 0x7c642814 false
    twoWords).2 ⟨rfl, by decide, trivial⟩ fun l hl => ?_
  simp only [twoWords, List.mem_cons, List.not_mem_nil, or_false] at hl
  rcases hl with rfl | rfl
  · exact ⟨by decide, trivial⟩
  · exact ⟨by decide, trivial⟩

/-- SUBFZE of one keeps a carry that it should clear. -/
theorem not_carry_instructions :
    ¬ ∀ (m : Mnemonic) (regs : Regs) (insn : Insn),
      m.exec regs insn = expected m.form regs insn := by
  intro h
  have hca := congrArg Regs.xerCa (h .subfze ⟨fun _ => 1, 0, true, fun _ => 0⟩ 0x7c640190)
  revert hca
  decide

end Dynamips.Ppc32
