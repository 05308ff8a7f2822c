import Dynamips.Lib.Amd64

/-! AMD64 code with forward branches to labels, over a memory of 32-bit words that
is read at the addresses registers hold. -/
set_option autoImplicit false

namespace Dynamips.Amd64

/-- The registers, the flags and the words of memory by their addresses. -/
structure Core where
  reg : Reg → BitVec 64
  flags : Flags
  mem : BitVec 64 → BitVec 32

/-- An instruction, or a label that branches to `l` are patched to. -/
inductive BranchInstr (Label : Type) where
  | movImm (dst : Reg) (imm : BitVec 32)
  | xor (dst src : Reg)
  | loadQword (dst base : Reg) (disp : BitVec 32)
  | storeImm (base : Reg) (disp imm : BitVec 32)
  | test (a b : Reg)
  | cmpLoad (a base : Reg) (disp : BitVec 32)
  | branch (cond : Cond) (l : Label)
  | jump (l : Label)
  | jumpReg (r : Reg)
  | ret
  | label (l : Label)

/-- How control leaves a piece of code. -/
inductive Exit (Label : Type) where
  | jump (target : BitVec 64) (m : Core)
  | ret (m : Core)
  | fall (pending : Option Label) (m : Core)

namespace Core

def qword (mem : BitVec 64 → BitVec 32) (addr : BitVec 64) : BitVec 64 :=
  mem (addr + 4) ++ mem addr

def addr (m : Core) (base : Reg) (disp : BitVec 32) : BitVec 64 :=
  m.reg base + disp.signExtend 64

def setReg (m : Core) (r : Reg) (x : BitVec 64) : Core :=
  { m with reg := Function.update m.reg r x }

def setFlags (m : Core) (f : Flags) : Core := { m with flags := f }

def store (m : Core) (addr : BitVec 64) (x : BitVec 32) : Core :=
  { m with mem := Function.update m.mem addr x }

section
variable (m : Core) (r : Reg) (x : BitVec 64) (f : Flags)

@[simp] theorem setReg_reg : (m.setReg r x).reg = Function.update m.reg r x := rfl

@[simp] theorem setReg_flags : (m.setReg r x).flags = m.flags := rfl

@[simp] theorem setReg_mem : (m.setReg r x).mem = m.mem := rfl

@[simp] theorem setFlags_reg : (m.setFlags f).reg = m.reg := rfl

@[simp] theorem setFlags_flags : (m.setFlags f).flags = f := rfl

@[simp] theorem setFlags_mem : (m.setFlags f).mem = m.mem := rfl

end

end Core

variable {Label : Type} [DecidableEq Label]

/-- Code that runs, or that is skipped on the way to a label. -/
def runBranch : List (BranchInstr Label) → Option Label → Core → Exit Label
  | [], l, m => .fall l m
  | .label l :: code, some l', m => runBranch code (if l = l' then none else some l') m
  | _ :: code, some l', m => runBranch code (some l') m
  | .label _ :: code, none, m => runBranch code none m
  | .movImm dst imm :: code, none, m => runBranch code none (m.setReg dst (zext imm))
  | .xor dst src :: code, none, m =>
    let x := low (m.reg dst) ^^^ low (m.reg src)
    runBranch code none ((m.setReg dst (zext x)).setFlags
      (AluOp.flags .xor m.flags (low (m.reg dst)) (low (m.reg src))))
  | .loadQword dst base disp :: code, none, m =>
    runBranch code none (m.setReg dst (Core.qword m.mem (m.addr base disp)))
  | .storeImm base disp imm :: code, none, m =>
    runBranch code none (m.store (m.addr base disp) imm)
  | .test a b :: code, none, m =>
    runBranch code none (m.setFlags (AluOp.flags .and m.flags (m.reg a) (m.reg b)))
  | .cmpLoad a base disp :: code, none, m =>
    runBranch code none
      (m.setFlags (AluOp.flags .cmp m.flags (low (m.reg a)) (m.mem (m.addr base disp))))
  | .branch cond l :: code, none, m =>
    runBranch code (if cond.holds m.flags then some l else none) m
  | .jump l :: code, none, m => runBranch code (some l) m
  | .jumpReg r :: _, none, m => .jump (m.reg r) m
  | .ret :: _, none, m => .ret m

section
variable (m : Core) (code : List (BranchInstr Label)) (l l' : Label)

@[simp] theorem runBranch_label : runBranch (.label l :: code) none m = runBranch code none m := rfl

@[simp] theorem runBranch_skip_label : runBranch (.label l :: code) (some l') m =
    runBranch code (if l = l' then none else some l') m := rfl

@[simp] theorem runBranch_branch (cond : Cond) : runBranch (.branch cond l :: code) none m =
    runBranch code (if cond.holds m.flags then some l else none) m := rfl

@[simp] theorem runBranch_loadQword (dst base : Reg) (disp : BitVec 32) :
    runBranch (.loadQword dst base disp :: code) none m =
      runBranch code none (m.setReg dst (Core.qword m.mem (m.addr base disp))) := rfl

@[simp] theorem runBranch_test (a b : Reg) : runBranch (.test a b :: code) none m =
    runBranch code none (m.setFlags (AluOp.flags .and m.flags (m.reg a) (m.reg b))) := rfl

@[simp] theorem runBranch_cmpLoad (a base : Reg) (disp : BitVec 32) :
    runBranch (.cmpLoad a base disp :: code) none m = runBranch code none
      (m.setFlags (AluOp.flags .cmp m.flags (low (m.reg a)) (m.mem (m.addr base disp)))) := rfl

@[simp] theorem runBranch_storeImm (base : Reg) (disp imm : BitVec 32) :
    runBranch (.storeImm base disp imm :: code) none m =
      runBranch code none (m.store (m.addr base disp) imm) := rfl

@[simp] theorem runBranch_jumpReg (r : Reg) :
    runBranch (.jumpReg r :: code) none m = .jump (m.reg r) m := rfl

@[simp] theorem runBranch_ret : runBranch (.ret :: code) none m = .ret m := rfl

end

/-- A branch to a label skips what has no label in between. -/
theorem runBranch_skip {l' : Label} (code code' : List (BranchInstr Label)) (m : Core)
    (h : ∀ l, .label l ∉ code) :
    runBranch (code ++ code') (some l') m = runBranch code' (some l') m := by
  induction code with
  | nil => rfl
  | cons i code ih =>
    have hcode := ih fun l hl => h l (List.mem_cons_of_mem i hl)
    cases i with
    | label l => exact absurd List.mem_cons_self (h l)
    | _ => exact hcode

@[simp] theorem zf_test (f : Flags) (x : BitVec 64) :
    (AluOp.flags .and f x x).zf = decide (x = 0) := by
  simp [AluOp.flags]

@[simp] theorem zf_cmp (f : Flags) (x y : BitVec 32) :
    (AluOp.flags .cmp f x y).zf = decide (x = y) := by
  have h : x - y = 0#32 ↔ x = y := by
    constructor
    · intro h
      calc x = x - y + y := (BitVec.sub_add_cancel x y).symm
        _ = y := by rw [h, BitVec.zero_add]
    · rintro rfl
      exact BitVec.sub_self x
  simp [AluOp.flags, h]

end Dynamips.Amd64
