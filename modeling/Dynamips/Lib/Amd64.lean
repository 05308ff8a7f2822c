import Mathlib.Algebra.Order.Ring.Int
import Mathlib.Logic.Function.Basic

/-! Straight-line AMD64 code over words of memory that are named by locations.
Flags that an instruction leaves undefined are whatever the host has there. -/
set_option autoImplicit false

namespace Dynamips.Amd64

inductive Reg where
  | rax | rcx | rdx | rbx | rsp | rbp | rsi | rdi
  | r8 | r9 | r10 | r11 | r12 | r13 | r14 | r15
deriving DecidableEq, Repr

/-- The flags that instructions test, with the other bits of RFLAGS. -/
structure Flags where
  cf : Bool
  zf : Bool
  sf : Bool
  of : Bool
  rest : BitVec 64

def Flags.image (f : Flags) : BitVec 64 :=
  (f.rest &&& ~~~0x8c1#64) ||| (BitVec.ofBool f.cf).setWidth 64 |||
    (BitVec.ofBool f.zf).setWidth 64 <<< 6 ||| (BitVec.ofBool f.sf).setWidth 64 <<< 7 |||
    (BitVec.ofBool f.of).setWidth 64 <<< 11

inductive AluOp where
  | add | sub | cmp | and | or | xor
deriving DecidableEq, Repr

inductive ShiftOp where
  | shl | shr | sar | rol
deriving DecidableEq, Repr

inductive Cond where
  | c | a | z | nz
deriving DecidableEq, Repr

/-- The width of an operation: a result of 32 bits clears the upper half. -/
inductive Size where
  | dword | qword
deriving DecidableEq, Repr

/-- An instruction over locations of words and symbols of read-only tables. -/
inductive Instr (Loc Sym : Type) where
  | mov (dst src : Reg)
  | movImm (dst : Reg) (imm : BitVec 64)
  | movSym (dst : Reg) (sym : Sym)
  | load (dst : Reg) (loc : Loc)
  | store (loc : Loc) (src : Reg)
  | loadTable (dst base index : Reg)
  | alu (op : AluOp) (size : Size) (dst src : Reg)
  | aluImm (op : AluOp) (size : Size) (dst : Reg) (imm : BitVec 32)
  | aluLoad (op : AluOp) (dst : Reg) (loc : Loc)
  | aluStore (op : AluOp) (loc : Loc) (src : Reg)
  | aluMemImm (op : AluOp) (loc : Loc) (imm : BitVec 32)
  | test (a b : Reg)
  | testMem (loc : Loc) (imm : BitVec 32)
  | not (dst : Reg)
  | neg (dst : Reg)
  | shiftImm (op : ShiftOp) (size : Size) (dst : Reg) (imm : BitVec 8)
  | shiftCl (op : ShiftOp) (size : Size) (dst : Reg)
  | mul (isSigned : Bool) (src : Reg)
  | div (src : Reg)
  | setReg (cond : Cond) (dst : Reg)
  | setMem (cond : Cond) (loc : Loc)
  | pushf
  | pop (dst : Reg)

/-- `steps` counts the instructions, each of which may leave other flags undefined. -/
structure Machine (Loc : Type) where
  reg : Reg → BitVec 64
  flags : Flags
  mem : Loc → BitVec 32
  stack : List (BitVec 64)
  steps : Nat

structure Host (Sym : Type) where
  symAddr : Sym → BitVec 64
  table : BitVec 64 → BitVec 32
  undefined : Nat → Flags

def low (x : BitVec 64) : BitVec 32 := x.setWidth 32

def zext (x : BitVec 32) : BitVec 64 := x.setWidth 64

def AluOp.result {w : Nat} (op : AluOp) (a b : BitVec w) : BitVec w :=
  match op with
  | add => a + b
  | sub | cmp => a - b
  | and => a &&& b
  | or => a ||| b
  | xor => a ^^^ b

section
variable {w : Nat} (a b : BitVec w)

@[simp] theorem result_add : AluOp.add.result a b = a + b := rfl

@[simp] theorem result_sub : AluOp.sub.result a b = a - b := rfl

@[simp] theorem result_cmp : AluOp.cmp.result a b = a - b := rfl

@[simp] theorem result_and : AluOp.and.result a b = a &&& b := rfl

@[simp] theorem result_or : AluOp.or.result a b = a ||| b := rfl

@[simp] theorem result_xor : AluOp.xor.result a b = a ^^^ b := rfl

end

/-- The flags of an operation; `f` has the others. -/
def AluOp.flags {w : Nat} (op : AluOp) (f : Flags) (a b : BitVec w) : Flags where
  cf :=
    match op with
    | add => a.uaddOverflow b
    | sub | cmp => a.usubOverflow b
    | and | or | xor => false
  zf := decide (op.result a b = 0)
  sf := (op.result a b).msb
  of :=
    match op with
    | add => a.saddOverflow b
    | sub | cmp => a.ssubOverflow b
    | and | or | xor => false
  rest := f.rest

/-- A shift by a count that the hardware has cut to the width. -/
def ShiftOp.result {w : Nat} (op : ShiftOp) (x : BitVec w) (n : Nat) : BitVec w :=
  match op with
  | shl => x <<< n
  | shr => x >>> n
  | sar => x.sshiftRight n
  | rol => x.rotateLeft n

section
variable {w : Nat} (x : BitVec w) (n : Nat)

@[simp] theorem result_shl : ShiftOp.shl.result x n = x <<< n := rfl

@[simp] theorem result_shr : ShiftOp.shr.result x n = x >>> n := rfl

@[simp] theorem result_sar : ShiftOp.sar.result x n = x.sshiftRight n := rfl

@[simp] theorem result_rol : ShiftOp.rol.result x n = x.rotateLeft n := rfl

end

def Cond.holds (f : Flags) : Cond → Bool
  | c => f.cf
  | a => !f.cf && !f.zf
  | z => f.zf
  | nz => !f.zf

def setByte {w : Nat} (x : BitVec w) (b : Bool) : BitVec w :=
  (x &&& ~~~255#w) ||| (BitVec.ofBool b).setWidth w

variable {Loc Sym : Type}

def Machine.setReg (m : Machine Loc) (r : Reg) (x : BitVec 64) : Machine Loc :=
  { m with reg := Function.update m.reg r x }

def Machine.setMem [DecidableEq Loc] (m : Machine Loc) (loc : Loc) (x : BitVec 32) : Machine Loc :=
  { m with mem := Function.update m.mem loc x }

def Machine.setFlags (m : Machine Loc) (f : Flags) : Machine Loc := { m with flags := f }

def Machine.tick (m : Machine Loc) : Machine Loc := { m with steps := m.steps + 1 }

section
variable (m : Machine Loc) (r : Reg) (x : BitVec 64) (f : Flags)

@[simp] theorem setReg_reg : (m.setReg r x).reg = Function.update m.reg r x := rfl

@[simp] theorem setReg_mem : (m.setReg r x).mem = m.mem := rfl

@[simp] theorem setReg_flags : (m.setReg r x).flags = m.flags := rfl

@[simp] theorem setMem_reg [DecidableEq Loc] (loc : Loc) (y : BitVec 32) :
    (m.setMem loc y).reg = m.reg := rfl

@[simp] theorem setMem_mem [DecidableEq Loc] (loc : Loc) (y : BitVec 32) :
    (m.setMem loc y).mem = Function.update m.mem loc y := rfl

@[simp] theorem setMem_flags [DecidableEq Loc] (loc : Loc) (y : BitVec 32) :
    (m.setMem loc y).flags = m.flags := rfl

@[simp] theorem setFlags_reg : (m.setFlags f).reg = m.reg := rfl

@[simp] theorem setFlags_mem : (m.setFlags f).mem = m.mem := rfl

@[simp] theorem setFlags_flags : (m.setFlags f).flags = f := rfl

@[simp] theorem tick_reg : m.tick.reg = m.reg := rfl

@[simp] theorem tick_mem : m.tick.mem = m.mem := rfl

@[simp] theorem tick_flags : m.tick.flags = m.flags := rfl

end

/-- An operation on a register; a comparison keeps it. -/
def Machine.alu (m : Machine Loc) (op : AluOp) (size : Size) (dst : Reg) (b : BitVec 64)
    (f : Flags) : Machine Loc :=
  match size with
  | .dword =>
    (if op = .cmp then m else m.setReg dst (zext (op.result (low (m.reg dst)) (low b)))).setFlags
      (op.flags f (low (m.reg dst)) (low b))
  | .qword =>
    (if op = .cmp then m else m.setReg dst (op.result (m.reg dst) b)).setFlags
      (op.flags f (m.reg dst) b)

def Machine.shift (m : Machine Loc) (op : ShiftOp) (size : Size) (dst : Reg) (n : Nat)
    (f : Flags) : Machine Loc :=
  match size with
  | .dword => (m.setReg dst (zext (op.result (low (m.reg dst)) (n % 32)))).setFlags f
  | .qword => (m.setReg dst (op.result (m.reg dst) (n % 64))).setFlags f

/-- The product of RAX and a register, in RDX and RAX. -/
def Machine.mul (m : Machine Loc) (isSigned : Bool) (src : Reg) (f : Flags) : Machine Loc :=
  let product : BitVec 64 :=
    if isSigned then (low (m.reg .rax)).signExtend 64 * (low (m.reg src)).signExtend 64
    else zext (low (m.reg .rax)) * zext (low (m.reg src))
  ((m.setReg .rax (zext (low product))).setReg .rdx (product >>> 32)).setFlags f

/-- The quotient of RDX and RAX by a register; none where the host faults. -/
def Machine.div (m : Machine Loc) (src : Reg) (f : Flags) : Option (Machine Loc) :=
  let dividend := (low (m.reg .rdx)).toNat * 2 ^ 32 + (low (m.reg .rax)).toNat
  let divisor := (low (m.reg src)).toNat
  if divisor = 0 ∨ 2 ^ 32 ≤ dividend / divisor then none
  else some (((m.setReg .rax (BitVec.ofNat 64 (dividend / divisor))).setReg .rdx
    (BitVec.ofNat 64 (dividend % divisor))).setFlags f)

variable [DecidableEq Loc]

/-- What one instruction does, before it is counted. -/
def Instr.effect (host : Host Sym) (m : Machine Loc) : Instr Loc Sym → Option (Machine Loc)
  | mov dst src => some (m.setReg dst (zext (low (m.reg src))))
  | movImm dst imm => some (m.setReg dst imm)
  | movSym dst sym => some (m.setReg dst (host.symAddr sym))
  | load dst loc => some (m.setReg dst (zext (m.mem loc)))
  | store loc src => some (m.setMem loc (low (m.reg src)))
  | loadTable dst base index =>
    some (m.setReg dst (zext (host.table (m.reg base + m.reg index <<< 2))))
  | alu op size dst src => some (m.alu op size dst (m.reg src) (host.undefined m.steps))
  | aluImm op size dst imm => some (m.alu op size dst (imm.signExtend 64) (host.undefined m.steps))
  | aluLoad op dst loc => some (m.alu op .dword dst (zext (m.mem loc)) (host.undefined m.steps))
  | aluStore op loc src =>
    some ((m.setMem loc (op.result (m.mem loc) (low (m.reg src)))).setFlags
      (op.flags (host.undefined m.steps) (m.mem loc) (low (m.reg src))))
  | aluMemImm op loc imm =>
    some ((m.setMem loc (op.result (m.mem loc) imm)).setFlags
      (op.flags (host.undefined m.steps) (m.mem loc) imm))
  | test a b =>
    some (m.setFlags (AluOp.flags .and (host.undefined m.steps) (low (m.reg a)) (low (m.reg b))))
  | testMem loc imm =>
    -- A negative number also tests the word that follows, which has no location.
    if imm.msb then none
    else some (m.setFlags (AluOp.flags .and (host.undefined m.steps) (m.mem loc) imm))
  | not dst => some (m.setReg dst (~~~ m.reg dst))
  | neg dst => some ((m.setReg dst (- m.reg dst)).setFlags (host.undefined m.steps))
  | shiftImm op size dst imm => some (m.shift op size dst imm.toNat (host.undefined m.steps))
  | shiftCl op size dst =>
    some (m.shift op size dst ((m.reg .rcx).setWidth 8).toNat (host.undefined m.steps))
  | mul isSigned src => some (m.mul isSigned src (host.undefined m.steps))
  | div src => m.div src (host.undefined m.steps)
  | setReg cond dst => some (m.setReg dst (setByte (m.reg dst) (cond.holds m.flags)))
  | setMem cond loc => some (m.setMem loc (setByte (m.mem loc) (cond.holds m.flags)))
  | pushf => some { m with stack := m.flags.image :: m.stack }
  | pop dst =>
    match m.stack with
    | [] => none
    | x :: stack => some ({ m with stack := stack }.setReg dst x)

/-- A run of straight-line code; none where an instruction faults. -/
def run (host : Host Sym) : List (Instr Loc Sym) → Machine Loc → Option (Machine Loc)
  | [], m => some m
  | i :: code, m => (i.effect host m).bind fun m => run host code m.tick

variable {host : Host Sym} {m m' : Machine Loc} {code code' : List (Instr Loc Sym)}

@[simp] theorem low_zext (x : BitVec 32) : low (zext x) = x := by
  simp [low, zext]

@[simp] theorem low_signExtend (x : BitVec 32) : low (x.signExtend 64) = x := by
  unfold low
  apply BitVec.eq_of_getLsbD_eq
  intro i hi
  rw [BitVec.getLsbD_setWidth, BitVec.getLsbD_signExtend]
  simp [hi, show i < 64 by omega]

theorem run_append : run host (code ++ code') m = (run host code m).bind (run host code') := by
  induction code generalizing m with
  | nil => rfl
  | cons i code ih =>
    rw [List.cons_append, run, run]
    cases i.effect host m with
    | none => rfl
    | some m => exact ih

theorem run_of_append (h : run host code m = some m') :
    run host (code ++ code') m = run host code' m' := by
  rw [run_append, h, Option.bind_some]

end Dynamips.Amd64
