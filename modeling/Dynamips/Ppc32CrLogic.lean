import Dynamips.Ppc32JitOp

/-! The logical instructions on bits of the condition register, in the interpreter
(ppc32_exec.c) and as the translator writes them (ppc32_amd64_trans.c). -/
set_option autoImplicit false

namespace Dynamips.Ppc32

open Amd64

/-- A bit of the condition register, from the most significant one. -/
abbrev CrBit := BitVec 5

def getCrField (bit : CrBit) : BitVec 3 := (bit >>> 2).setWidth 3

def getCrBit (bit : CrBit) : Nat := (~~~bit &&& 3#5).toNat

def Regs.readCrBit (regs : Regs) (bit : CrBit) : BitVec 32 :=
  (regs.crFields (getCrField bit) >>> getCrBit bit) &&& 1#32

def Regs.setCrBit (regs : Regs) (bit : CrBit) : Regs :=
  { regs with
    crFields := Function.update regs.crFields (getCrField bit)
      (regs.crFields (getCrField bit) ||| 1#32 <<< getCrBit bit) }

def Regs.clearCrBit (regs : Regs) (bit : CrBit) : Regs :=
  { regs with
    crFields := Function.update regs.crFields (getCrField bit)
      (regs.crFields (getCrField bit) &&& ~~~(1#32 <<< getCrBit bit)) }

inductive CrLogic where
  | CRAND | CRANDC | CREQV | CRNAND | CRNOR | CROR | CRORC | CRXOR
deriving DecidableEq, Repr

/-- The common body of the interpreter: `bd`, `bb` and `ba` are the fields of the
instruction from the highest one. -/
def execCrLogic (op : BitVec 32 → BitVec 32 → BitVec 32) (inverted : Bool) (regs : Regs)
    (insn : Insn) : Regs :=
  let bd := regD insn
  let bb := regA insn
  let ba := regB insn
  let tmp := op (regs.readCrBit ba) (regs.readCrBit bb)
  if decide (tmp &&& 1#32 ≠ 0) != inverted then regs.setCrBit bd else regs.clearCrBit bd

def execCRAND := execCrLogic (fun a b => a &&& b) false

def execCRANDC := execCrLogic (fun a b => a &&& ~~~b) false

def execCREQV := execCrLogic (fun a b => a ^^^ b) true

def execCRNAND := execCrLogic (fun a b => a &&& b) true

def execCRNOR := execCrLogic (fun a b => a ||| b) true

def execCROR := execCrLogic (fun a b => a ||| b) false

def execCRORC := execCrLogic (fun a b => a ||| ~~~b) false

def execCRXOR := execCrLogic (fun a b => a ^^^ b) false

def CrLogic.exec : CrLogic → Regs → Insn → Regs
  | CRAND => execCRAND
  | CRANDC => execCRANDC
  | CREQV => execCREQV
  | CRNAND => execCRNAND
  | CRNOR => execCRNOR
  | CROR => execCROR
  | CRORC => execCRORC
  | CRXOR => execCRXOR

def crMask (bit : CrBit) : BitVec 32 := 1#32 <<< getCrBit bit

/-- The operation on the bits, of which `bb` is read with `cond`. -/
def crOperate (op : AluOp) (cond : Cond) (bb ba : CrBit) : List HostInsn :=
  [.testMem (.crField (getCrField ba)) (crMask ba), .setReg .nz .rdx,
    .testMem (.crField (getCrField bb)) (crMask bb), .setReg cond tmpHreg,
    .alu op .qword tmpHreg .rdx]

/-- The bit `bd` becomes that of the result. -/
def crStore (bd : CrBit) : List HostInsn :=
  [.aluImm .and .qword tmpHreg 1, .aluMemImm .and (.crField (getCrField bd)) (~~~crMask bd),
    .shiftImm .shl .qword tmpHreg (BitVec.ofNat 8 (getCrBit bd)),
    .aluStore .or (.crField (getCrField bd)) tmpHreg]

def crCode (op : AluOp) (cond : Cond) (inverted : Bool) (bd bb ba : CrBit) : List HostInsn :=
  crOperate op cond bb ba ++ ((if inverted then [.not tmpHreg] else []) ++ crStore bd)

def emitCrLogic (op : AluOp) (cond : Cond) (inverted : Bool) (insn : Insn) : Emit Unit := do
  let bd := regD insn
  let bb := regA insn
  let ba := regB insn
  emitAlterHostReg .rdx
  startHregSeq
  allocHregForced .rdx
  opSet (.requireFlags (some (getCrField ba)))
  opSet (.requireFlags (some (getCrField bb)))
  opSet (.requireFlags (some (getCrField bd)))
  emitInsnOutput (crCode op cond inverted bd bb ba)

def emitCRAND := emitCrLogic .and .nz false

def emitCRANDC := emitCrLogic .and .z false

def emitCREQV := emitCrLogic .xor .nz true

def emitCRNAND := emitCrLogic .and .nz true

def emitCRNOR := emitCrLogic .or .nz true

def emitCROR := emitCrLogic .or .nz false

def emitCRORC := emitCrLogic .or .z false

def emitCRXOR := emitCrLogic .xor .nz false

def CrLogic.emit : CrLogic → Insn → Emit Unit
  | CRAND => emitCRAND
  | CRANDC => emitCRANDC
  | CREQV => emitCREQV
  | CRNAND => emitCRNAND
  | CRNOR => emitCRNOR
  | CROR => emitCROR
  | CRORC => emitCRORC
  | CRXOR => emitCRXOR

/-- What the instruction is named for, of the bits of the second and the third
operand. -/
def CrLogic.fn : CrLogic → Bool → Bool → Bool
  | CRAND, a, b => a && b
  | CRANDC, a, b => a && !b
  | CREQV, a, b => a == b
  | CRNAND, a, b => !(a && b)
  | CRNOR, a, b => !(a || b)
  | CROR, a, b => a || b
  | CRORC, a, b => a || !b
  | CRXOR, a, b => a != b

def Regs.crBit (regs : Regs) (bit : CrBit) : Bool :=
  (regs.crFields (getCrField bit)).getLsbD (getCrBit bit)

def Regs.putCrBit (regs : Regs) (bit : CrBit) (v : Bool) : Regs :=
  if v then regs.setCrBit bit else regs.clearCrBit bit

variable {host : JitHost} {m : Machine CpuLoc} {regs : Regs} {insn : Insn} {bit : CrBit}
  {items : List (Option RegNum × Reg)} {op : AluOp} {cond : Cond}

theorem getCrBit_lt (bit : CrBit) : getCrBit bit < 4 := by
  decide +revert

theorem crBit_cases (bit bit' : CrBit) :
    bit = bit' ↔ getCrField bit = getCrField bit' ∧ getCrBit bit = getCrBit bit' := by
  decide +revert

theorem crMask_getLsbD (bit : CrBit) {j : Nat} (_hj : j < 32) :
    (crMask bit).getLsbD j = decide (j = getCrBit bit) := by
  have hlt := getCrBit_lt bit
  rw [crMask, BitVec.getLsbD_shiftLeft, BitVec.getLsbD_one]
  by_cases h : j = getCrBit bit
  · simp [h, show getCrBit bit < 32 by omega]
  · by_cases hle : j < getCrBit bit
    · simp [h, hle]
    · have hne : j - getCrBit bit ≠ 0 := by omega
      simp [h, hne]

theorem readCrBit_eq (regs : Regs) (bit : CrBit) :
    regs.readCrBit bit = (BitVec.ofBool (regs.crBit bit)).setWidth 32 := by
  apply BitVec.eq_of_getLsbD_eq
  intro j hj
  rw [Regs.readCrBit, BitVec.getLsbD_and, BitVec.getLsbD_ushiftRight, BitVec.getLsbD_one,
    BitVec.getLsbD_setWidth, Regs.crBit]
  cases j with
  | zero => simp
  | succ j => simp

theorem crBit_putCrBit (regs : Regs) (bit : CrBit) (v : Bool) (n : CrBit) :
    (regs.putCrBit bit v).crBit n = if n = bit then v else regs.crBit n := by
  have hlt := getCrBit_lt n
  have hin : getCrBit n < 32 := by omega
  have hmask := @crMask_getLsbD bit (getCrBit n) hin
  rw [crMask] at hmask
  by_cases hfield : getCrField n = getCrField bit
  · cases v with
    | false =>
      have hnot : (~~~(1#32 <<< getCrBit bit)).getLsbD (getCrBit n) =
          !decide (getCrBit n = getCrBit bit) := by
        rw [BitVec.getLsbD_not, hmask, decide_eq_true hin, Bool.true_and]
      simp only [Regs.putCrBit, Regs.clearCrBit, Regs.crBit, hfield, crBit_cases,
        Bool.false_eq_true, if_false, Function.update_self, BitVec.getLsbD_and, hnot, true_and]
      by_cases h : getCrBit n = getCrBit bit
      · simp [h]
      · simp [h]
    | true =>
      simp [Regs.putCrBit, Regs.setCrBit, Regs.crBit, hfield, hmask, crBit_cases, Bool.or_comm]
  · cases v with
    | false => simp [Regs.putCrBit, Regs.clearCrBit, Regs.crBit, hfield, crBit_cases]
    | true => simp [Regs.putCrBit, Regs.setCrBit, Regs.crBit, hfield, crBit_cases]

theorem exec_eq (k : CrLogic) (regs : Regs) (insn : Insn) :
    k.exec regs insn = regs.putCrBit (regD insn)
      (k.fn (regs.crBit (regB insn)) (regs.crBit (regA insn))) := by
  cases k <;>
    simp only [CrLogic.exec, execCRAND, execCRANDC, execCREQV, execCRNAND, execCRNOR, execCROR,
      execCRORC, execCRXOR, execCrLogic, readCrBit_eq, CrLogic.fn] <;>
    cases regs.crBit (regB insn) <;> cases regs.crBit (regA insn) <;> rfl

def condBit (cond : Cond) (v : Bool) : Bool := if cond = .z then !v else v

def bitOp (op : AluOp) (a b : Bool) : Bool :=
  (op.result (BitVec.ofBool a) (BitVec.ofBool b)).getLsbD 0

theorem crMask_msb (bit : CrBit) : (crMask bit).msb = false := by
  decide +revert

theorem and_crMask (x : BitVec 32) (bit : CrBit) :
    x &&& crMask bit = 0#32 ↔ x.getLsbD (getCrBit bit) = false := by
  have hlt := getCrBit_lt bit
  have hpow : crMask bit = BitVec.twoPow 32 (getCrBit bit) := by
    decide +revert
  rw [hpow, BitVec.and_twoPow]
  cases x.getLsbD (getCrBit bit) with
  | false => simp
  | true =>
    have hne : BitVec.twoPow 32 (getCrBit bit) ≠ 0#32 := by
      rw [← hpow]
      decide +revert
    simp [hne]

theorem setByte_getLsbD (x : BitVec 64) (v : Bool) : (setByte x v).getLsbD 0 = v := by
  cases v <;> simp [setByte]

def OnBits (op : AluOp) : Prop := op = .and ∨ op = .or ∨ op = .xor

theorem result_getLsbD (hop : OnBits op) {w : Nat} (x y : BitVec w) :
    (op.result x y).getLsbD 0 = bitOp op (x.getLsbD 0) (y.getLsbD 0) := by
  rcases hop with rfl | rfl | rfl
  · simp [bitOp]
  · simp [bitOp]
  · simp [bitOp]

theorem and_one (x : BitVec 64) : x &&& 1#64 = (BitVec.ofBool (x.getLsbD 0)).setWidth 64 := by
  apply BitVec.eq_of_getLsbD_eq
  intro j hj
  rw [BitVec.getLsbD_and, BitVec.getLsbD_one, BitVec.getLsbD_setWidth]
  cases j with
  | zero => simp
  | succ j => simp

theorem low_shl_bit (v : Bool) (bit : CrBit) :
    low ((BitVec.ofBool v).setWidth 64 <<< getCrBit bit) = if v then crMask bit else 0#32 := by
  decide +revert

theorem crFields_putCrBit (regs : Regs) (bit : CrBit) (v : Bool) :
    regs.putCrBit bit v =
      { regs with
        crFields := Function.update regs.crFields (getCrField bit)
          ((regs.crFields (getCrField bit) &&& ~~~crMask bit) |||
            if v then crMask bit else 0#32) } := by
  cases v with
  | false => simp [Regs.putCrBit, Regs.clearCrBit, crMask]
  | true =>
    have hset : ∀ x : BitVec 32, (x &&& ~~~crMask bit) ||| crMask bit = x ||| crMask bit := by
      intro x
      apply BitVec.eq_of_getLsbD_eq
      intro j hj
      rw [BitVec.getLsbD_or, BitVec.getLsbD_and, BitVec.getLsbD_not, BitVec.getLsbD_or]
      cases (crMask bit).getLsbD j <;> simp [hj]
    simp only [Regs.putCrBit, Regs.setCrBit, if_true, hset]
    rfl

theorem readBit_run (host : JitHost) (hcond : cond = .z ∨ cond = .nz) (bit : CrBit) (r : Reg)
    (hm : m.mem = memOf regs) :
    ∃ m', run host.toHost [.testMem (.crField (getCrField bit)) (crMask bit), .setReg cond r] m =
        some m' ∧ m'.mem = memOf regs ∧
      (m'.reg r).getLsbD 0 = condBit cond (regs.crBit bit) ∧
        ∀ r', r' ≠ r → m'.reg r' = m.reg r' := by
  have hread : m.mem (.crField (getCrField bit)) = regs.crFields (getCrField bit) := by
    rw [hm]
    rfl
  simp only [run, Instr.effect, crMask_msb, Bool.false_eq_true, if_false, Option.bind_some]
  refine ⟨_, rfl, by simp [hm], ?_, fun r' hr => by simp [hr]⟩
  simp only [tick_reg, setReg_reg, Function.update_self, setByte_getLsbD, tick_flags,
    setFlags_flags, hread]
  rcases hcond with rfl | rfl
  · simp [Cond.holds, AluOp.flags, and_crMask, condBit, Regs.crBit]
  · simp [Cond.holds, AluOp.flags, and_crMask, condBit, Regs.crBit]

theorem crOperate_run (host : JitHost) (hop : OnBits op) (hcond : cond = .z ∨ cond = .nz)
    (bb ba : CrBit) (hm : m.mem = memOf regs) :
    ∃ m', run host.toHost (crOperate op cond bb ba) m = some m' ∧ m'.mem = memOf regs ∧
      (m'.reg tmpHreg).getLsbD 0 = bitOp op (condBit cond (regs.crBit bb)) (regs.crBit ba) := by
  have hcmp : op ≠ .cmp := by
    rintro rfl
    simp [OnBits] at hop
  obtain ⟨m1, hrun1, hmem1, hbit1, -⟩ := readBit_run host (.inr rfl) ba .rdx hm
  obtain ⟨m2, hrun2, hmem2, hbit2, hframe⟩ := readBit_run host hcond bb tmpHreg hmem1
  have hsplit : crOperate op cond bb ba =
      [.testMem (.crField (getCrField ba)) (crMask ba), .setReg .nz .rdx] ++
        ([.testMem (.crField (getCrField bb)) (crMask bb), .setReg cond tmpHreg] ++
          [.alu op .qword tmpHreg .rdx]) := rfl
  rw [hsplit, run_of_append hrun1, run_of_append hrun2]
  refine ⟨_, rfl, by simp [Machine.alu, hcmp, hmem2], ?_⟩
  simp only [Machine.alu, hcmp, if_false, tick_reg, setFlags_reg, setReg_reg,
    Function.update_self, result_getLsbD hop, hbit2, hframe .rdx (by decide), hbit1]
  rfl

theorem crStore_run (host : JitHost) (bd : CrBit) {v : Bool} (hm : m.mem = memOf regs)
    (hv : (m.reg tmpHreg).getLsbD 0 = v) :
    (run host.toHost (crStore bd) m).map Machine.mem = some (memOf (regs.putCrBit bd v)) := by
  have hread : memOf regs (.crField (getCrField bd)) = regs.crFields (getCrField bd) := rfl
  have hcount : getCrBit bd % 64 = getCrBit bd := by
    have hlt := getCrBit_lt bd
    omega
  rw [BitVec.getLsbD_eq_getElem (by decide)] at hv
  have hone : BitVec.signExtend 64 1#32 = 1#64 := by decide
  simp only [crStore, run, Instr.effect, Option.bind_some, Option.map_some]
  rw [crFields_putCrBit, memOf_setCr]
  simp [Machine.alu, Machine.shift, hm, hread, hcount, hone, and_one, hv, low_shl_bit]

theorem crCode_run (host : JitHost) (hop : OnBits op) (hcond : cond = .z ∨ cond = .nz)
    (inverted : Bool) (bd bb ba : CrBit) (hm : m.mem = memOf regs) :
    (run host.toHost (crCode op cond inverted bd bb ba) m).map Machine.mem =
      some (memOf (regs.putCrBit bd
        (bitOp op (condBit cond (regs.crBit bb)) (regs.crBit ba) != inverted))) := by
  obtain ⟨m', hrun, hmem, hbit⟩ := crOperate_run host hop hcond bb ba hm
  rw [crCode, run_of_append hrun]
  cases inverted with
  | false =>
    rw [Bool.bne_false]
    exact crStore_run host bd hmem hbit
  | true =>
    refine crStore_run host bd hmem ?_
    simpa using hbit

theorem genList_crLogic (fa fb fd : BitVec 3) (code : List HostInsn) :
    genList (.alterHostReg (some .rdx) :: ([.requireFlags (some fa)] ++
      ([.requireFlags (some fb)] ++ ([.requireFlags (some fd)] ++ [.insnOutput code])))) =
        code := by
  simp [genList, genOp]

theorem emitCrLogic_runs (hop : OnBits op) (hcond : cond = .z ∨ cond = .nz) (inverted : Bool) :
    Emits items (emitCrLogic op cond inverted insn) (Runs host regs
      (some (regs.putCrBit (regD insn) (bitOp op (condBit cond (regs.crBit (regA insn)))
        (regs.crBit (regB insn)) != inverted)))) := by
  refine Emits.op _ (Emits.start (Emits.forced (Emits.finish fun _ =>
    ⟨_, (appends_opSet _).seq ((appends_opSet _).seq ((appends_opSet _).seq (appends_opSet _))),
      fun m hm => ?_⟩)))
  rw [genList_crLogic, crCode_run host hop hcond inverted _ _ _ hm]
  rfl

theorem emit_runs (k : CrLogic) :
    Emits items (k.emit insn) (Runs host regs (some (k.exec regs insn))) := by
  have hruns : ∀ op cond inverted, OnBits op → cond = .z ∨ cond = .nz →
      (∀ a b, k.fn a b = (bitOp op (condBit cond b) a != inverted)) →
      Emits items (emitCrLogic op cond inverted insn)
        (Runs host regs (some (k.exec regs insn))) := by
    intro op cond inverted hop hcond hfn
    rw [exec_eq, hfn]
    exact emitCrLogic_runs hop hcond inverted
  cases k with
  | CRAND => exact hruns .and .nz false (by simp [OnBits]) (by simp) (by decide)
  | CRANDC => exact hruns .and .z false (by simp [OnBits]) (by simp) (by decide)
  | CREQV => exact hruns .xor .nz true (by simp [OnBits]) (by simp) (by decide)
  | CRNAND => exact hruns .and .nz true (by simp [OnBits]) (by simp) (by decide)
  | CRNOR => exact hruns .or .nz true (by simp [OnBits]) (by simp) (by decide)
  | CROR => exact hruns .or .nz false (by simp [OnBits]) (by simp) (by decide)
  | CRORC => exact hruns .or .z false (by simp [OnBits]) (by simp) (by decide)
  | CRXOR => exact hruns .xor .nz false (by simp [OnBits]) (by simp) (by decide)

/-- The bit of the first operand becomes the function of the bits of the second and
the third one, and the others stay. -/
def SetsBit (k : CrLogic) (insn : Insn) (regs regs' : Regs) : Prop :=
  ∀ n, regs'.crBit n =
    if n = regD insn then k.fn (regs.crBit (regA insn)) (regs.crBit (regB insn)) else regs.crBit n

/-- The interpreter and the translated code do what the instruction is named for. -/
def CrLogicOk (k : CrLogic) (insn : Insn) (regs : Regs) : Prop :=
  SetsBit k insn regs (k.exec regs insn) ∧
    ∃ regs', SetsBit k insn regs regs' ∧
      ∀ host : JitHost, Emits [] (k.emit insn) (Runs host regs (some regs'))

theorem fn_comm_iff (k : CrLogic) (a b : Bool) :
    k.fn b a = k.fn a b ↔ (k = .CRANDC ∨ k = .CRORC → a = b) := by
  cases k <;> cases a <;> cases b <;> decide

theorem setsBit_exec (k : CrLogic) (insn : Insn) (regs : Regs) :
    SetsBit k insn regs (k.exec regs insn) ↔
      (k = .CRANDC ∨ k = .CRORC → regs.crBit (regA insn) = regs.crBit (regB insn)) := by
  rw [← fn_comm_iff]
  simp only [SetsBit, exec_eq, crBit_putCrBit]
  constructor
  · intro h
    have hbd := h (regD insn)
    rwa [if_pos rfl, if_pos rfl] at hbd
  · intro h n
    rw [h]

/-- The two operations with a complement take it of the wrong operand, which shows
exactly when the two bits differ. -/
theorem crLogic_ok_iff (k : CrLogic) (insn : Insn) (regs : Regs) :
    CrLogicOk k insn regs ↔
      (k = .CRANDC ∨ k = .CRORC → regs.crBit (regA insn) = regs.crBit (regB insn)) := by
  rw [CrLogicOk, setsBit_exec]
  constructor
  · intro h
    exact h.1
  · intro h
    exact ⟨h, k.exec regs insn, (setsBit_exec k insn regs).mpr h, fun host => emit_runs k⟩

/-- `crandc 0,1,2` where only bit 1 is set -/
theorem not_crLogic_ok : ¬ ∀ (k : CrLogic) (insn : Insn) (regs : Regs), CrLogicOk k insn regs := by
  intro h
  have hbad := (h .CRANDC 0x4c011102 ⟨fun _ => 0, 0, false, fun f => if f = 0 then 4 else 0⟩).1 0
  revert hbad
  decide

end Dynamips.Ppc32
