import Dynamips.Ppc32Hreg

/-! The operations that a translation is made of and the host code that they
stand for (jit_op.h, ppc32_jit.h, ppc32_amd64_trans.c). -/
set_option autoImplicit false

namespace Dynamips.Ppc32

open Amd64

/-- The fields of `cpu_ppc_t` that the code reads and writes. -/
inductive CpuLoc where
  | gpr (reg : RegNum)
  | xer
  | xerCa
  | crField (field : BitVec 3)
deriving DecidableEq

inductive CrTable where
  | eflagsToCrSigned
  | eflagsToCrUnsigned

def CrTable.entries : CrTable → List (BitVec 32)
  | eflagsToCrSigned =>
    (List.replicate 8 [0x04, 0x02, 0x08, 0x02]).flatten ++
      (List.replicate 8 [0x08, 0x02, 0x04, 0x02]).flatten
  | eflagsToCrUnsigned =>
    (List.replicate 32 [0x04, 0x08]).flatten ++ (List.replicate 32 [0x02, 0x08]).flatten ++
      (List.replicate 32 [0x04, 0x08]).flatten ++ (List.replicate 32 [0x02, 0x08]).flatten

structure JitHost extends Host CrTable where
  tables : ∀ t i x, (CrTable.entries t)[i]? = some x →
    table (symAddr t + BitVec.ofNat 64 i <<< 2) = x

abbrev HostInsn := Instr CpuLoc CrTable

/-- `jit_op_t`. A register or field is none for `JIT_OP_INV_REG`, for
`JIT_OP_ALL_REGS` and for `JIT_OP_PPC_ALL_FLAGS`. -/
inductive JitOp where
  | insnOutput (code : List HostInsn)
  | branchTarget
  | branchJump
  | eob
  | loadGpr (hreg : Option Reg) (reg : RegNum)
  | storeGpr (hreg : Option Reg) (reg : RegNum)
  | updateFlags (field : Option (BitVec 3)) (isSigned : Bool)
  | requireFlags (field : Option (BitVec 3))
  | trashFlags
  | alterHostReg (hreg : Option Reg)

def loadImm (reg : Reg) (val : BitVec 32) : List HostInsn :=
  if val ≠ 0 then [.movImm reg (zext val)] else [.alu .xor .dword reg reg]

def updateCr (field : BitVec 3) (isSigned : Bool) : List HostInsn :=
  [.pushf, .pop .rax] ++
    (if isSigned then
      [.shiftImm .shr .qword .rax 6, .aluImm .and .qword .rax 0x3f,
        .movSym .rdx .eflagsToCrSigned]
    else [.aluImm .and .qword .rax 0xff, .movSym .rdx .eflagsToCrUnsigned]) ++
    [.loadTable .rax .rdx .rax, .store (.crField field) .rax]

def updateCr0 : List HostInsn := updateCr 0 true

/-- The code that `ppc32_op_gen_list` writes for an operation. -/
def genOp : JitOp → List HostInsn
  | .insnOutput code => code
  | .loadGpr (some hreg) reg => [.load hreg (.gpr reg)]
  | .storeGpr (some hreg) reg => [.store (.gpr reg) hreg]
  | .updateFlags (some field) isSigned => updateCr field isSigned
  | _ => []

def genList (ops : List JitOp) : List HostInsn := ops.flatMap genOp

/-- What a translation changes: the host registers that are allocated, the list of
operations, and the code written past `jit_ptr` while it is made. -/
structure EmitState where
  hregs : HregState
  ops : List JitOp
  jitPtr : List HostInsn

abbrev Emit := StateT EmitState Option

def startHregSeq : Emit Unit := fun st =>
  some ((), { st with hregs := jitStartHregSeq st.hregs })

def allocHreg (ppcReg : Option RegNum) : Emit Reg := fun st =>
  (jitAllocHreg ppcReg st.hregs).map fun (hreg, hregs) => (hreg, { st with hregs := hregs })

def allocHregForced (hreg : Reg) : Emit Unit := fun st =>
  some ((), { st with hregs := jitAllocHregForced hreg st.hregs })

def tmpHreg : Reg := .rbx

def opSet (op : JitOp) : Emit Unit := fun st => some ((), { st with ops := st.ops ++ [op] })

def emitAlterHostReg (hreg : Reg) : Emit Unit := opSet (.alterHostReg (some hreg))

def emitInsnOutput (code : List HostInsn) : Emit Unit := opSet (.insnOutput code)

def emitLoadGpr (hreg : Reg) (reg : RegNum) : Emit Unit := opSet (.loadGpr (some hreg) reg)

def emitStoreGpr (reg : RegNum) (hreg : Reg) : Emit Unit := opSet (.storeGpr (some hreg) reg)

def updateCrSetAlteredHreg : Emit Unit := do
  emitAlterHostReg .rax
  emitAlterHostReg .rdx

def emitUpdateFlags (field : BitVec 3) (isSigned : Bool) : Emit Unit := do
  opSet (.updateFlags (some field) isSigned)
  updateCrSetAlteredHreg

/-- Code that goes to `jit_ptr` at once, past the operations. -/
def writeJitPtr (code : List HostInsn) : Emit Unit := fun st =>
  some ((), { st with jitPtr := st.jitPtr ++ code })

/-- Host registers as allocated: one for each PowerPC register, and apart from
those that are for none. -/
structure Consistent (items : List (Option RegNum × Reg)) : Prop where
  eq_iff : ∀ {r r' h h'}, (some r, h) ∈ items → (some r', h') ∈ items → (h = h' ↔ r = r')
  ne_tmp : ∀ {r h h'}, (some r, h) ∈ items → (none, h') ∈ items → h ≠ h'
  avail : ∀ {k h}, (k, h) ∈ items → h ∈ availHregs

/-- A translation that starts with some host registers allocated succeeds, and its
operations have a property. -/
def Emits (items : List (Option RegNum × Reg)) (m : Emit Unit) (post : List JitOp → Prop) : Prop :=
  ∀ st, HregOk st.hregs → Assigned items st.hregs →
    ∃ st' ops, m st = some ((), st') ∧ HregOk st'.hregs ∧ st'.ops = st.ops ++ ops ∧ post ops

def Appends (m : Emit Unit) (ops : List JitOp) : Prop :=
  ∀ st, ∃ jitPtr, m st = some ((), ⟨st.hregs, st.ops ++ ops, jitPtr⟩)

variable {items : List (Option RegNum × Reg)} {m m' k : Emit Unit} {f : Reg → Emit Unit}
  {post : List JitOp → Prop} {ops ops' : List JitOp} {r : RegNum} {h : Reg}

theorem Assigned.consistent {s : HregState} (hok : HregOk s) (ha : Assigned items s) :
    Consistent items where
  eq_iff := ha.eq_iff hok
  ne_tmp := ha.ne_tmp
  avail := ha.mem_avail hok

theorem bind_of_eq {α : Type} {m : Emit α} {f : α → Emit Unit} {st st' : EmitState} {a : α}
    (hm : m st = some (a, st')) : (m >>= f) st = f a st' := by
  change (m st).bind (fun r => f r.1 r.2) = _
  rw [hm, Option.bind_some]

theorem Emits.start (hk : Emits [] k post) : Emits items (startHregSeq >>= fun _ => k) post := by
  intro st hok ha
  rw [bind_of_eq (show startHregSeq st = _ from rfl)]
  exact hk _ hok.start.1 hok.start.2

theorem Emits.forced (hk : Emits ((none, h) :: items) k post)
    (hmem : h ∈ availHregs := by decide) (hnew : ∀ k, (k, h) ∉ items := by simp) :
    Emits items (allocHregForced h >>= fun _ => k) post := by
  intro st hok ha
  obtain ⟨hok', ha'⟩ := jitAllocHregForced_spec hok ha hmem hnew
  rw [bind_of_eq (show allocHregForced h st = _ from rfl)]
  exact hk { st with hregs := jitAllocHregForced h st.hregs } hok' ha'

theorem Emits.op (op : JitOp) (hk : Emits items k fun ops => post (op :: ops)) :
    Emits items (opSet op >>= fun _ => k) post := by
  intro st hok ha
  rw [bind_of_eq (show opSet op st = _ from rfl)]
  obtain ⟨st', ops, hrun, hok', hops, hpost⟩ := hk { st with ops := st.ops ++ [op] } hok ha
  exact ⟨st', op :: ops, hrun, hok', by rw [hops, List.append_assoc]; rfl, hpost⟩

theorem Emits.finish (hm : Consistent items → ∃ ops, Appends m ops ∧ post ops) :
    Emits items m post := by
  intro st hok ha
  obtain ⟨ops, happends, hpost⟩ := hm (ha.consistent hok)
  obtain ⟨jitPtr, hrun⟩ := happends st
  exact ⟨_, ops, hrun, hok, rfl, hpost⟩

theorem appends_opSet (op : JitOp) : Appends (opSet op) [op] := fun st => ⟨st.jitPtr, rfl⟩

theorem Appends.seq (hm : Appends m ops) (hm' : Appends m' ops') :
    Appends (m >>= fun _ => m') (ops ++ ops') := by
  intro st
  obtain ⟨jitPtr, hrun⟩ := hm st
  obtain ⟨jitPtr', hrun'⟩ := hm' ⟨st.hregs, st.ops ++ ops, jitPtr⟩
  refine ⟨jitPtr', ?_⟩
  rw [bind_of_eq hrun, hrun', List.append_assoc]

/-! What the operations do when they run, without their optimisation. -/

export Amd64 (Machine)

def memOf (regs : Regs) : CpuLoc → BitVec 32
  | .gpr reg => regs.gpr reg
  | .xer => regs.xer
  | .xerCa => regs.carry
  | .crField field => regs.crFields field

/-- The operations run to the registers `result`, or fault where it is none. -/
def Runs (host : JitHost) (regs : Regs) (result : Option Regs) (ops : List JitOp) : Prop :=
  ∀ m : Machine CpuLoc, m.mem = memOf regs →
    (run host.toHost (genList ops) m).map Machine.mem = result.map memOf

theorem memOf_setCr (regs : Regs) (field : BitVec 3) (val : BitVec 32) :
    memOf { regs with crFields := Function.update regs.crFields field val } =
      Function.update (memOf regs) (.crField field) val := by
  funext loc
  cases loc with
  | crField field' =>
    by_cases h : field' = field
    · simp [h, memOf]
    · simp [h, memOf]
  | xer => rfl
  | xerCa => rfl
  | gpr reg => rfl

end Dynamips.Ppc32
