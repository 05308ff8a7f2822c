import Dynamips.Lib.Amd64Branch
import Dynamips.Ppc32JitTcb
import Mathlib.Data.Fintype.Pigeonhole

/-! The jumps that the PPC32 translator writes from one page to another
(ppc32_amd64_trans.c). -/
set_option autoImplicit false

namespace Dynamips.Ppc32

open Amd64

/-- The offsets of the fields of `cpu_ppc_t` that the jumps use. -/
structure CpuOffsets where
  execBlkMap : BitVec 32
  ia : BitVec 32

/-- The offsets of the fields of `ppc32_jit_tcb_t` that the jumps use. -/
def tcbStartIa : BitVec 32 := 4

def tcbJitInsnPtr : BitVec 32 := 8

inductive JumpLabel where
  | test1 | test2 | test3
  | patch (ppcIa : BitVec 32)
deriving DecidableEq

abbrev JumpInsn := BranchInstr JumpLabel

/-- The host registers that are thrown, and the code of the instruction. -/
structure JumpOut where
  altered : List Reg
  code : List JumpInsn

/-- `ppc32_load_imm` -/
def jumpLoadImm (reg : Reg) (val : BitVec 32) : List JumpInsn :=
  if val ≠ 0 then [.movImm reg val] else [.xor reg reg]

def setIa (off : CpuOffsets) (newIa : BitVec 32) : List JumpInsn := [.storeImm .r15 off.ia newIa]

def pushEpilog : List JumpInsn := [.ret]

variable (sboxArray : BitVec 8 → BitVec 32) (off : CpuOffsets)

/-- `ppc32_try_direct_far_jump` from the check of the block address on. RSI has the
page by now. -/
def farCheck (off : CpuOffsets) (newIa : BitVec 32) : List JumpInsn :=
  [.cmpLoad .rax .rdx tcbStartIa, .branch .nz .test2,
    .loadQword .rsi .rdx tcbJitInsnPtr, .loadQword .rbx .rsi ((insnOffset newIa).setWidth 32 * 8),
    .test .rbx .rbx, .branch .z .test3, .jumpReg .rbx,
    .label .test1, .label .test2, .label .test3] ++ (setIa off newIa ++ pushEpilog)

def tryDirectFarJump (newIa : BitVec 32) : JumpOut where
  altered := [.rbx, .rdx, .rsi]
  code :=
    [.loadQword .rbx .r15 off.execBlkMap,
      .loadQword .rdx .rbx ((jitGetIaHash sboxArray newIa).setWidth 32 * 8),
      .test .rdx .rdx, .branch .z .test1] ++
    (jumpLoadImm .rsi (vpage newIa) ++ farCheck off newIa)

def setJump (execBlkDirectJump : Bool) (b : Tcb) (newIa : BitVec 32) : JumpOut :=
  if vpage newIa = b.startIa then { altered := [], code := [.jump (.patch newIa)] }
  else if execBlkDirectJump then tryDirectFarJump sboxArray off newIa
  else { altered := [], code := setIa off newIa ++ pushEpilog }

structure HostImage (off : CpuOffsets) (j : Jit) where
  mem : BitVec 64 → BitVec 32
  cpu : BitVec 64
  execBlkMap : BitVec 64
  tcb : TcbId → BitVec 64
  insnPtr : TcbId → BitVec 64
  code : Int → BitVec 64
  tcb_ne : ∀ b, tcb b ≠ 0
  code_ne : ∀ e, code e ≠ 0
  cpu_execBlkMap : Core.qword mem (cpu + off.execBlkMap.signExtend 64) = execBlkMap
  slot : ∀ h : BitVec 17,
    Core.qword mem (execBlkMap + h.setWidth 64 * 8) = (j.execBlkMap h).elim 0 tcb
  startIa : ∀ h b, j.execBlkMap h = some b →
    mem (tcb b + tcbStartIa.signExtend 64) = (j.tcbs b).startIa
  jitInsnPtr : ∀ h b, j.execBlkMap h = some b →
    Core.qword mem (tcb b + tcbJitInsnPtr.signExtend 64) = insnPtr b
  entry : ∀ h b, j.execBlkMap h = some b → ∀ o : BitVec 10,
    Core.qword mem (insnPtr b + o.setWidth 64 * 8) = ((j.tcbs b).jitInsnPtr o).elim 0 code

/-- The next PowerPC instruction is the one at `newIa`: the host code of a block for
its page that has code for it, or the dispatcher with this address in `ia`. -/
def Lands {j : Jit} (image : HostImage off j) (newIa : BitVec 32) : Exit JumpLabel → Prop
  | .jump target m =>
    m.mem = image.mem ∧ m.reg .r15 = image.cpu ∧
      ∃ b e, j.execBlkMap (jitGetIaHash sboxArray newIa) = some b ∧
        (j.tcbs b).startIa = vpage newIa ∧
        (j.tcbs b).jitInsnPtr (insnOffset newIa) = some e ∧ target = image.code e
  | .ret m =>
    m.mem = Function.update image.mem (image.cpu + off.ia.signExtend 64) newIa
  | .fall _ _ => False

/-- The slot has a block for another page whose address is what RAX happens to hold,
and the block has code for the instruction at the place of `newIa` in its page. -/
def Misdirects (j : Jit) (newIa : BitVec 32) (rax : BitVec 64) : Prop :=
  ∃ b e, j.execBlkMap (jitGetIaHash sboxArray newIa) = some b ∧
    (j.tcbs b).startIa ≠ vpage newIa ∧ low rax = (j.tcbs b).startIa ∧
    (j.tcbs b).jitInsnPtr (insnOffset newIa) = some e

variable {sboxArray off} {j : Jit} {image : HostImage off j} {newIa : BitVec 32} {m : Core}

theorem signExtend_index {w : Nat} (hw : w ≤ 17) (i : BitVec w) :
    (i.setWidth 32 * 8).signExtend 64 = i.setWidth 64 * 8 := by
  have hlt := i.isLt
  have hpow : 2 ^ w ≤ 2 ^ 17 := Nat.pow_le_pow_right (by decide) hw
  have hnat : (i.setWidth 32 * 8).toNat = i.toNat * 8 := by
    rw [BitVec.toNat_mul, BitVec.toNat_setWidth]
    change i.toNat % 2 ^ 32 * 8 % 2 ^ 32 = _
    omega
  have hmsb : (i.setWidth 32 * 8).msb = false := by
    rw [BitVec.msb_eq_decide, hnat]
    simp
    omega
  apply BitVec.eq_of_toNat_eq
  rw [BitVec.signExtend_eq_setWidth_of_msb_false hmsb, BitVec.toNat_setWidth, hnat,
    BitVec.toNat_mul, BitVec.toNat_setWidth]
  change _ = i.toNat % 2 ^ 64 * 8 % 2 ^ 64
  omega

/-- The flags after a load of an immediate: only that of zero changes them. -/
def loadImmFlags (reg : Reg) (val : BitVec 32) (m : Core) : Flags :=
  if val ≠ 0 then m.flags else AluOp.flags .xor m.flags (low (m.reg reg)) (low (m.reg reg))

theorem runBranch_jumpLoadImm (reg : Reg) (val : BitVec 32) (code : List JumpInsn) (m : Core) :
    runBranch (jumpLoadImm reg val ++ code) none m =
      runBranch code none ((m.setReg reg (zext val)).setFlags (loadImmFlags reg val m)) := by
  unfold jumpLoadImm loadImmFlags
  by_cases h : val = 0
  · subst h
    rw [if_neg (by simp), if_neg (by simp)]
    simp [runBranch]
  · rw [if_pos h, if_pos h]
    rfl

theorem label_notMem_jumpLoadImm (reg : Reg) (val : BitVec 32) (l : JumpLabel) :
    .label l ∉ jumpLoadImm reg val := by
  unfold jumpLoadImm
  by_cases h : val ≠ 0
  · rw [if_pos h]
    simp
  · rw [if_neg h]
    simp

theorem farCheck_run {b : TcbId} (hb : j.execBlkMap (jitGetIaHash sboxArray newIa) = some b)
    (hmem : m.mem = image.mem) (hr15 : m.reg .r15 = image.cpu) (hrdx : m.reg .rdx = image.tcb b) :
    (∃ e m', low (m.reg .rax) = (j.tcbs b).startIa ∧
      (j.tcbs b).jitInsnPtr (insnOffset newIa) = some e ∧
      runBranch (farCheck off newIa) none m = .jump (image.code e) m' ∧
      m'.mem = image.mem ∧ m'.reg .r15 = image.cpu) ∨
    ((low (m.reg .rax) = (j.tcbs b).startIa → (j.tcbs b).jitInsnPtr (insnOffset newIa) = none) ∧
      ∃ m', runBranch (farCheck off newIa) none m = .ret m' ∧
        m'.mem = Function.update image.mem (image.cpu + off.ia.signExtend 64) newIa) := by
  have hptr := image.jitInsnPtr _ b hb
  have hentry := image.entry _ b hb (insnOffset newIa)
  simp only [farCheck, List.cons_append, List.nil_append, runBranch_cmpLoad, runBranch_branch,
    Core.setFlags_flags, Cond.holds, zf_cmp, Core.addr, hmem, hrdx, image.startIa _ b hb]
  by_cases heax : low (m.reg .rax) = (j.tcbs b).startIa
  · simp only [heax, decide_true, Bool.not_true, Bool.false_eq_true, if_false,
      runBranch_loadQword, runBranch_test, runBranch_branch, Core.addr, Core.setReg_reg,
      Core.setReg_mem, Core.setFlags_reg, Core.setFlags_mem, Core.setFlags_flags, hmem, hrdx,
      hptr, Function.update_self, signExtend_index (show 10 ≤ 17 by decide), hentry, Cond.holds,
      zf_test]
    cases he : (j.tcbs b).jitInsnPtr (insnOffset newIa) with
    | none =>
      refine .inr ⟨fun _ => rfl, _, rfl, ?_⟩
      simp [Core.store, Core.addr, hmem, hr15]
    | some e =>
      have hne : ¬ (image.code e = 0) := image.code_ne e
      simp only [Option.elim_some, hne, decide_false, Bool.false_eq_true, if_false]
      exact .inl ⟨e, _, trivial, rfl, rfl, by simp [hmem], by simp [hr15]⟩
  · simp only [heax, decide_false, Bool.not_false, if_true]
    refine .inr ⟨False.elim, _, rfl, ?_⟩
    simp [Core.store, Core.addr, hmem, hr15]

theorem tryDirectFarJump_run (sboxArray : BitVec 8 → BitVec 32) (newIa : BitVec 32)
    (hmem : m.mem = image.mem) (hr15 : m.reg .r15 = image.cpu) :
    (∃ b e m', j.execBlkMap (jitGetIaHash sboxArray newIa) = some b ∧
      low (m.reg .rax) = (j.tcbs b).startIa ∧
      (j.tcbs b).jitInsnPtr (insnOffset newIa) = some e ∧
      runBranch (tryDirectFarJump sboxArray off newIa).code none m = .jump (image.code e) m' ∧
      m'.mem = image.mem ∧ m'.reg .r15 = image.cpu) ∨
    ((∀ b, j.execBlkMap (jitGetIaHash sboxArray newIa) = some b →
      low (m.reg .rax) = (j.tcbs b).startIa →
      (j.tcbs b).jitInsnPtr (insnOffset newIa) = none) ∧
      ∃ m', runBranch (tryDirectFarJump sboxArray off newIa).code none m = .ret m' ∧
        m'.mem = Function.update image.mem (image.cpu + off.ia.signExtend 64) newIa) := by
  have hslot := image.slot (jitGetIaHash sboxArray newIa)
  simp only [tryDirectFarJump, List.cons_append, List.nil_append, runBranch_loadQword,
    runBranch_test, runBranch_branch, Core.addr, Core.setReg_reg, Core.setReg_mem, hmem, hr15,
    image.cpu_execBlkMap, Function.update_self, signExtend_index (Nat.le_refl 17), hslot,
    Core.setFlags_flags, Cond.holds, zf_test]
  cases hb : j.execBlkMap (jitGetIaHash sboxArray newIa) with
  | none =>
    refine .inr ⟨by simp, ?_⟩
    simp only [Option.elim_none, decide_true, if_true]
    rw [runBranch_skip _ _ _ (label_notMem_jumpLoadImm .rsi (vpage newIa))]
    refine ⟨_, rfl, ?_⟩
    simp [Core.store, Core.addr, hmem, hr15]
  | some b =>
    have hne : ¬ (image.tcb b = 0) := image.tcb_ne b
    simp only [Option.elim_some, hne, decide_false, Bool.false_eq_true, if_false,
      runBranch_jumpLoadImm]
    generalize hm' : Core.setFlags (Core.setReg (Core.setFlags _ _) .rsi _) _ = m'
    have hrax : m'.reg .rax = m.reg .rax := by
      simp [← hm']
    have hrun := @farCheck_run sboxArray off j image newIa m' b hb (by simp [← hm', hmem])
      (by simp [← hm', hr15]) (by simp [← hm'])
    rw [hrax] at hrun
    rcases hrun with ⟨e, m', heax, he, hrun, hm', hr'⟩ | ⟨hnone, m', hrun, hm'⟩
    · exact .inl ⟨b, e, m', rfl, heax, he, hrun, hm', hr'⟩
    · refine .inr ⟨fun b' h => ?_, m', hrun, hm'⟩
      obtain rfl := Option.some.inj h
      exact hnone

theorem setJump_far (sboxArray : BitVec 8 → BitVec 32) (off : CpuOffsets) (execBlkDirectJump : Bool)
    {b : Tcb} (hfar : vpage newIa ≠ b.startIa) :
    setJump sboxArray off execBlkDirectJump b newIa =
      if execBlkDirectJump then tryDirectFarJump sboxArray off newIa
      else { altered := [], code := setIa off newIa ++ pushEpilog } :=
  if_neg hfar

theorem setJump_lands_iff (sboxArray : BitVec 8 → BitVec 32) (off : CpuOffsets) (j : Jit)
    (image : HostImage off j) (b : Tcb) (newIa : BitVec 32) (m : Core)
    (hfar : vpage newIa ≠ b.startIa) (hmem : m.mem = image.mem) (hr15 : m.reg .r15 = image.cpu) :
    Lands sboxArray off image newIa (runBranch (setJump sboxArray off true b newIa).code none m) ↔
      ¬ Misdirects sboxArray j newIa (m.reg .rax) := by
  rw [setJump_far sboxArray off true hfar, if_pos rfl]
  rcases @tryDirectFarJump_run off j image m sboxArray newIa hmem hr15 with
    ⟨b, e, m', hb, heax, he, hrun, hm', hr'⟩ | ⟨hnone, m', hrun, hm'⟩
  · rw [hrun]
    constructor
    · rintro ⟨-, -, b', e', hb', hpage, -⟩ ⟨c, -, hc, hne, -⟩
      rw [hb'] at hc
      obtain rfl := Option.some.inj hc
      exact hne hpage
    · intro h
      refine ⟨hm', hr', b, e, hb, ?_, he, rfl⟩
      by_contra hpage
      exact h ⟨b, e, hb, hpage, heax, he⟩
  · rw [hrun]
    refine iff_of_true hm' ?_
    rintro ⟨c, e, hc, -, heax, he⟩
    rw [hnone c hc heax] at he
    cases he

/-! A host with one block, which is in the slot `h` and has code for the instruction
`o` of the page `startIa`. -/

section
variable (h : BitVec 17) (start : BitVec 32) (o : BitVec 10)

def oneTcb : Tcb :=
  { Tcb.zero with
    startIa := start
    jitInsnPtr := fun o' => if o' = o then some 0 else none }

def oneJit : Jit :=
  { jitInit 0 with
    tcbs := fun _ => oneTcb start o
    execBlkMap := fun h' => if h' = h then some 0 else none }

def oneMem (a : BitVec 64) : BitVec 32 :=
  if a.toNat = 0x1008 then 0x100000
  else if a.toNat = 0x100000 + 8 * h.toNat then 0x300000
  else if a.toNat = 0x300004 then start
  else if a.toNat = 0x300008 then 0x400000
  else if a.toNat = 0x400000 + 8 * o.toNat then 0x500000
  else 0

end

theorem index_toNat {w : Nat} (hw : w ≤ 17) {base : BitVec 64} (hbase : base.toNat < 2 ^ 32)
    (i : BitVec w) : (base + i.setWidth 64 * 8).toNat = base.toNat + 8 * i.toNat ∧
      (base + i.setWidth 64 * 8 + 4).toNat = base.toNat + 8 * i.toNat + 4 := by
  have hlt := i.isLt
  have hpow : 2 ^ w ≤ 2 ^ 17 := Nat.pow_le_pow_right (by decide) hw
  have hmul : (i.setWidth 64 * 8).toNat = 8 * i.toNat := by
    rw [BitVec.toNat_mul, BitVec.toNat_setWidth]
    change i.toNat % 2 ^ 64 * 8 % 2 ^ 64 = _
    omega
  have hsum : (base + i.setWidth 64 * 8).toNat = base.toNat + 8 * i.toNat := by
    rw [BitVec.toNat_add, hmul]
    omega
  refine ⟨hsum, ?_⟩
  rw [BitVec.toNat_add, hsum]
  change (_ + 4) % 2 ^ 64 = _
  omega

theorem oneMem_slot (h h' : BitVec 17) (start : BitVec 32) (o : BitVec 10) :
    Core.qword (oneMem h start o) (0x100000 + h'.setWidth 64 * 8) =
      ((oneJit h start o).execBlkMap h').elim 0 fun _ => 0x300000 := by
  have hbase : (0x100000 : BitVec 64).toNat = 0x100000 := rfl
  obtain ⟨hlo, hhi⟩ := @index_toNat 17 (Nat.le_refl 17) 0x100000 (by decide) h'
  have hlt' := h'.isLt
  rw [hbase] at hlo hhi
  have hz : oneMem h start o (0x100000 + h'.setWidth 64 * 8 + 4) = 0 := by
    unfold oneMem
    rw [hhi, if_neg (by omega), if_neg (by omega), if_neg (by omega), if_neg (by omega),
      if_neg (by omega)]
  unfold Core.qword
  rw [hz]
  unfold oneMem
  rw [hlo, if_neg (by omega)]
  by_cases heq : h' = h
  · subst heq
    rw [if_pos rfl]
    simp [oneJit]
  · have hne : h'.toNat ≠ h.toNat := fun hn => heq (BitVec.eq_of_toNat_eq hn)
    rw [if_neg (by omega), if_neg (by omega), if_neg (by omega), if_neg (by omega)]
    simp [oneJit, heq]

theorem oneMem_entry (h : BitVec 17) (start : BitVec 32) (o o' : BitVec 10) :
    Core.qword (oneMem h start o) (0x400000 + o'.setWidth 64 * 8) =
      ((oneTcb start o).jitInsnPtr o').elim 0 fun _ => 0x500000 := by
  have hbase : (0x400000 : BitVec 64).toNat = 0x400000 := rfl
  obtain ⟨hlo, hhi⟩ := @index_toNat 10 (by decide) 0x400000 (by decide) o'
  have hlt := h.isLt
  rw [hbase] at hlo hhi
  have hz : oneMem h start o (0x400000 + o'.setWidth 64 * 8 + 4) = 0 := by
    unfold oneMem
    rw [hhi, if_neg (by omega), if_neg (by omega), if_neg (by omega), if_neg (by omega),
      if_neg (by omega)]
  unfold Core.qword
  rw [hz]
  unfold oneMem
  rw [hlo, if_neg (by omega), if_neg (by omega), if_neg (by omega), if_neg (by omega)]
  by_cases heq : o' = o
  · subst heq
    rw [if_pos rfl]
    simp [oneTcb]
  · have hne : o'.toNat ≠ o.toNat := fun hn => heq (BitVec.eq_of_toNat_eq hn)
    rw [if_neg (by omega)]
    simp [oneTcb, heq]

theorem oneMem_fields (h : BitVec 17) (start : BitVec 32) (o : BitVec 10) :
    Core.qword (oneMem h start o) 0x1008 = 0x100000 ∧ oneMem h start o 0x300004 = start ∧
      Core.qword (oneMem h start o) 0x300008 = 0x400000 := by
  have hgap (a : BitVec 64) (ha : a.toNat = 0x100c ∨ a.toNat = 0x30000c) :
      oneMem h start o a = 0 := by
    have hlt := h.isLt
    unfold oneMem
    rw [if_neg (by omega), if_neg (by omega), if_neg (by omega), if_neg (by omega),
      if_neg (by omega)]
  have hfield (a : BitVec 64) (ha : a.toNat = 0x300004 ∨ a.toNat = 0x300008) :
      oneMem h start o a = if a.toNat = 0x300004 then start else 0x400000 := by
    have hlt := h.isLt
    unfold oneMem
    rw [if_neg (by omega), if_neg (by omega)]
    rcases ha with ha | ha
    · rw [if_pos ha, if_pos ha]
    · rw [if_neg (by omega), if_pos ha, if_neg (by omega)]
  refine ⟨?_, hfield 0x300004 (.inl rfl), ?_⟩
  · unfold Core.qword
    rw [hgap (0x1008 + 4) (.inl rfl)]
    have hmap : oneMem h start o 0x1008 = 0x100000 := if_pos rfl
    rw [hmap]
    decide
  · unfold Core.qword
    rw [hgap (0x300008 + 4) (.inr rfl), hfield 0x300008 (.inr rfl), if_neg (by decide)]
    decide

def oneOffsets : CpuOffsets := ⟨8, 16⟩

def oneImage (h : BitVec 17) (start : BitVec 32) (o : BitVec 10) :
    HostImage oneOffsets (oneJit h start o) where
  mem := oneMem h start o
  cpu := 0x1000
  execBlkMap := 0x100000
  tcb := fun _ => 0x300000
  insnPtr := fun _ => 0x400000
  code := fun _ => 0x500000
  tcb_ne := fun _ => by decide
  code_ne := fun _ => by decide
  cpu_execBlkMap := (oneMem_fields h start o).1
  slot := fun h' => oneMem_slot h h' start o
  startIa := fun _ _ _ => (oneMem_fields h start o).2.1
  jitInsnPtr := fun _ _ _ => (oneMem_fields h start o).2.2
  entry := fun _ _ _ o' => oneMem_entry h start o o'

/-- The host when RAX holds some number and the other registers are zero. -/
def oneCore (h : BitVec 17) (start : BitVec 32) (o : BitVec 10) (rax : BitVec 64) : Core where
  reg := Function.update (Function.update (fun _ => 0) .r15 0x1000) .rax rax
  flags := ⟨false, false, false, false, 0⟩
  mem := oneMem h start o

theorem vpage_mul (n : Nat) :
    vpage (BitVec.ofNat 32 (n * 4096)) = BitVec.ofNat 32 (n * 4096) := by
  have hmask : ∀ i : Fin 32, (~~~PPC32_MIN_PAGE_IMASK).getLsbD i = decide (12 ≤ i.val) := by
    decide
  have hshl : BitVec.ofNat 32 (n * 4096) = BitVec.ofNat 32 n <<< 12 := by
    apply BitVec.eq_of_toNat_eq
    rw [BitVec.toNat_shiftLeft, Nat.shiftLeft_eq, BitVec.toNat_ofNat, BitVec.toNat_ofNat]
    omega
  rw [hshl]
  apply BitVec.eq_of_getLsbD_eq
  intro i hi
  rw [vpage, BitVec.getLsbD_and, hmask ⟨i, hi⟩, BitVec.getLsbD_shiftLeft]
  by_cases h : i < 12
  · simp [h]
  · simp [show 12 ≤ i by omega]

theorem exists_collision (sboxArray : BitVec 8 → BitVec 32) : ∃ ia ia' : BitVec 32,
    vpage ia = ia ∧ vpage ia' = ia' ∧ ia ≠ ia' ∧
      jitGetIaHash sboxArray ia = jitGetIaHash sboxArray ia' := by
  obtain ⟨p, q, hne, heq⟩ := Fintype.exists_ne_map_eq_of_card_lt
    (fun p : Fin 1048576 => (⟨(jitGetIaHash sboxArray (BitVec.ofNat 32 (p.val * 4096))).toNat,
      (jitGetIaHash sboxArray (BitVec.ofNat 32 (p.val * 4096))).isLt⟩ : Fin 131072)) (by simp)
  refine ⟨_, _, vpage_mul p.val, vpage_mul q.val, ?_, ?_⟩
  · intro h
    have hnat := congrArg BitVec.toNat h
    rw [BitVec.toNat_ofNat, BitVec.toNat_ofNat] at hnat
    have hp := p.isLt
    have hq := q.isLt
    exact hne (Fin.ext (by omega))
  · exact BitVec.eq_of_toNat_eq (congrArg Fin.val heq)

/-- A branch to 0x8000, for which there is a block, from a block of page 0. -/
theorem setJump_lands_block :
    ¬ Misdirects (fun _ => 0) (oneJit 0 0x8000 0) 0x8000 0x8000 ∧
      Lands (fun _ => 0) oneOffsets (oneImage 0 0x8000 0) 0x8000
        (runBranch (setJump (fun _ => 0) oneOffsets true Tcb.zero 0x8000).code none
          (oneCore 0 0x8000 0 0x8000)) := by
  have hok : ¬ Misdirects (fun _ => 0) (oneJit 0 0x8000 0) 0x8000 0x8000 := by
    rintro ⟨b, e, -, hne, -⟩
    exact hne (show (0x8000 : BitVec 32) = vpage 0x8000 by decide)
  exact ⟨hok, (setJump_lands_iff (fun _ => 0) oneOffsets _ (oneImage 0 0x8000 0) Tcb.zero 0x8000
    (oneCore 0 0x8000 0 0x8000) (by decide) rfl rfl).mpr hok⟩

/-- Whatever the table of the hash is, a branch goes to a block of another page with
the same hash, also where each block is in the slot of its own page. -/
theorem not_setJump_lands : ¬ ∃ sboxArray : BitVec 8 → BitVec 32,
    ∀ (off : CpuOffsets) (j : Jit) (image : HostImage off j) (b : Tcb) (newIa : BitVec 32)
      (m : Core), (∀ h c, j.execBlkMap h = some c →
        jitGetIaHash sboxArray (j.tcbs c).startIa = h) →
      vpage newIa ≠ b.startIa → m.mem = image.mem → m.reg .r15 = image.cpu →
      Lands sboxArray off image newIa
        (runBranch (setJump sboxArray off true b newIa).code none m) := by
  rintro ⟨sboxArray, h⟩
  obtain ⟨ia, ia', hpage, hpage', hne, hhash⟩ := exists_collision sboxArray
  let rax : BitVec 64 := zext ia'
  have hlands := h oneOffsets _ (oneImage (jitGetIaHash sboxArray ia) ia' (insnOffset ia))
    (oneTcb ia' 0) ia (oneCore (jitGetIaHash sboxArray ia) ia' (insnOffset ia) rax) ?_ ?_ rfl rfl
  · rw [setJump_far sboxArray oneOffsets true (by rw [hpage]; exact hne), if_pos rfl] at hlands
    have hslot : (oneJit (jitGetIaHash sboxArray ia) ia' (insnOffset ia)).execBlkMap
        (jitGetIaHash sboxArray ia) = some 0 := if_pos rfl
    have hcode : (oneTcb ia' (insnOffset ia)).jitInsnPtr (insnOffset ia) = some 0 := if_pos rfl
    rcases @tryDirectFarJump_run oneOffsets _
      (oneImage (jitGetIaHash sboxArray ia) ia' (insnOffset ia))
      (oneCore (jitGetIaHash sboxArray ia) ia' (insnOffset ia) rax) sboxArray ia rfl rfl with
      ⟨b, e, m', hb, -, -, hrun, -⟩ | ⟨hnone, -⟩
    · rw [hrun] at hlands
      obtain ⟨-, -, b, -, -, hstart, -⟩ := hlands
      exact hne (hpage.symm.trans hstart.symm)
    · have hrax : low rax = ia' := low_zext ia'
      have hnone : (oneTcb ia' (insnOffset ia)).jitInsnPtr (insnOffset ia) = none :=
        hnone 0 hslot hrax
      rw [hnone] at hcode
      cases hcode
  · intro h' c hc
    have heq : h' = jitGetIaHash sboxArray ia := by
      by_contra hn
      rw [show (oneJit (jitGetIaHash sboxArray ia) ia' (insnOffset ia)).execBlkMap h' = none from
        if_neg hn] at hc
      cases hc
    rw [heq, hhash]
    rfl
  · rw [hpage]
    exact hne

end Dynamips.Ppc32
