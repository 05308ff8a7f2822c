import Dynamips.Lib.Runs
import Dynamips.Mips64Exec

/-! Runs of the interpreter: the instructions that one turn of the main loop
starts, and the entry of the instruction array that a word selects. -/
set_option autoImplicit false

namespace Dynamips.Mips64
open Runs

variable {W : Type}

theorem execFetch_done {env : Env W} {cpu cpu' : Cpu W} {pc : BitVec 64} {insn : Insn}
    (h : execFetch env cpu pc = .done insn cpu') :
    cpu' = { cpu with
      toShared := cpu'.toShared
      mtsCache := cpu'.mtsCache
      njmExecPage := cpu'.njmExecPage
      njmExecPtr := cpu'.njmExecPtr } := by
  obtain ⟨_, mid, hp, h⟩ := Outcome.bind_eq_done h
  have hcpu : cpu' = mid := by
    simp only at h
    split at h
    · cases h
      rfl
    · cases h
  subst hcpu
  split at hp
  · obtain ⟨_, _, hl, hp⟩ := Outcome.bind_eq_done hp
    obtain ⟨_, _, ha, hl⟩ := Outcome.bind_eq_done hl
    cases hl
    cases hp
    rw [mtsAccess_done ha]
  · cases hp
    rfl

def branchOf (cpu : Cpu W) (insn : Insn) : Option Branch :=
  match (execOf insn : InsnExec W) with
  | .branch f => some (f cpu.toRegs cpu.pc insn)
  | _ => none

def slotEntry (cpu : Cpu W) (insn : Insn) : Option (Cpu W) :=
  match branchOf cpu insn with
  | some b => if b.likely && !b.res then none else some { incCp0Cnt cpu with toRegs := b.regs }
  | none => none

/-- The instruction that a branch finds in its delay slot, with the state in
which it starts. -/
def slotStart (env : Env W) (cpu : Cpu W) (insn : Insn) : Option (Cpu W × Insn) :=
  match slotEntry cpu insn with
  | some cpu =>
    match execFetch env cpu (cpu.pc + 4) with
    | .done slot cpu => some (cpu, slot)
    | _ => none
  | none => none

/-- The calls of `mips64_exec_single_instruction` that one call leads to, in
order: the instruction, its delay slot, the delay slot of that. -/
def startsFrom (env : Env W) : Nat → Cpu W → Insn → List (Cpu W × Insn)
  | 0, _, _ => []
  | depth + 1, cpu, insn =>
    (cpu, insn) ::
      match slotStart env cpu insn with
      | some next => startsFrom env depth next.1 next.2
      | none => []

def turnStarts (env : Env W) (depth : Nat) (cpu : Cpu W) : List (Cpu W × Insn) :=
  if cpu.state ≠ .running ∨ (execHead cpu).irqPending ≠ 0 then []
  else
    match execFetch env (execHead cpu) (execHead cpu).pc with
    | .done insn cpu => startsFrom env depth cpu insn
    | _ => []

theorem branchOf_eq_some {cpu : Cpu W} {insn : Insn} {b : Branch} : branchOf cpu insn = some b ↔
    ∃ f, (execOf insn : InsnExec W) = .branch f ∧ f cpu.toRegs cpu.pc insn = b := by
  simp only [branchOf]
  cases (execOf insn : InsnExec W) <;> simp

theorem slotEntry_eq_some {cpu cpu' : Cpu W} {insn : Insn} : slotEntry cpu insn = some cpu' ↔
    ∃ b, branchOf cpu insn = some b ∧ (b.likely && !b.res) = false ∧
      { incCp0Cnt cpu with toRegs := b.regs } = cpu' := by
  simp only [slotEntry]
  cases branchOf cpu insn with
  | none => simp
  | some b =>
    simp only [Option.some.injEq, exists_eq_left']
    cases b.likely && !b.res with
    | true => simp only [if_true, reduceCtorEq, false_and, Bool.true_eq_false]
    | false => simp only [Bool.false_eq_true, if_false, Option.some.injEq, true_and]

theorem slotStart_eq_some {env : Env W} {cpu : Cpu W} {insn : Insn} {next : Cpu W × Insn} :
    slotStart env cpu insn = some next ↔
      ∃ mid, slotEntry cpu insn = some mid ∧ execFetch env mid (mid.pc + 4) = .done next.2 next.1 := by
  obtain ⟨after, slot⟩ := next
  simp only [slotStart]
  cases slotEntry cpu insn with
  | none => simp
  | some mid =>
    simp only [Option.some.injEq, exists_eq_left']
    cases execFetch env mid (mid.pc + 4) with
    | done slot' after' => simp [and_comm]
    | loopEnter after' => simp
    | fault => simp

theorem execSingle_branch {env : Env W} {cpu : Cpu W} {depth : Nat} {insn : Insn} {b : Branch}
    {start : Cpu W × Insn}
    (hb : branchOf cpu insn = some b) (hs : slotStart env cpu insn = some start) :
    execSingleInstruction env (depth + 1) cpu insn =
      (execSingleInstruction env depth start.1 start.2).bind fun _ after =>
        .done true { after with pc := if b.res then b.newPc else after.pc + 8 } := by
  obtain ⟨mid, hentry, hfetch⟩ := slotStart_eq_some.mp hs
  obtain ⟨b', hb', hl, hmid⟩ := slotEntry_eq_some.mp hentry
  have hbb : b' = b := Option.some.inj (hb'.symm.trans hb)
  subst hbb
  obtain ⟨f, hexec, hf⟩ := branchOf_eq_some.mp hb
  simp only [execSingleInstruction, execInsn, hexec]
  change execBranch _ (incCp0Cnt cpu) (f cpu.toRegs cpu.pc insn) = _
  rw [hf, execBranch]
  simp only [hl, Bool.false_eq_true, if_false]
  rw [hmid, execBdslot, hfetch]
  simp only [Outcome.bind]
  cases execSingleInstruction env depth start.1 start.2 <;> rfl

/-- What happens next: a turn of the loop, or a device thread that changes what
it shares with the CPU and rebuilds the virtual TLB if it remapped a device. -/
inductive CpuEvent (W : Type) where
  | turn
  | outside (shared : Shared W) (rebuild : Bool)

def CpuStep (env : Env W) (depth : Nat) (cpu : Cpu W) (e : CpuEvent W) (cpu' : Cpu W) : Prop :=
  match e with
  | .turn => execTurn env depth cpu = some cpu'
  | .outside shared rebuild =>
    let cpu := { cpu with toShared := shared }
    cpu' = if rebuild then invalidateCache cpu else cpu

abbrev CpuRun (env : Env W) (depth : Nat) := Run (CpuStep env depth)

def ExecTag.key (tag : ExecTag W) : BitVec 32 × BitVec 32 := (tag.mask, tag.value)

def execKeys : List (BitVec 32 × BitVec 32) := (@mips64ExecTags Unit).map ExecTag.key

def disjointKeys (k k' : BitVec 32 × BitVec 32) : Bool := k.2 &&& k'.1 != k'.2 &&& k.1

theorem not_covers_of_disjoint {tag tag' : ExecTag W} {insn : Insn} (h : tag.covers insn)
    (hd : disjointKeys tag'.key tag.key) : tag'.covers insn = false := by
  by_contra hc
  simp only [Bool.not_eq_false, ExecTag.covers, beq_iff_eq] at h hc
  have heq : tag'.value &&& tag.mask = tag.value &&& tag'.mask := by
    rw [← h, ← hc]
    ext i hi
    simp only [BitVec.getElem_and]
    cases insn[i] <;> cases tag.mask[i] <;> cases tag'.mask[i] <;> rfl
  simp [disjointKeys, ExecTag.key, heq] at hd

/-- No word of the entry at an index is taken by an entry before it. -/
def firstForItsWords (n : Nat) : Bool :=
  match execKeys[n]? with
  | some key => (execKeys.take n).all (disjointKeys · key)
  | none => false

theorem find?_covers {tags : List (ExecTag W)} {tag : ExecTag W} {insn : Insn} {n : Nat}
    (htag : tags[n]? = some tag)
    (hfirst : ((tags.map ExecTag.key).take n).all (disjointKeys · tag.key))
    (hcov : tag.covers insn) : tags.find? (ExecTag.covers · insn) = some tag := by
  have hsplit : tags = tags.take n ++ tag :: tags.drop (n + 1) := by
    obtain ⟨hn, rfl⟩ := List.getElem?_eq_some_iff.mp htag
    rw [← List.drop_eq_getElem_cons hn, List.take_append_drop]
  rw [List.find?_eq_some_iff_append]
  refine ⟨hcov, _, _, hsplit, fun tag' hmem => ?_⟩
  simp only [← List.map_take, List.all_map, List.all_eq_true] at hfirst
  rw [not_covers_of_disjoint hcov (hfirst tag' hmem)]
  rfl

theorem execOf_eq {tag : ExecTag W} {insn : Insn} (n : Nat)
    (htag : (@mips64ExecTags W)[n]? = some tag) (hfirst : firstForItsWords n)
    (h : insn &&& tag.mask = tag.value) : (execOf insn : InsnExec W) = tag.exec := by
  have hcov : tag.covers insn := by rw [ExecTag.covers, h, beq_self_eq_true]
  have hkeys : execKeys = (@mips64ExecTags W).map ExecTag.key := rfl
  have hkey : execKeys[n]? = some tag.key := by rw [hkeys, List.getElem?_map, htag, Option.map_some]
  rw [firstForItsWords, hkey] at hfirst
  rw [execOf, find?_covers htag hfirst hcov]

theorem exists_tag_of_execOf (insn : Insn) :
    ∃ tag ∈ (@mips64ExecTags W), tag.covers insn ∧ (execOf insn : InsnExec W) = tag.exec := by
  cases hfind : (@mips64ExecTags W).find? (ExecTag.covers · insn) with
  | some tag =>
    refine ⟨tag, List.mem_of_find?_eq_some hfind, ?_, ?_⟩
    · exact (List.find?_eq_some_iff_append.mp hfind).1
    · rw [execOf, hfind]
  | none =>
    rw [List.find?_eq_none] at hfind
    have hlast : (⟨"unknown", .dump execUnknown, 0, 0⟩ : ExecTag W) ∈ mips64ExecTags :=
      List.mem_of_getElem? (i := 119) rfl
    exact absurd (by simp [ExecTag.covers]) (hfind _ hlast)

def branchTags : List ((BitVec 32 × BitVec 32) × (Regs → BitVec 64 → Insn → Branch)) :=
  (@mips64ExecTags Unit).filterMap fun tag =>
    match tag.exec with
    | .branch f => some (tag.key, f)
    | _ => none

theorem branchTags_eq : branchTags = (@mips64ExecTags W).filterMap fun tag =>
    match tag.exec with
    | .branch f => some (tag.key, f)
    | _ => none := rfl

theorem mem_branchTags {insn : Insn} {f : Regs → BitVec 64 → Insn → Branch}
    (h : (execOf insn : InsnExec W) = .branch f) :
    ∃ key, (key, f) ∈ branchTags ∧ insn &&& key.1 = key.2 := by
  obtain ⟨tag, hmem, hcov, heq⟩ := exists_tag_of_execOf (W := W) insn
  refine ⟨tag.key, ?_, by simpa [ExecTag.covers, ExecTag.key] using hcov⟩
  rw [@branchTags_eq W, List.mem_filterMap]
  refine ⟨tag, hmem, ?_⟩
  rw [← heq, h]

def aluTags : List ((BitVec 32 × BitVec 32) × (Regs → Insn → Option Regs)) :=
  (@mips64ExecTags Unit).filterMap fun tag =>
    match tag.exec with
    | .alu f => some (tag.key, f)
    | _ => none

theorem aluTags_eq : aluTags = (@mips64ExecTags W).filterMap fun tag =>
    match tag.exec with
    | .alu f => some (tag.key, f)
    | _ => none := rfl

theorem mem_aluTags {insn : Insn} {f : Regs → Insn → Option Regs}
    (h : (execOf insn : InsnExec W) = .alu f) :
    ∃ key, (key, f) ∈ aluTags ∧ insn &&& key.1 = key.2 := by
  obtain ⟨tag, hmem, hcov, heq⟩ := exists_tag_of_execOf (W := W) insn
  refine ⟨tag.key, ?_, by simpa [ExecTag.covers, ExecTag.key] using hcov⟩
  rw [@aluTags_eq W, List.mem_filterMap]
  refine ⟨tag, hmem, ?_⟩
  rw [← heq, h]

def copTags : List ((BitVec 32 × BitVec 32) × (Cpu W → Insn → Option (Cpu W))) :=
  mips64ExecTags.filterMap fun tag =>
    match tag.exec with
    | .cop f => some (tag.key, f)
    | _ => none

theorem mem_copTags {insn : Insn} {f : Cpu W → Insn → Option (Cpu W)} (h : execOf insn = .cop f) :
    ∃ key, (key, f) ∈ copTags ∧ insn &&& key.1 = key.2 := by
  obtain ⟨tag, hmem, hcov, heq⟩ := exists_tag_of_execOf (W := W) insn
  refine ⟨tag.key, ?_, by simpa [ExecTag.covers, ExecTag.key] using hcov⟩
  rw [copTags, List.mem_filterMap]
  refine ⟨tag, hmem, ?_⟩
  rw [← heq, h]

def ramDevice : VDevice where
  id := 0
  physAddr := 0
  physLen := 0x10000
  hostAddr := 0x10000000
  flags := vdeviceFlagCaching
  sparseMap := 0

def quietEnv : Env Unit where
  handler _ _ _ _ data shared := ⟨none, data, shared, false⟩
  data := 0
  altEntry := ⟨0, 0, 0, 0⟩

def ramBoard (words : List Insn) : Vm Unit where
  devList := [ramDevice]
  devArray id := if id = 0 then some ramDevice else none
  sparseMap _ _ := 0
  hostPage _ := none
  pageAlloc := 0
  mem a :=
    let i := (a - 0x10000000).toNat
    (words.getD (i / 4) 0 >>> (24 - 8 * (i % 4))).setWidth 8
  clockDivisor := 4
  world := ()
  remap_host := by simp [ramDevice, VDevice.has, vdeviceFlagCaching, vdeviceFlagSparse]

/-- A CPU of that board, about to execute the first word through kseg0 with an
empty virtual TLB. -/
def ramCpu (words : List Insn) (gpr : RegNum → BitVec 64) (tlb : Fin 64 → TlbEntry) : Cpu Unit where
  gpr := gpr
  lo := 0
  hi := 0
  vm := ramBoard words
  irqPending := 0
  irqCause := 0
  irqDisable := 0
  timerIrqPending := 0
  state := .running
  pc := 0xffffffff80000000
  llBit := 0
  cp0 :=
    { reg := fun _ => 0
      tlb := tlb
      tlbEntries := 48
      tlbEntries_le := by decide
      iplLo := 0
      iplHi := 0
      intCtl := 0
      derraddr0 := 0
      derraddr1 := 0 }
  fpu := fun _ => 0
  cp0VirtCntReg := 0
  cp0VirtCmpReg := 0
  addrMode := .mode32
  addrBusMask := 0xffffffffffffffff
  mtsCache := fun _ => MtsEntry.invalid .mode32
  njmExecPage := 0
  njmExecPtr := none
  timerIrqCheck := 0
  timerIrqCheckItv := 1000

end Dynamips.Mips64
