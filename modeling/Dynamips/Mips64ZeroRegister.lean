import Dynamips.Mips64Run

/-! Register 0 at the start of every instruction. Only the head of the main loop
clears it, so what a branch writes before its delay slot is what matters. -/
set_option autoImplicit false

namespace Dynamips.Mips64
open Runs

variable {W : Type} {env : Env W} {cpu cpu' : Cpu W}

def isJalr (insn : Insn) : Prop := insn &&& 0xfc1f003f = 0x00000009

def LinksZero (cpu : Cpu W) (insn : Insn) : Prop :=
  isJalr insn ∧ rd insn = mipsGprZero ∧ cpu.pc + 8 ≠ 0

theorem execOf_jalr {insn : Insn} (h : isJalr insn) :
    (execOf insn : InsnExec W) = .branch execJALR :=
  execOf_eq 53 rfl (by decide) h

theorem branchIf_gpr_zero (link likely : Bool) (cond : Regs → Insn → Bool) (r : Regs)
    (pc : BitVec 64) (insn : Insn) :
    (branchIf link likely cond r pc insn).regs.gpr mipsGprZero = r.gpr mipsGprZero := by
  cases link with
  | false => rfl
  | true => exact r.gpr_setGpr_ne (pc + 8) (by decide)

theorem branchTags_gpr_zero : ∀ e ∈ branchTags, e.1 = (0xfc1f003f, 0x00000009) ∧ e.2 = execJALR ∨
    ∀ r pc insn, (e.2 r pc insn).regs.gpr mipsGprZero = r.gpr mipsGprZero := by
  have hjal : ∀ r pc insn, (execJAL r pc insn).regs.gpr mipsGprZero = r.gpr mipsGprZero := fun r pc _ =>
    r.gpr_setGpr_ne (pc + 8) (by decide)
  simp only [branchTags, mips64ExecTags, ExecTag.key, List.filterMap_cons, List.filterMap_nil,
    List.forall_mem_cons]
  simp [branchIf_gpr_zero, hjal, execB, execBAL, execBEQZ, execBNEZ, execBEQ, execBEQL, execBGEZ,
    execBGEZAL, execBGEZALL, execBGEZL, execBGTZ, execBGTZL, execBLEZ, execBLEZL, execBLTZ,
    execBLTZAL, execBLTZALL, execBLTZL, execBNE, execBNEL, execJ, execJR, jump]

theorem branch_gpr_zero {insn : Insn} {f : Regs → BitVec 64 → Insn → Branch} (r : Regs)
    (pc : BitVec 64) (h : (execOf insn : InsnExec W) = .branch f)
    (hn : ¬ (isJalr insn ∧ rd insn = mipsGprZero)) : (f r pc insn).regs.gpr mipsGprZero = r.gpr mipsGprZero := by
  obtain ⟨key, hmem, hkey⟩ := mem_branchTags h
  cases branchTags_gpr_zero _ hmem with
  | inl hj =>
    obtain ⟨rfl, rfl⟩ := hj
    have hrd : rd insn ≠ mipsGprZero := fun h0 => hn ⟨hkey, h0⟩
    exact r.gpr_setGpr_ne (pc + 8) hrd.symm
  | inr hz => exact hz r pc insn

theorem slotEntry_gpr_zero {insn : Insn} (h : slotEntry cpu insn = some cpu')
    (h0 : cpu.gpr mipsGprZero = 0) : cpu'.gpr mipsGprZero = 0 ↔ ¬ LinksZero cpu insn := by
  obtain ⟨b, hb, -, rfl⟩ := slotEntry_eq_some.mp h
  obtain ⟨f, hexec, rfl⟩ := branchOf_eq_some.mp hb
  simp only
  by_cases hj : isJalr insn ∧ rd insn = mipsGprZero
  · rw [execOf_jalr hj.1] at hexec
    cases hexec
    have hlink : (execJALR cpu.toRegs cpu.pc insn).regs.gpr mipsGprZero = cpu.pc + 8 := by
      simp [execJALR, jump, hj.2]
    rw [hlink, LinksZero]
    simp [hj]
  · have hl : ¬ LinksZero cpu insn := fun hl => hj ⟨hl.1, hl.2.1⟩
    rw [branch_gpr_zero cpu.toRegs cpu.pc hexec hj]
    exact iff_of_true h0 hl

theorem slotStart_gpr_zero {insn : Insn} {next : Cpu W × Insn}
    (h : slotStart env cpu insn = some next) (h0 : cpu.gpr mipsGprZero = 0) :
    next.1.gpr mipsGprZero = 0 ↔ ¬ LinksZero cpu insn := by
  obtain ⟨mid, hentry, hfetch⟩ := slotStart_eq_some.mp h
  rw [← slotEntry_gpr_zero hentry h0, execFetch_done hfetch]

theorem startsFrom_gpr_zero (env : Env W) (depth : Nat) (insn : Insn) (h0 : cpu.gpr mipsGprZero = 0) :
    (∀ p ∈ startsFrom env depth cpu insn, p.1.gpr mipsGprZero = 0) ↔
      ∀ p ∈ (startsFrom env depth cpu insn).dropLast, ¬ LinksZero p.1 p.2 := by
  induction depth generalizing cpu insn with
  | zero => simp [startsFrom]
  | succ depth ih =>
    simp only [startsFrom]
    cases hslot : slotStart env cpu insn with
    | none => simp [h0]
    | some next =>
      simp only
      cases depth with
      | zero => simp [startsFrom, h0]
      | succ depth =>
        have hz := slotStart_gpr_zero hslot h0
        have hne : startsFrom env (depth + 1) next.1 next.2 ≠ [] := by simp [startsFrom]
        have hmem : next ∈ startsFrom env (depth + 1) next.1 next.2 := by simp [startsFrom]
        rw [List.dropLast_cons_of_ne_nil hne, List.forall_mem_cons, List.forall_mem_cons]
        constructor
        · intro h
          have hnext := h.2 next hmem
          exact ⟨hz.mp hnext, (ih next.2 hnext).mp h.2⟩
        · intro h
          have hnext := hz.mpr h.1
          exact ⟨h0, (ih next.2 hnext).mpr h.2⟩

def Reached (env : Env W) (depth : Nat) (s cpu : Cpu W) : Prop :=
  ∃ trace, CpuRun env depth s trace cpu

/-- Register 0 reads as zero at the start of every instruction of a turn. -/
def ZeroAtStarts (env : Env W) (depth : Nat) (cpu : Cpu W) : Prop :=
  ∀ p ∈ turnStarts env depth cpu, p.1.gpr mipsGprZero = 0

/-- No JALR of a turn whose delay slot is started links to register 0. -/
def NoZeroLink (env : Env W) (depth : Nat) (cpu : Cpu W) : Prop :=
  ∀ p ∈ (turnStarts env depth cpu).dropLast, ¬ LinksZero p.1 p.2

theorem execHead_gpr_zero (cpu : Cpu W) : (execHead cpu).gpr mipsGprZero = 0 :=
  Regs.gpr_setGpr_self _ _ _

theorem turnStarts_gpr_zero (env : Env W) (depth : Nat) (cpu : Cpu W) :
    ZeroAtStarts env depth cpu ↔ NoZeroLink env depth cpu := by
  simp only [ZeroAtStarts, NoZeroLink, turnStarts]
  split
  · simp
  cases hfetch : execFetch env (execHead cpu) (execHead cpu).pc with
  | done insn after =>
    have h0 : after.gpr mipsGprZero = 0 := by
      rw [execFetch_done hfetch]
      exact execHead_gpr_zero cpu
    exact startsFrom_gpr_zero env depth insn h0
  | loopEnter after => simp
  | fault => simp

/-- Over the runs from a state, register 0 reads as zero at the start of every
instruction exactly when no JALR with rd = 0 gets to its delay slot. -/
theorem zero_register_iff (env : Env W) (depth : Nat) (s : Cpu W) :
    (∀ cpu, Reached env depth s cpu → ZeroAtStarts env depth cpu) ↔
      ∀ cpu, Reached env depth s cpu → NoZeroLink env depth cpu :=
  forall_congr' fun cpu => imp_congr_right fun _ => turnStarts_gpr_zero env depth cpu

/-- `jalr $0,$2` followed by a delay slot. -/
def jalrZeroCpu : Cpu Unit := ramCpu [0x00400009, 0x00000000] (fun _ => 0) fun _ => ⟨0, 0, 0, 0⟩

/-- The delay slot of `jalr $0,$2` starts with the return address in register 0. -/
theorem not_zero_register :
    ¬ ∀ (env : Env Unit) (depth : Nat) (s cpu : Cpu Unit),
      Reached env depth s cpu → ZeroAtStarts env depth cpu := by
  intro h
  have hstarts : (turnStarts quietEnv 2 jalrZeroCpu).map (fun p => p.1.gpr mipsGprZero) =
      [0, 0xffffffff80000008] := by decide
  have hz : ∀ v ∈ (turnStarts quietEnv 2 jalrZeroCpu).map (fun p => p.1.gpr mipsGprZero),
      v = 0 := by
    rw [List.forall_mem_map]
    exact h quietEnv 2 jalrZeroCpu jalrZeroCpu ⟨[], Run.start⟩
  rw [hstarts] at hz
  exact absurd (hz 0xffffffff80000008 (by simp)) (by decide)

end Dynamips.Mips64
