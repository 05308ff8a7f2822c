import Dynamips.Lib.Runs
import Dynamips.Ppc32Mts

/-! The external interrupts of a PowerPC CPU: the interrupt lines, the virtual
clock and the loop of the interpreter (ppc32.c, ppc32_exec.c). -/
set_option autoImplicit false

namespace Dynamips.Ppc32

open Runs

def PPC32_ROM_START : BitVec 32 := 0xfff00100

def PPC32_ROM_SP : BitVec 32 := 0x00006000

def PPC32_EXC_EXT : BitVec 32 := 0x00000500

variable {W : Type}

inductive LoopPhase where
  | checkIrq
  | clock
  | execute
deriving DecidableEq

/-- The CPU with its interrupt fields and the local variable of the loop. -/
structure IrqCpu (W : Type) where
  cpu : Cpu W
  irqDisable : Bool
  irqCount : BitVec 64
  timerIrqPending : BitVec 32
  timerIrqFreq : BitVec 32
  timerIrqCheckItv : BitVec 32
  timerDrift : BitVec 32
  timerIrqCheck : BitVec 32
  phase : LoopPhase

/-- `cpu->msr & PPC32_MSR_EE` -/
def Cpu.ee (cpu : Cpu W) : Bool := decide (cpu.msr &&& PPC32_MSR_EE ≠ 0)

def triggerIrq (s : IrqCpu W) : IrqCpu W :=
  if s.irqDisable then { s with cpu := { s.cpu with irqPending := false, irqCheck := false } }
  else if s.cpu.irqPending && s.cpu.ee then
    { s with
      cpu := triggerException { s.cpu with irqPending := false, irqCheck := false } PPC32_EXC_EXT
      irqCount := s.irqCount + 1 }
  else { s with cpu := { s.cpu with irqCheck := false } }

/-- A change of the registers of an interrupt controller, which updates the line
of the CPU (`mpc860_update_irq_status`, `mv64460_ic_update_cpu0_status`). -/
inductive IrqLine where
  | mpc860 (sipend simask : BitVec 32)
  | mv64460 (intrLo intrHi maskLo maskHi : BitVec 32)

def IrqLine.active : IrqLine → Bool
  | .mpc860 sipend simask => decide (sipend &&& simask ≠ 0)
  | .mv64460 intrLo intrHi maskLo maskHi =>
    decide (intrLo &&& maskLo ≠ 0) || decide (intrHi &&& maskHi ≠ 0)

def updateIrqStatus (cpu : Cpu W) (line : IrqLine) : Cpu W :=
  { cpu with irqPending := line.active, irqCheck := line.active }

/-- What an instruction does to the CPU, one after the other: a change of MSR, an
exception, a device that it reads or writes and that moves a line, and what no
interrupt depends on. -/
inductive CpuAction where
  | mtmsr (insn : Insn)
  | rfi (insn : Insn)
  | exception (excVector cause : BitVec 32)
  | device (line : IrqLine)
  | registers (regs : Regs) (ia srr0 srr1 : BitVec 32)

def CpuAction.run (cpu : Cpu W) : CpuAction → Cpu W
  | .mtmsr insn => execMTMSR cpu insn
  | .rfi insn => execRFI cpu insn
  | .exception excVector cause =>
    let cpu := triggerException cpu excVector
    { cpu with srr1 := cpu.srr1 ||| cause }
  | .device line => updateIrqStatus cpu line
  | .registers regs ia srr0 srr1 =>
    { cpu with toRegs := regs, ia := ia, srr0 := srr0, srr1 := srr1 }

/-- The start of a turn of `ppc32_exec_run_cpu`. -/
def checkIrq (s : IrqCpu W) : IrqCpu W :=
  { (if s.cpu.irqCheck then triggerIrq s else s) with phase := .clock }

/-- The virtual clock in a turn, with what `vm_set_irq` does to the line. -/
def virtualClock (s : IrqCpu W) (line : IrqLine) : IrqCpu W :=
  let check := s.timerIrqCheck + 1
  if check = s.timerIrqCheckItv then
    if s.timerIrqPending ≠ 0 ∧ ¬s.irqDisable ∧ s.cpu.ee then
      { s with
        cpu := updateIrqStatus { s.cpu with timerIrqArmed := false } line
        timerIrqPending := s.timerIrqPending - 1
        timerIrqCheck := 0
        phase := .execute }
    else { s with timerIrqCheck := 0, phase := .execute }
  else { s with timerIrqCheck := check, phase := .execute }

def executeInsn (s : IrqCpu W) (actions : List CpuAction) : IrqCpu W :=
  { s with cpu := actions.foldl CpuAction.run s.cpu, phase := .checkIrq }

/-- The body of the loop of `ppc32_timer_irq_run` while the CPU is running. -/
def timerIrqRun (s : IrqCpu W) : IrqCpu W :=
  if ¬s.irqDisable ∧ s.cpu.ee then
    if s.timerIrqFreq * 10 < s.timerIrqPending + 1 then
      { s with timerIrqPending := 0, timerDrift := s.timerDrift + 1 }
    else { s with timerIrqPending := s.timerIrqPending + 1 }
  else s

/-- `ppc32_reset`, with the virtual TLB of `ppc32_mem_restart`. -/
def ppc32Reset (cpu : Cpu W) : Cpu W :=
  memInvalidateCache { cpu with
    ia := PPC32_ROM_START
    gpr := Function.update cpu.gpr 1 PPC32_ROM_SP
    msr := PPC32_MSR_IP }

def IrqCpu.start (cpu : Cpu W) (timerIrqFreq timerIrqCheckItv : BitVec 32) : IrqCpu W where
  cpu := ppc32Reset { cpu with irqPending := false, irqCheck := false }
  irqDisable := false
  irqCount := 0
  timerIrqPending := 0
  timerIrqFreq := timerIrqFreq
  timerIrqCheckItv := timerIrqCheckItv
  timerDrift := 0
  timerIrqCheck := 0
  phase := .checkIrq

/-- The three steps of a turn, and what other threads do between any of them. -/
inductive IrqEvent where
  | checkIrq
  | clock (line : IrqLine)
  | execute (actions : List CpuAction)
  | device (line : IrqLine)
  | timer
  | setIrqDisable (disable : Bool)
  | reset

def irqStep (s : IrqCpu W) : IrqEvent → Option (IrqCpu W)
  | .checkIrq => if s.phase = .checkIrq then some (checkIrq s) else none
  | .clock line => if s.phase = .clock then some (virtualClock s line) else none
  | .execute actions => if s.phase = .execute then some (executeInsn s actions) else none
  | .device line => some { s with cpu := updateIrqStatus s.cpu line }
  | .timer => some (timerIrqRun s)
  | .setIrqDisable disable => some { s with irqDisable := disable }
  | .reset => some { s with cpu := ppc32Reset s.cpu, phase := .checkIrq }

/-! What the flag that the loop looks at stands for. -/

/-- A pending interrupt that may be taken is one that the loop looks for. -/
def Cpu.IrqSeen (cpu : Cpu W) : Prop :=
  cpu.irqPending = true → cpu.ee = true → cpu.irqCheck = true

variable {cpu : Cpu W} {s s' : IrqCpu W}

theorem ee_triggerException (cpu : Cpu W) (excVector : BitVec 32) :
    (triggerException cpu excVector).ee = false := by
  have hmask : excMsr cpu.msr &&& PPC32_MSR_EE = 0 := by
    rw [excMsr, BitVec.and_assoc, show ~~~PPC32_EXC_MSR_MASK &&& PPC32_MSR_EE = 0#32 by decide]
    exact BitVec.and_zero
  simp [Cpu.ee, triggerException, hmask]

theorem irqSeen_of_ee (h : cpu.ee = false) : cpu.IrqSeen := by
  intro _ hee
  rw [h] at hee
  cases hee

theorem CpuAction.irqSeen (a : CpuAction) (h : cpu.IrqSeen) : (a.run cpu).IrqSeen := by
  cases a with
  | mtmsr insn =>
    intro hp hee
    simp only [run, execMTMSR, Cpu.ee] at hp hee ⊢
    simp only [hp, Bool.and_true]
    exact hee
  | rfi insn =>
    intro hp hee
    simp only [run, execRFI, Cpu.ee] at hp hee ⊢
    simp only [hp, Bool.and_true]
    exact hee
  | exception excVector cause => exact irqSeen_of_ee (ee_triggerException cpu excVector)
  | device line => exact fun hp _ => hp
  | registers regs ia srr0 srr1 => exact h

theorem actions_irqSeen (actions : List CpuAction) (h : cpu.IrqSeen) :
    (actions.foldl CpuAction.run cpu).IrqSeen := by
  induction actions generalizing cpu with
  | nil => exact h
  | cons a actions ih => exact ih (a.irqSeen h)

theorem triggerIrq_irqSeen (s : IrqCpu W) : (triggerIrq s).cpu.IrqSeen := by
  simp only [triggerIrq]
  split
  case isTrue => exact fun hp _ => by cases hp
  case isFalse =>
    split
    case isTrue => exact irqSeen_of_ee (ee_triggerException _ _)
    case isFalse hno =>
      intro hp hee
      simp only [Bool.and_eq_true, not_and, Bool.not_eq_true] at hno
      have hfalse := hno hp
      simp only [Cpu.ee] at hee hfalse
      rw [hfalse] at hee
      cases hee

theorem irqStep_irqSeen {e : IrqEvent} (hs : irqStep s e = some s') (h : s.cpu.IrqSeen) :
    s'.cpu.IrqSeen := by
  cases e with
  | checkIrq =>
    simp only [irqStep, Option.ite_none_right_eq_some, Option.some.injEq] at hs
    obtain ⟨-, rfl⟩ := hs
    simp only [checkIrq]
    split
    case isTrue => exact triggerIrq_irqSeen s
    case isFalse => exact h
  | clock line =>
    simp only [irqStep, Option.ite_none_right_eq_some, Option.some.injEq] at hs
    obtain ⟨-, rfl⟩ := hs
    simp only [virtualClock]
    split
    case isTrue =>
      split
      case isTrue => exact fun hp _ => hp
      case isFalse => exact h
    case isFalse => exact h
  | execute actions =>
    simp only [irqStep, Option.ite_none_right_eq_some, Option.some.injEq] at hs
    obtain ⟨-, rfl⟩ := hs
    exact actions_irqSeen actions h
  | device line =>
    cases hs
    exact fun hp _ => hp
  | timer =>
    cases hs
    simp only [timerIrqRun]
    split
    case isTrue =>
      split
      case isTrue => exact h
      case isFalse => exact h
    case isFalse => exact h
  | setIrqDisable disable =>
    cases hs
    exact h
  | reset =>
    cases hs
    exact irqSeen_of_ee (by simp [Cpu.ee, ppc32Reset, memInvalidateCache, PPC32_MSR_IP,
      PPC32_MSR_EE])

/-! What a turn does with a pending interrupt. -/

/-- The external interrupt is taken: the CPU is at its vector with `MSR[EE]`
clear, and `SRR0` and `SRR1` say where it was. -/
structure ExternalTaken (s s' : IrqCpu W) : Prop where
  ia : s'.cpu.ia = (if excMsr s.cpu.msr &&& PPC32_MSR_IP ≠ 0 then 0xFFF00500 else 0x00000500)
  msr : s'.cpu.msr = excMsr s.cpu.msr
  srr0 : s'.cpu.srr0 = s.cpu.ia
  srr1 : s'.cpu.srr1 = s.cpu.msr &&& PPC32_EXC_SRR1_MASK
  irqPending : s'.cpu.irqPending = false
  irqCount : s'.irqCount = s.irqCount + 1

/-- No interrupt is taken, and a pending one stays pending unless interrupts are
disabled. -/
structure NoneTaken (s s' : IrqCpu W) : Prop where
  ia : s'.cpu.ia = s.cpu.ia
  msr : s'.cpu.msr = s.cpu.msr
  srr0 : s'.cpu.srr0 = s.cpu.srr0
  srr1 : s'.cpu.srr1 = s.cpu.srr1
  irqPending : s.irqDisable = false → s'.cpu.irqPending = s.cpu.irqPending
  irqCount : s'.irqCount = s.irqCount

def TurnStart (s : IrqCpu W) (e : IrqEvent) : Prop :=
  e = .checkIrq →
    (s.cpu.irqPending = true ∧ s.cpu.ee = true ∧ s.irqDisable = false →
      ExternalTaken s (checkIrq s)) ∧
    (¬(s.cpu.irqPending = true ∧ s.cpu.ee = true ∧ s.irqDisable = false) →
      NoneTaken s (checkIrq s))

theorem turnStart_of_irqSeen (h : s.cpu.IrqSeen) (e : IrqEvent) : TurnStart s e := by
  rintro rfl
  constructor
  · rintro ⟨hp, hee, hd⟩
    have hcheck := h hp hee
    simp only [checkIrq, hcheck, if_true, triggerIrq, hd, hp, hee, Bool.and_self,
      Bool.false_eq_true, if_false]
    exact ⟨rfl, rfl, rfl, rfl, rfl, rfl⟩
  · intro hno
    simp only [checkIrq]
    split
    case isFalse => exact ⟨rfl, rfl, rfl, rfl, fun _ => rfl, rfl⟩
    case isTrue =>
      simp only [triggerIrq]
      split
      case isTrue hd => exact ⟨rfl, rfl, rfl, rfl, fun hd' => by simp [hd] at hd', rfl⟩
      case isFalse hd =>
        split
        case isTrue hboth =>
          simp only [Bool.and_eq_true] at hboth
          exact absurd ⟨hboth.1, hboth.2, by simpa using hd⟩ hno
        case isFalse => exact ⟨rfl, rfl, rfl, rfl, fun _ => rfl, rfl⟩

/-- In every run, a pending external interrupt that `MSR[EE]` lets through is
taken before the instruction of the turn, and none is taken otherwise. -/
theorem external_irq_taken (cpu : Cpu W) (timerIrqFreq timerIrqCheckItv : BitVec 32)
    (trace : List (IrqCpu W × IrqEvent)) (t : IrqCpu W)
    (hrun : Run (fun s e s' => irqStep s e = some s')
      (IrqCpu.start cpu timerIrqFreq timerIrqCheckItv) trace t) :
    AllSteps TurnStart trace := by
  have h0 : (IrqCpu.start cpu timerIrqFreq timerIrqCheckItv).cpu.IrqSeen := by
    intro hp _
    cases hp
  have halways := hrun.always (P := fun s => s.cpu.IrqSeen)
    (fun s e s' h hs => irqStep_irqSeen hs h) h0
  exact allSteps_of_always (fun s e h => turnStart_of_irqSeen h e) halways

/-- A turn that sets `MSR[EE]`, an interrupt, and the start of the next turn. -/
def irqTurns : List IrqEvent :=
  [.checkIrq, .clock (.mpc860 0 0), .execute [.mtmsr mtmsrInsn], .device (.mpc860 1 1), .checkIrq]

theorem external_irq_taken_boot : ∃ trace t,
    execute irqStep (IrqCpu.start (bootCpu 0x8040) 250 1000) irqTurns = some (trace, t) ∧
      AllSteps TurnStart trace ∧ t.irqCount = 1 ∧ t.cpu.ia = 0xFFF00500 := by
  have hrun : execute irqStep (IrqCpu.start (bootCpu 0x8040) 250 1000) irqTurns =
    some (_, _) := rfl
  refine ⟨_, _, hrun, external_irq_taken (bootCpu 0x8040) 250 1000 _ _ (run_of_execute hrun), ?_⟩
  decide

def disabledTurns : List IrqEvent :=
  [.checkIrq, .clock (.mpc860 0 0), .execute [.mtmsr mtmsrInsn], .setIrqDisable true,
    .device (.mpc860 1 1), .checkIrq]

/-- A pending interrupt is dropped, not taken, while interrupts are disabled. -/
theorem not_taken_while_disabled :
    ¬ ∀ (cpu : Cpu Unit) (timerIrqFreq timerIrqCheckItv : BitVec 32)
      (trace : List (IrqCpu Unit × IrqEvent)) (t : IrqCpu Unit),
      Run (fun s e s' => irqStep s e = some s')
        (IrqCpu.start cpu timerIrqFreq timerIrqCheckItv) trace t →
      AllSteps (fun s e => e = .checkIrq → s.cpu.irqPending = true → s.cpu.ee = true →
        ExternalTaken s (checkIrq s)) trace := by
  intro hall
  have hrun : execute irqStep (IrqCpu.start (bootCpu 0x8040) 250 1000) disabledTurns =
    some (_, _) := rfl
  have hlast := hall _ _ _ _ _ (run_of_execute hrun) (_, .checkIrq)
    (.tail _ (.tail _ (.tail _ (.tail _ (.tail _ (.head _)))))) rfl rfl rfl
  exact absurd hlast.irqCount (by decide)

end Dynamips.Ppc32
