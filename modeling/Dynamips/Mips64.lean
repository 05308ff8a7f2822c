import Dynamips.Device

/-! The state of a MIPS64 CPU, its interrupt lines and its exceptions (mips64.h,
mips64.c). Counters that are only displayed are left out. -/
set_option autoImplicit false

namespace Dynamips.Mips64

abbrev Insn := BitVec 32

abbrev RegNum := BitVec 5

def bits (val : BitVec 32) (start stop : Nat) : BitVec 32 :=
  (val >>> start) &&& ((1#32 <<< (stop - start + 1)) - 1#32)

def signExtend (x : BitVec 64) (len : Nat) : BitVec 64 :=
  (x <<< (64 - len)).sshiftRight (64 - len)

theorem signExtend_getLsbD (x : BitVec 64) {len : Nat} (h0 : 0 < len) (h : len ≤ 64) {i : Nat}
    (hi : i < 64) : (signExtend x len).getLsbD i = x.getLsbD (min i (len - 1)) := by
  simp only [signExtend, BitVec.getLsbD_sshiftRight, BitVec.msb_eq_getLsbD_last,
    BitVec.getLsbD_shiftLeft]
  have hnot : ¬ 64 ≤ i := by omega
  by_cases hlt : i < len
  · have hmin : min i (len - 1) = i := by omega
    have h1 : 64 - len + i < 64 := by omega
    have h2 : 64 - len + i - (64 - len) = i := by omega
    simp [hnot, hmin, h1, h2]
  · have hmin : min i (len - 1) = len - 1 := by omega
    have h1 : ¬ 64 - len + i < 64 := by omega
    have h2 : 63 - (64 - len) = len - 1 := by omega
    have h3 : ¬ 63 < 64 - len := by omega
    simp [hnot, hmin, h1, h2, h3]

def mipsMinPageImask : BitVec 64 := 0xfff

def mipsMinPageMask : BitVec 64 := 0xfffffffffffff000

def mipsGprZero : RegNum := 0

def mipsGprRa : RegNum := 31

def mipsCp0Index : RegNum := 0

def mipsCp0Random : RegNum := 1

def mipsCp0TlbLo0 : RegNum := 2

def mipsCp0TlbLo1 : RegNum := 3

def mipsCp0Pagemask : RegNum := 5

def mipsCp0Wired : RegNum := 6

def mipsCp0Info : RegNum := 7

def mipsCp0Badvaddr : RegNum := 8

def mipsCp0Count : RegNum := 9

def mipsCp0TlbHi : RegNum := 10

def mipsCp0Compare : RegNum := 11

def mipsCp0Status : RegNum := 12

def mipsCp0Cause : RegNum := 13

def mipsCp0Epc : RegNum := 14

def mipsCp0Prid : RegNum := 15

def mipsCp0Config : RegNum := 16

def mipsCp0ErrEpc : RegNum := 30

def mipsCp0StatusBev : BitVec 64 := 0x00400000

def mipsCp0StatusErl : BitVec 64 := 0x00000004

def mipsCp0StatusExl : BitVec 64 := 0x00000002

def mipsCp0StatusIe : BitVec 64 := 0x00000001

def mipsCp0StatusImask : BitVec 64 := 0x0000FF00

def mipsCp0CauseBdSlot : BitVec 64 := 0x80000000

def mipsCp0CauseImask : BitVec 64 := 0x0000FF00

def mipsCp0CauseIshift : Nat := 8

inductive ExcCode where
  | interrupt
  | tlbLoad
  | tlbSave
  | addrLoad
  | addrSave
  | syscall
  | bp
  | trap
deriving DecidableEq, Repr

def ExcCode.code : ExcCode → BitVec 32
  | .interrupt => 0
  | .tlbLoad => 2
  | .tlbSave => 3
  | .addrLoad => 4
  | .addrSave => 5
  | .syscall => 8
  | .bp => 9
  | .trap => 13

structure Regs where
  gpr : RegNum → BitVec 64
  lo : BitVec 64
  hi : BitVec 64

def Regs.setGpr (r : Regs) (reg : RegNum) (val : BitVec 64) : Regs :=
  { r with gpr := Function.update r.gpr reg val }

theorem Regs.gpr_setGpr_ne (r : Regs) {reg i : RegNum} (val : BitVec 64) (h : i ≠ reg) :
    (r.setGpr reg val).gpr i = r.gpr i :=
  Function.update_of_ne h _ _

@[simp] theorem Regs.gpr_setGpr_self (r : Regs) (reg : RegNum) (val : BitVec 64) :
    (r.setGpr reg val).gpr reg = val :=
  Function.update_self _ _ _

structure TlbEntry where
  mask : BitVec 64
  hi : BitVec 64
  lo0 : BitVec 64
  lo1 : BitVec 64
deriving DecidableEq

structure Cp0 where
  reg : RegNum → BitVec 64
  tlb : Fin 64 → TlbEntry
  tlbEntries : Nat
  tlbEntries_le : tlbEntries ≤ 64
  iplLo : BitVec 32
  iplHi : BitVec 32
  intCtl : BitVec 32
  derraddr0 : BitVec 32
  derraddr1 : BitVec 32

/-- An entry of the virtual TLB, `mts32_entry_t` or `mts64_entry_t`; the first
two fields of the former are the low halves. -/
structure MtsEntry where
  gvpa : BitVec 64
  gppa : BitVec 64
  hpa : HostAddr
  flags : BitVec 32
deriving DecidableEq

inductive AddrMode where
  | mode32
  | mode64
deriving DecidableEq, Repr

inductive CpuState where
  | running
  | halted
  | suspended
deriving DecidableEq, Repr

/-- What the device handlers and the threads beside the CPU also write. -/
structure Shared (W : Type) where
  vm : Vm W
  irqPending : BitVec 32
  irqCause : BitVec 32
  irqDisable : BitVec 32
  timerIrqPending : BitVec 32
  state : CpuState

/-- `cpu_mips_t`; `timerIrqCheck` is the local counter of the main loop. -/
structure Cpu (W : Type) extends Regs, Shared W where
  pc : BitVec 64
  llBit : BitVec 32
  cp0 : Cp0
  fpu : RegNum → BitVec 64
  cp0VirtCntReg : BitVec 32
  cp0VirtCmpReg : BitVec 32
  addrMode : AddrMode
  addrBusMask : BitVec 64
  mtsCache : BitVec 14 → MtsEntry
  njmExecPage : BitVec 64
  njmExecPtr : Option HostAddr
  timerIrqCheck : BitVec 32
  timerIrqCheckItv : BitVec 32

variable {W : Type}

def Cpu.setGpr (cpu : Cpu W) (reg : RegNum) (val : BitVec 64) : Cpu W :=
  { cpu with toRegs := cpu.toRegs.setGpr reg val }

def Cpu.setCp0 (cpu : Cpu W) (reg : RegNum) (val : BitVec 64) : Cpu W :=
  { cpu with cp0 := { cpu.cp0 with reg := Function.update cpu.cp0.reg reg val } }

@[simp] theorem Cpu.reg_setCp0_self (cpu : Cpu W) (reg : RegNum) (val : BitVec 64) :
    (cpu.setCp0 reg val).cp0.reg reg = val :=
  Function.update_self _ _ _

theorem Cpu.reg_setCp0_ne (cpu : Cpu W) {reg i : RegNum} (val : BitVec 64) (h : i ≠ reg) :
    (cpu.setCp0 reg val).cp0.reg i = cpu.cp0.reg i :=
  Function.update_of_ne h _ _

/-- How a function of the emulator comes back: normally, by the `longjmp` of
`cpu_exec_loop_enter`, or not at all because the host stops the program. -/
inductive Outcome (W α : Type) where
  | done (a : α) (cpu : Cpu W)
  | loopEnter (cpu : Cpu W)
  | fault

def Outcome.bind {α β : Type} (o : Outcome W α) (f : α → Cpu W → Outcome W β) : Outcome W β :=
  match o with
  | .done a cpu => f a cpu
  | .loopEnter cpu => .loopEnter cpu
  | .fault => .fault

def Outcome.ofOption {α : Type} (cpu : Cpu W) (o : Option α) : Outcome W α :=
  match o with
  | some a => .done a cpu
  | none => .fault

theorem Outcome.bind_eq_done {α β : Type} {o : Outcome W α} {f : α → Cpu W → Outcome W β}
    {b : β} {cpu' : Cpu W} (h : o.bind f = .done b cpu') :
    ∃ a cpu, o = .done a cpu ∧ f a cpu = .done b cpu' := by
  cases o with
  | done a cpu => exact ⟨a, cpu, rfl, h⟩
  | loopEnter cpu => cases h
  | fault => cases h

/-- `Q` after a normal return and `E` after a `longjmp`. -/
def Outcome.Post {α : Type} (o : Outcome W α) (Q E : Cpu W → Prop) : Prop :=
  match o with
  | .done _ cpu => Q cpu
  | .loopEnter cpu => E cpu
  | .fault => True

theorem Outcome.Post.bind {α β : Type} {o : Outcome W α} {f : α → Cpu W → Outcome W β}
    {Q R E : Cpu W → Prop} (h : o.Post Q E) (hf : ∀ a cpu, Q cpu → (f a cpu).Post R E) :
    (o.bind f).Post R E := by
  cases o with
  | done a cpu => exact hf a cpu h
  | loopEnter cpu => exact h
  | fault => trivial

theorem Outcome.post_ofOption {α : Type} {cpu : Cpu W} {Q E : Cpu W → Prop} (o : Option α)
    (h : Q cpu) : (Outcome.ofOption cpu o).Post Q E := by
  cases o with
  | some a => exact h
  | none => trivial

/-- `mips64_update_irq_flag_fast`, whose result is the new `irq_pending`. -/
def updateIrqFlag (cpu : Cpu W) : Cpu W :=
  let cause := (cpu.cp0.reg mipsCp0Cause &&& ~~~mipsCp0CauseImask).setWidth 32
  let cpu := { cpu with irqPending := 0 }
  let cpu := cpu.setCp0 mipsCp0Cause ((cause ||| cpu.irqCause).setWidth 64)
  let status := cpu.cp0.reg mipsCp0Status
  let sregMask := mipsCp0StatusIe ||| mipsCp0StatusExl ||| mipsCp0StatusErl
  if status &&& sregMask = mipsCp0StatusIe ∧
      cpu.cp0.reg mipsCp0Cause &&& (status &&& mipsCp0StatusImask) ≠ 0 then
    { cpu with irqPending := 1 }
  else cpu

def irqMask (irq : Nat) : BitVec 32 :=
  (1#32 <<< (irq + mipsCp0CauseIshift)) &&& mipsCp0CauseImask.setWidth 32

def setIrq (cpu : Cpu W) (irq : Nat) : Cpu W :=
  { cpu with irqCause := cpu.irqCause ||| irqMask irq }

def clearIrq (cpu : Cpu W) (irq : Nat) : Cpu W :=
  let cause := cpu.irqCause &&& ~~~irqMask irq
  { cpu with irqCause := cause, irqPending := if cause = 0 then 0 else cpu.irqPending }

/-- The address that `mips64_trigger_exception` goes to under a status. -/
def excVector (status : BitVec 64) : BitVec 64 :=
  if status &&& mipsCp0StatusBev ≠ 0 then 0xffffffffbfc00200 + 0x180 else 0xffffffff80000000 + 0x180

def triggerException (cpu : Cpu W) (exc : ExcCode) (bdSlot : Bool) : Cpu W :=
  let cause := cpu.cp0.reg mipsCp0Cause &&& mipsCp0CauseImask
  let code := (exc.code <<< 2).setWidth 64
  let cpu :=
    if cpu.cp0.reg mipsCp0Status &&& mipsCp0StatusExl = 0 then
      let cause := if bdSlot then cause ||| mipsCp0CauseBdSlot else cause &&& 0x7fffffff
      (cpu.setCp0 mipsCp0Epc cpu.pc).setCp0 mipsCp0Cause (cause ||| code)
    else cpu.setCp0 mipsCp0Cause (cause ||| code)
  let cpu := cpu.setCp0 mipsCp0Status (cpu.cp0.reg mipsCp0Status ||| mipsCp0StatusExl)
  { cpu with pc := excVector (cpu.cp0.reg mipsCp0Status), irqPending := 0 }

def incCp0Cnt (cpu : Cpu W) : Cpu W := { cpu with cp0VirtCntReg := cpu.cp0VirtCntReg + 1 }

def triggerIrq (cpu : Cpu W) : Cpu W :=
  if cpu.irqDisable ≠ 0 then { cpu with irqPending := 0 }
  else
    let cpu := updateIrqFlag cpu
    if cpu.irqPending ≠ 0 then triggerException cpu .interrupt false else cpu

def triggerTimerIrq (cpu : Cpu W) : Cpu W :=
  let compare := (cpu.cp0.reg mipsCp0Compare).setWidth 32
  updateIrqFlag (setIrq (cpu.setCp0 mipsCp0Count (compare.setWidth 64)) 7)

def eretTarget (cpu : Cpu W) : BitVec 64 :=
  if cpu.cp0.reg mipsCp0Status &&& mipsCp0StatusErl ≠ 0 then cpu.cp0.reg mipsCp0ErrEpc
  else cpu.cp0.reg mipsCp0Epc

def eret (cpu : Cpu W) : Cpu W :=
  let status := cpu.cp0.reg mipsCp0Status
  let bit := if status &&& mipsCp0StatusErl ≠ 0 then mipsCp0StatusErl else mipsCp0StatusExl
  let target := eretTarget cpu
  let cpu := cpu.setCp0 mipsCp0Status (status &&& ~~~bit)
  updateIrqFlag { cpu with pc := target, llBit := 0 }

end Dynamips.Mips64
