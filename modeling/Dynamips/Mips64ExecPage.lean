import Dynamips.Mips64MtsRun
import Dynamips.Mips64Ram

/-! The page pointer of `mips64_exec_fetch` and the instructions that it delivers.
Only a fetch from another page replaces the pointer; nothing drops it where the
page gets another host page. -/
set_option autoImplicit false

namespace Dynamips.Mips64
open Runs

variable {W : Type} {env : Env W} {cpu cpu' : Cpu W} {insn : Insn} {vaddr : BitVec 64}

/-- The handler of a device answers for the page, which has no host page. -/
def devicePage (vm : Vm W) (paddr : BitVec 64) (cached : Bool) : Prop :=
  ∃ dev, devLookup vm paddr cached = some dev ∧ dev.has vdeviceFlagSparse = false ∧
    (dev.hostAddr = 0 ∨ dev.has vdeviceFlagNoMtsMmap)

/-- A page that has the host page `ptr`, where it has one. -/
def HostIs (cpu : Cpu W) (page : BitVec 64) (ptr : HostAddr) : Prop :=
  ∃ paddr cached, pageXlate cpu page = some (paddr, cached) ∧
    (devicePage cpu.vm paddr cached ∨ ∃ cow, cpu.vm.hostOf paddr cached = some (ptr, cow))

def ExecRight (cpu : Cpu W) : Prop :=
  ∀ ptr, cpu.njmExecPtr = some ptr → HostIs cpu cpu.njmExecPage ptr

structure FetchOk (cpu : Cpu W) : Prop where
  cache : Coherent cpu
  exec : ExecRight cpu

def KeepsExec (cpu : Cpu W) (vm : Vm W) : Prop :=
  ∀ paddr cached, pageXlate cpu cpu.njmExecPage = some (paddr, cached) →
    (∀ host, cpu.vm.hostOf paddr cached = some host → vm.hostOf paddr cached = some host) ∧
      (devicePage cpu.vm paddr cached → devicePage vm paddr cached)

theorem devicePage_congr {vm vm' : Vm W} {paddr : BitVec 64} {cached : Bool}
    (hd : vm'.devList = vm.devList) :
    devicePage vm' paddr cached ↔ devicePage vm paddr cached := by
  simp only [devicePage, devLookup_congr hd]

theorem ExecRight.of_kept (h : ExecRight cpu)
    (hx : pageXlate cpu' cpu.njmExecPage = pageXlate cpu cpu.njmExecPage)
    (hpage : cpu'.njmExecPage = cpu.njmExecPage) (hptr : cpu'.njmExecPtr = cpu.njmExecPtr)
    (hk : cpu.njmExecPtr ≠ none → KeepsExec cpu cpu'.vm) : ExecRight cpu' := by
  intro ptr hp
  rw [hptr] at hp
  obtain ⟨paddr, cached, hxlate, hhost⟩ := h ptr hp
  obtain ⟨hhosts, hdevice⟩ := hk (by rw [hp]; simp) paddr cached hxlate
  refine ⟨paddr, cached, ?_, ?_⟩
  · rw [hpage, hx, hxlate]
  · cases hhost with
    | inl hd => exact Or.inl (hdevice hd)
    | inr hh =>
      obtain ⟨cow, hh⟩ := hh
      exact Or.inr ⟨cow, hhosts _ hh⟩

theorem keepsExec_of_mtsState (h : cpu'.mtsState = cpu.mtsState) : KeepsExec cpu cpu'.vm := by
  have hd : cpu'.vm.devList = cpu.vm.devList := congrArg MtsState.devList h
  have hm : cpu'.vm.sparseMap = cpu.vm.sparseMap := congrArg MtsState.sparseMap h
  intro paddr cached _
  refine ⟨fun host hh => ?_, (devicePage_congr hd).mpr⟩
  rw [hostOf_congr hd fun slot _ => by rw [hm], hh]

theorem ExecRight.congr (h : ExecRight cpu) (hs : cpu'.fetchState = cpu.fetchState) :
    ExecRight cpu' := by
  simp only [Cpu.fetchState, Prod.mk.injEq] at hs
  obtain ⟨hm, hpage, hptr⟩ := hs
  exact h.of_kept (pageXlate_congr (congrArg MtsState.xlate hm) _) hpage hptr
    fun _ => keepsExec_of_mtsState hm

/-! An access of the memory operations. -/

structure ExecFrame (cpu cpu' : Cpu W) : Prop where
  xlate : cpu'.xlateState = cpu.xlateState
  page : cpu'.njmExecPage = cpu.njmExecPage
  ptr : cpu'.njmExecPtr = cpu.njmExecPtr
  keeps : KeepsExec cpu cpu'.vm

theorem ExecFrame.trans {mid : Cpu W} (h : ExecFrame cpu mid) (h' : mid.fetchState = cpu'.fetchState) :
    ExecFrame cpu cpu' := by
  simp only [Cpu.fetchState, Prod.mk.injEq] at h'
  obtain ⟨hm, hpage, hptr⟩ := h'
  refine ⟨(congrArg MtsState.xlate hm.symm).trans h.xlate, hpage.symm.trans h.page,
    hptr.symm.trans h.ptr, fun paddr cached hx => ?_⟩
  have hd : cpu'.vm.devList = mid.vm.devList := congrArg MtsState.devList hm.symm
  have hs : cpu'.vm.sparseMap = mid.vm.sparseMap := congrArg MtsState.sparseMap hm.symm
  obtain ⟨hhosts, hdevice⟩ := h.keeps paddr cached hx
  refine ⟨fun host hh => ?_, fun hp => (devicePage_congr hd).mpr (hdevice hp)⟩
  rw [hostOf_congr hd fun slot _ => by rw [hs], hhosts host hh]

/-- The word of the page at `ptr` that the offset in the pc selects. -/
def wordAt (vm : Vm W) (ptr : HostAddr) (pc : BitVec 64) : Insn :=
  (vmLoad vm.mem (ptr + ((pc &&& mipsMinPageImask) >>> 2) * 4) 4).setWidth 32

end Dynamips.Mips64
