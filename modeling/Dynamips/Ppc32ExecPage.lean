import Dynamips.Ppc32Host

/-! The page pointer of `ppc32_exec_fetch` (ppc32_exec.c) and the words that it
delivers. Only a fetch from another page replaces the pointer; nothing drops it where
the instruction mapping changes. -/
set_option autoImplicit false

namespace Dynamips.Ppc32

open Mips64 (vmLoad)
open Runs

variable {W : Type} {env : Env W} {cpu mid : Cpu W} {fcpu fcpu' : FetchCpu W} {a : Access}

def SameMap (cpu : FetchCpu W) (mid : Cpu W) : Prop :=
  xlate mid (cpu.njmExecPage.setWidth 32) .icache =
    xlate cpu.toCpu (cpu.njmExecPage.setWidth 32) .icache

def SameHost (cpu : FetchCpu W) (vm : Vm W) : Prop :=
  ∀ map, xlate cpu.toCpu (cpu.njmExecPage.setWidth 32) .icache = some map → ∀ host,
    cpu.vm.hostOf map.paddr false = some host → vm.hostOf map.paddr false = some host

theorem PointersOk.of_kept (h : PointersOk fcpu) (hco : Coherent mid)
    (hk : fcpu.njmExecPtr ≠ none → SameMap fcpu mid ∧ SameHost fcpu mid.vm) :
    PointersOk { fcpu with toCpu := mid } := by
  refine ⟨hco, fun ptr hp => ?_⟩
  have hp' : fcpu.njmExecPtr = some ptr := hp
  obtain ⟨map, cow, hmap, hhost⟩ := h.exec ptr hp'
  obtain ⟨hsame, hhosts⟩ := hk (by rw [hp']; exact Option.some_ne_none ptr)
  exact ⟨map, cow, hsame.trans hmap, hhosts map hmap _ hhost⟩

end Dynamips.Ppc32
