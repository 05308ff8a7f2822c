import Dynamips.Ppc32Host

/-! The lookup in the TLB of a PowerPC 405 (ppc32_mem.c): the physical addresses that
the accesses go to, against those that the TLB tells. -/
set_option autoImplicit false

namespace Dynamips.Ppc32

variable {W : Type}

variable {env : Env W} {cpu : Cpu W} {cid : Cid} {vaddr : BitVec 32} {entry : Tlb405Entry}
  {dev : VDevice} {map : MtsMap}

theorem setWidth_inj {a b : BitVec 32} : a.setWidth 64 = b.setWidth 64 ↔ a = b := by
  constructor
  · intro h
    have hnat := congrArg BitVec.toNat h
    simp only [BitVec.toNat_setWidth] at hnat
    apply BitVec.eq_of_toNat_eq
    omega
  · intro h
    rw [h]

end Dynamips.Ppc32
