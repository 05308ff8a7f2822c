import Dynamips.Mips64Translate
import Dynamips.Ppc405Lookup

/-! The translate operation of a PowerPC CPU (ppc32_mem.c), and the physical pages that
its loads go to, over runs of what can happen to the CPU. -/
set_option autoImplicit false

namespace Dynamips.Ppc32

open Runs

variable {W : Type} {env : Env W} {cpu cpu' : Cpu W} {cid : Cid} {vaddr : BitVec 32}
  {opType : MtsOp}

/-- What serves a load: memory, by the address of its physical page, or the handler of
a device, which gets the physical address. -/
inductive Source where
  | memory (paddr : BitVec 64)
  | device (id : BitVec 32) (addr : BitVec 64)

def Source.addr (src : Source) (vaddr : BitVec 32) : BitVec 64 :=
  match src with
  | .memory paddr => paddr + (vaddr &&& PPC32_MIN_PAGE_IMASK).setWidth 64
  | .device _ addr => addr

def mapSource (vm : Vm W) (map : MtsMap) : Option Source :=
  (devLookup vm (map.paddr + map.offset.setWidth 64) false).map fun dev =>
    if dev.has vdeviceFlagSparse then .memory map.paddr
    else if dev.hostAddr = 0 ∨ dev.has vdeviceFlagNoMtsMmap then
      .device dev.id (map.paddr + map.offset.setWidth 64)
    else .memory map.paddr

def slowSource (cpu : Cpu W) (vaddr : BitVec 32) (cid : Cid) : Option Source :=
  match xlate cpu vaddr cid with
  | none => none
  | some map => mapSource cpu.vm map

/-- The CPU, with the physical page that each entry of its virtual TLB was made for. -/
structure Filled (W : Type) where
  cpu : Cpu W
  page : Cid → BitVec 14 → BitVec 64

/-- The pages after the slow lookup, which makes an entry where it finds memory -/
def refill (page : Cid → BitVec 14 → BitVec 64) (cid : Cid) (bucket : BitVec 14)
    (src : Option Source) : Cid → BitVec 14 → BitVec 64 :=
  match src with
  | some (.memory paddr) => Function.update page cid (Function.update (page cid) bucket paddr)
  | _ => page

def Filled.after (f : Filled W) (vaddr : BitVec 32) (cid : Cid) (opType : MtsOp) :
    Cid → BitVec 14 → BitVec 64 :=
  match fastHit f.cpu vaddr cid opType with
  | some _ => f.page
  | none => refill f.page cid (mtsHash vaddr) (slowSource f.cpu vaddr cid)

/-- What serves a load at the moment; an assertion may keep it from getting there. -/
def Filled.source (env : Env W) (f : Filled W) (vaddr : BitVec 32) (cid : Cid) : Option Source :=
  match fastHit f.cpu vaddr cid .read with
  | some _ => some (.memory (f.page cid (mtsHash vaddr)))
  | none =>
    match slowLookup env f.cpu vaddr cid .read with
    | none => none
    | some _ => slowSource f.cpu vaddr cid

def FillsOk (f : Filled W) : Prop :=
  ∀ cid b, pageOf (f.cpu.mtsCache cid b).gvpa = (f.cpu.mtsCache cid b).gvpa →
    (f.cpu.mtsCache cid b).gppa = (f.page cid b).setWidth 32

/-- The entries stand for the same pages, or there are none. -/
def KeepsPages (cpu cpu' : Cpu W) : Prop :=
  (∀ cid b, (cpu'.mtsCache cid b).gvpa = (cpu.mtsCache cid b).gvpa ∧
    (cpu'.mtsCache cid b).gppa = (cpu.mtsCache cid b).gppa) ∨
  ∀ cid b, cpu'.mtsCache cid b = MtsEntry.invalid

theorem fillsOk_empty {page : Cid → BitVec 14 → BitVec 64}
    (h : ∀ cid b, cpu.mtsCache cid b = MtsEntry.invalid) : FillsOk ⟨cpu, page⟩ := by
  have hodd : pageOf MtsEntry.invalid.gvpa ≠ MtsEntry.invalid.gvpa := by decide
  intro cid b hvalid
  rw [h cid b] at hvalid
  exact absurd hvalid hodd

theorem FillsOk.keeps {page : Cid → BitVec 14 → BitVec 64} (h : FillsOk ⟨cpu, page⟩)
    (hq : KeepsPages cpu cpu') : FillsOk ⟨cpu', page⟩ := by
  obtain hsame | hempty := hq
  · intro cid b hvalid
    obtain ⟨hgvpa, hgppa⟩ := hsame cid b
    rw [hgvpa] at hvalid
    exact hgppa.trans (h cid b hvalid)
  · exact fillsOk_empty hempty

theorem FillsOk.fill {page : Cid → BitVec 14 → BitVec 64} (h : FillsOk ⟨cpu, page⟩) (vm : Vm W)
    (cid : Cid) (b : BitVec 14) (map : MtsMap) (hpa : HostAddr) (flags : BitVec 32) :
    FillsOk ⟨{ cpu with vm := vm }.setMts cid b (mtsEntry map hpa flags),
      Function.update page cid (Function.update (page cid) b map.paddr)⟩ := by
  intro cid' b' hvalid
  by_cases hcid : cid' = cid
  · subst hcid
    by_cases hb : b' = b
    · subst hb
      simp only [Cpu.setMts, Function.update_self, mtsEntry]
    · simp only [Cpu.setMts, Function.update_self, Function.update_of_ne hb] at hvalid ⊢
      exact h cid' b' hvalid
  · simp only [Cpu.setMts, Function.update_of_ne hcid] at hvalid ⊢
    exact h cid' b' hvalid

section Steps

variable {page : Cid → BitVec 14 → BitVec 64}

def Stored (cpu : Cpu W) (cid : Cid) (bucket : BitVec 14) (entry : MtsEntry) : Prop :=
  entry.flags &&& MTS_FLAG_DEV = 0 → cpu.mtsCache cid bucket = entry

end Steps

/-- The page of the memory is below 4 GB, and the load stays in it, which a small page of
a 405 may not have it do; the page of a device is the one that its id looks like. -/
def Source.Known (src : Source) (vaddr : BitVec 32) : Prop :=
  match src with
  | .memory paddr => paddr.toNat < 2 ^ 32 ∧ paddr.toNat % 4096 + vaddr.toNat % 4096 < 4096
  | .device id addr => addr.toNat / 4096 = id.toNat / 4096

instance (src : Source) (vaddr : BitVec 32) : Decidable (src.Known vaddr) :=
  match src with
  | .memory _ => inferInstanceAs (Decidable (_ ∧ _))
  | .device _ _ => inferInstanceAs (Decidable (_ = _))

def Source.gppa (src : Source) : BitVec 32 :=
  match src with
  | .memory paddr => paddr.setWidth 32
  | .device id _ => id

end Dynamips.Ppc32
