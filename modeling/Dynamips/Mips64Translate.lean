import Dynamips.Mips64ExecPage

/-! The translate operation of a MIPS CPU (mips64_mem.c), and the physical pages that
its loads go to, over runs of accesses and translations. -/
set_option autoImplicit false

namespace Dynamips.Mips64

open Runs

variable {W : Type} {env : Env W} {cpu cpu' : Cpu W} {vaddr : BitVec 64} {opType : MtsOp}

/-- `*phys_page`, from the entry -/
def AddrMode.physPage (mode : AddrMode) (entry : MtsEntry) : BitVec 32 :=
  (mode.trunc entry.gppa >>> 12).setWidth 32

/-- What serves a load: memory, by the address of its physical page, or the handler of
a device, which gets the physical address. -/
inductive Source where
  | memory (paddr : BitVec 64)
  | device (addr : BitVec 64)

def Source.addr (src : Source) (vaddr : BitVec 64) : BitVec 64 :=
  match src with
  | .memory paddr => paddr + (vaddr &&& mipsMinPageImask)
  | .device addr => addr

def mapSource (vm : Vm W) (map : MtsMap) : Option Source :=
  (devLookup vm map.paddr map.cached).map fun dev =>
    if dev.has vdeviceFlagSparse then .memory map.paddr
    else if dev.hostAddr = 0 ∨ dev.has vdeviceFlagNoMtsMmap then
      .device (map.paddr + map.offset.setWidth 64)
    else .memory map.paddr

def slowSource (cpu : Cpu W) (vaddr : BitVec 64) : Option Source :=
  match mtsXlate cpu vaddr with
  | .error _ => none
  | .ok map => mapSource cpu.vm map

/-- The CPU, with the physical page that each entry of its virtual TLB was made for. -/
structure Filled (W : Type) where
  cpu : Cpu W
  page : BitVec 14 → BitVec 64

/-- The pages after the slow path, which makes an entry where it finds memory -/
def refill (page : BitVec 14 → BitVec 64) (bucket : BitVec 14) (src : Option Source) :
    BitVec 14 → BitVec 64 :=
  match src with
  | some (.memory paddr) => Function.update page bucket paddr
  | _ => page

def Filled.after (f : Filled W) (vaddr : BitVec 64) (opType : MtsOp) : BitVec 14 → BitVec 64 :=
  match fastHit f.cpu vaddr opType with
  | some _ => f.page
  | none => refill f.page (mtsHash vaddr) (slowSource f.cpu vaddr)

/-- What serves a load at the moment; an assertion may keep it from getting there. -/
def Filled.source (env : Env W) (f : Filled W) (vaddr : BitVec 64) : Option Source :=
  match fastHit f.cpu vaddr .read with
  | some _ => some (.memory (f.page (mtsHash vaddr)))
  | none =>
    match slowLookup env f.cpu vaddr .lookup .read 0 with
    | .fault => none
    | _ => slowSource f.cpu vaddr

/-- The rest of the CPU may do what it likes, but for the virtual TLB, which it leaves
alone or invalidates. -/
def Quiet (cpu cpu' : Cpu W) : Prop :=
  cpu'.addrMode = cpu.addrMode ∧
    (cpu'.mtsCache = cpu.mtsCache ∨ ∀ b, cpu'.mtsCache b = MtsEntry.invalid cpu'.addrMode)

def Outcome.Ends {α : Type} (o : Outcome W α) (cpu' : Cpu W) : Prop :=
  match o with
  | .done _ cpu => cpu' = cpu
  | .loopEnter cpu => cpu' = cpu
  | .fault => False

def PageOk (mode : AddrMode) (paddr : BitVec 64) : Prop :=
  paddr.toNat % 4096 = 0 ∧ (mode = .mode64 → paddr.toNat < 2 ^ 44)

def FillsOk (f : Filled W) : Prop :=
  ∀ b, (f.cpu.mtsCache b).valid f.cpu.addrMode →
    (f.cpu.mtsCache b).gppa = f.cpu.addrMode.trunc (f.page b) ∧ PageOk f.cpu.addrMode (f.page b)

theorem fillsOk_empty {page : BitVec 14 → BitVec 64}
    (h : ∀ b, cpu.mtsCache b = MtsEntry.invalid cpu.addrMode) : FillsOk ⟨cpu, page⟩ := by
  intro b hvalid
  rw [h b] at hvalid
  exact absurd hvalid (invalid_not_valid _)

theorem FillsOk.quiet {page : BitVec 14 → BitVec 64} (h : FillsOk ⟨cpu, page⟩)
    (hq : Quiet cpu cpu') : FillsOk ⟨cpu', page⟩ := by
  obtain ⟨hmode, hsame | hempty⟩ := hq
  · intro b hvalid
    have hb := h b
    simp only [hmode, hsame] at hvalid ⊢
    exact hb hvalid
  · exact fillsOk_empty hempty

theorem FillsOk.fill {page : BitVec 14 → BitVec 64} (h : FillsOk ⟨cpu, page⟩) (vm : Vm W)
    (b : BitVec 14) (map : MtsMap) (hpa : HostAddr) (flags : BitVec 32)
    (hok : PageOk cpu.addrMode map.paddr) :
    FillsOk ⟨{ cpu with vm := vm }.setMts b (mtsEntry cpu.addrMode map hpa flags),
      Function.update page b map.paddr⟩ := by
  intro b' hvalid
  by_cases hb : b' = b
  · subst hb
    simp only [Cpu.setMts, Function.update_self, mtsEntry, true_and]
    exact hok
  · simp only [Cpu.setMts, Function.update_of_ne hb] at hvalid ⊢
    exact h b' hvalid

theorem toNat_pageImask (v : BitVec 64) : (v &&& mipsMinPageImask).toNat = v.toNat % 4096 := by
  rw [BitVec.toNat_and]
  exact Nat.and_two_pow_sub_one_eq_mod _ 12

section Posts

variable {page : BitVec 14 → BitVec 64}

end Posts

theorem Outcome.Post.ends {α : Type} {o : Outcome W α} {Q : Cpu W → Prop} (h : o.Post Q Q)
    (he : o.Ends cpu') : Q cpu' := by
  cases o with
  | done a cpu =>
    cases he
    exact h
  | loopEnter cpu =>
    cases he
    exact h
  | fault => cases he

variable {s : Filled W}

/-! What the translation gives, against where a load goes. -/

/-- The page of the memory is below 4 GB where the address space has 32 bits; the page
of a device is the one in the entry that was never set. -/
def Source.Known (src : Source) (mode : AddrMode) (altEntry : MtsEntry) : Prop :=
  match src with
  | .memory paddr => mode = .mode32 → paddr.toNat < 2 ^ 32
  | .device addr => addr.toNat / 4096 = (mode.physPage altEntry).toNat

instance (src : Source) (mode : AddrMode) (altEntry : MtsEntry) :
    Decidable (src.Known mode altEntry) :=
  match src with
  | .memory _ => inferInstanceAs (Decidable (_ → _))
  | .device _ => inferInstanceAs (Decidable (_ = _))

def Source.gppa (src : Source) (mode : AddrMode) (altEntry : MtsEntry) : BitVec 64 :=
  match src with
  | .memory paddr => mode.trunc paddr
  | .device _ => altEntry.gppa

end Dynamips.Mips64
