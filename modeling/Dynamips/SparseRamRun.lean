import Dynamips.Lib.Runs
import Dynamips.Mips64Ram
import Dynamips.Mips64Run
import Dynamips.Ppc32Ram

/-! A VM with its CPU over runs of loads, stores, fetches and DMA to the RAM of a
sparse device: where no pointer to a shared page is left behind, the RAM is a flat
memory that starts with the ghost image. -/
set_option autoImplicit false

namespace Dynamips

open Runs

inductive Machine (W : Type) where
  | mips64 (cpu : Mips64.Cpu W)
  | ppc32 (cpu : Ppc32.FetchCpu W)

structure MachineEnv (W : Type) where
  mips64 : Mips64.Env W
  ppc32 : Ppc32.Env W
  handler : DevHandler W

/-- The accesses of the CPU by virtual addresses and those of devices by physical
ones; `other` is all that the CPU does besides. -/
inductive MemEvent (W : Type) where
  | load (vaddr : BitVec 64) (size : Nat)
  | fetch (pc : BitVec 64)
  | store (vaddr : BitVec 64) (size : Nat) (data : BitVec 64)
  | copyWordFromVm (size : Nat) (paddr : BitVec 64)
  | copyWordToVm (size : Nat) (paddr val : BitVec 64)
  | copyFromVm (realBuffer : List Byte) (paddr : BitVec 64)
  | copyToVm (realBuffer : List Byte) (paddr : BitVec 64)
  | dmaTransfer (src dst : BitVec 64) (len : Nat)
  | strnlen (paddr : BitVec 64) (maxlen : Nat)
  | other (m : Machine W)

inductive Reply where
  | word (v : BitVec 64)
  | bytes (bytes : List Byte)
  | length (n : Nat)
  | done
deriving DecidableEq

variable {W : Type}

def Machine.vm : Machine W → Vm W
  | mips64 cpu => cpu.vm
  | ppc32 cpu => cpu.vm

def Machine.setVm (vm : Vm W) : Machine W → Machine W
  | mips64 cpu => mips64 { cpu with vm := vm }
  | ppc32 cpu => ppc32 { cpu with vm := vm }

def mips64LoadOp : Nat → Mips64.MemOp
  | 1 => .lbu
  | 2 => .lhu
  | 4 => .lwu
  | _ => .ld

def mips64StoreOp : Nat → Mips64.MemOp
  | 1 => .sb
  | 2 => .sh
  | 4 => .sw
  | _ => .sd

def Machine.load (env : MachineEnv W) (vaddr : BitVec 64) (size : Nat) :
    Machine W → Option (BitVec 64 × Machine W)
  | mips64 cpu =>
    match Mips64.mtsRead env.mips64 cpu vaddr (mips64LoadOp size) size with
    | .done v cpu => some (v, mips64 cpu)
    | _ => none
  | ppc32 cpu =>
    (Ppc32.memRead env.ppc32 cpu (vaddr.setWidth 32) size).map fun (v, cpu) => (v, ppc32 cpu)

def Machine.fetch (env : MachineEnv W) (pc : BitVec 64) :
    Machine W → Option (BitVec 64 × Machine W)
  | mips64 cpu =>
    match Mips64.execFetch env.mips64 cpu pc with
    | .done insn cpu => some (insn.setWidth 64, mips64 cpu)
    | _ => none
  | ppc32 cpu =>
    (Ppc32.execFetch env.ppc32 cpu (pc.setWidth 32)).map fun (insn, cpu) =>
      (insn.setWidth 64, ppc32 cpu)

def Machine.store (env : MachineEnv W) (vaddr : BitVec 64) (size : Nat) (data : BitVec 64) :
    Machine W → Option (Machine W)
  | mips64 cpu =>
    match Mips64.mtsWrite env.mips64 cpu vaddr (mips64StoreOp size) size data with
    | .done () cpu => some (mips64 cpu)
    | _ => none
  | ppc32 cpu => (Ppc32.memWrite env.ppc32 cpu (vaddr.setWidth 32) size data).map ppc32

/-- What an event answers and leaves; none where the emulator aborts. -/
def Machine.exec (env : MachineEnv W) (m : Machine W) : MemEvent W → Option (Reply × Machine W)
  | .load vaddr size => (m.load env vaddr size).map fun (v, m) => (.word v, m)
  | .fetch pc => (m.fetch env pc).map fun (v, m) => (.word v, m)
  | .store vaddr size data => (m.store env vaddr size data).map fun m => (.done, m)
  | .copyWordFromVm size paddr =>
    (physmemCopyWordFromVm size env.handler m.vm paddr).map fun (v, vm) => (.word v, m.setVm vm)
  | .copyWordToVm size paddr val =>
    (physmemCopyWordToVm size env.handler m.vm paddr val).map fun vm => (.done, m.setVm vm)
  | .copyFromVm realBuffer paddr =>
    (physmemCopyFromVm env.handler m.vm realBuffer paddr).map fun (bytes, vm) =>
      (.bytes bytes, m.setVm vm)
  | .copyToVm realBuffer paddr =>
    (physmemCopyToVm env.handler m.vm realBuffer paddr).map fun vm => (.done, m.setVm vm)
  | .dmaTransfer src dst len =>
    (physmemDmaTransfer env.handler m.vm src dst len).map fun vm => (.done, m.setVm vm)
  | .strnlen paddr maxlen => some (.length (physmemStrnlen m.vm paddr maxlen), m)
  | .other m' => some (.done, m')

def Machine.dataSlot (vaddr : BitVec 64) : Machine W → Option Slot
  | mips64 cpu => cpu.ramSlot vaddr
  | ppc32 cpu => cpu.ramSlot (vaddr.setWidth 32) .dcache

def Machine.fetchSlot (pc : BitVec 64) : Machine W → Option Slot
  | mips64 cpu => cpu.ramSlot (Mips64.execPage pc)
  | ppc32 cpu => cpu.ramSlot (Ppc32.execPage (pc.setWidth 32)) .icache

/-- The bytes that `physmem_strnlen` looks at, in a device over an image. -/
def Vm.strnlenCells (vm : Vm W) (paddr : BitVec 64) (maxlen : Nat) : Option (List Cell) :=
  match devLookup vm paddr true with
  | none => none
  | some dev =>
    if dev.has vdeviceFlagSparse ∧ dev.hostAddr ≠ 0 then
      some (dev.cells paddr (strnlenMax dev paddr maxlen))
    else none

def readWord (ram : Ram) (slot : Slot) (offset : BitVec 12) (size : Nat) : BitVec 64 :=
  loadValue (ram.read (pageCells slot offset size))

/-- What the event answers and leaves where the RAM is a flat memory; none where
it does not go to the RAM. -/
def Machine.spec (m : Machine W) (ram : Ram) : MemEvent W → Option (Reply × Ram)
  | .load vaddr size =>
    (m.dataSlot vaddr).map fun slot => (.word (readWord ram slot (pageOffset vaddr) size), ram)
  | .fetch pc =>
    (m.fetchSlot pc).map fun slot =>
      (.word (((readWord ram slot (Mips64.fetchOffset pc) 4).setWidth 32).setWidth 64), ram)
  | .store vaddr size data =>
    (m.dataSlot vaddr).map fun slot =>
      (.done, ram.write (pageCells slot (pageOffset vaddr) size) (storeBytes data size))
  | .copyWordFromVm size paddr =>
    (m.vm.ramSlot paddr false).map fun slot =>
      (.word (readWord ram slot (pageOffset paddr) size), ram)
  | .copyWordToVm size paddr val =>
    (m.vm.ramSlot paddr false).map fun slot =>
      (.done, ram.write (pageCells slot (pageOffset paddr) size) (storeBytes val size))
  | .copyFromVm realBuffer paddr =>
    (m.vm.cells paddr realBuffer.length).map fun cells => (.bytes (ram.read cells), ram)
  | .copyToVm realBuffer paddr =>
    (m.vm.cells paddr realBuffer.length).map fun cells => (.done, ram.write cells realBuffer)
  | .dmaTransfer src dst len =>
    match m.vm.cells src len, m.vm.cells dst len with
    | some srcCells, some dstCells => some (.done, ram.write dstCells (ram.read srcCells))
    | _, _ => none
  | .strnlen paddr maxlen =>
    (m.vm.strnlenCells paddr maxlen).map fun cells => (.length (strnlen (ram.read cells)), ram)
  | .other _ => some (.done, ram)

def ramAfter (ram : Ram) (trace : List (Machine W × MemEvent W)) : Ram :=
  trace.foldl (fun ram x => ((x.1.spec ram x.2).map Prod.snd).getD ram) ram

/-- Except for the bucket of an address, no pointer that the CPU keeps is that of
a slot. -/
def Machine.Alone (vaddr : Option (BitVec 64)) (slot : Slot) : Machine W → Prop
  | mips64 cpu => cpu.Alone (vaddr.map Mips64.mtsHash) slot
  | ppc32 cpu => cpu.Alone (vaddr.map fun v => (.dcache, Ppc32.mtsHash (v.setWidth 32))) slot

def Machine.Unshares (m : Machine W) (vaddr : Option (BitVec 64)) (written : Slot → Prop) : Prop :=
  ∀ slot, written slot → m.vm.pages.own slot = false → m.Alone vaddr slot

def Machine.PointersOk : Machine W → Prop
  | mips64 cpu => Mips64.PointersOk cpu
  | ppc32 cpu => Ppc32.PointersOk cpu

/-- The address is sign-extended in the direct zones of a MIPS CPU; the page of a
PowerPC CPU lies in one device. -/
def Machine.DataOk (vaddr : BitVec 64) : Machine W → Prop
  | mips64 cpu => Mips64.Canonical cpu.addrMode vaddr
  | ppc32 cpu => Ppc32.PageWhole cpu.toCpu (vaddr.setWidth 32) .dcache

def Machine.FetchOk (pc : BitVec 64) : Machine W → Prop
  | mips64 cpu => Mips64.Canonical cpu.addrMode (Mips64.execPage pc)
  | ppc32 cpu => Ppc32.PageWhole cpu.toCpu (Ppc32.execPage (pc.setWidth 32)) .icache

def Machine.TableFixed : Machine W → Prop
  | mips64 _ => True
  | ppc32 cpu => Ppc32.TableFixed cpu.toCpu

def InPage (addr : BitVec 64) (size : Nat) : Prop := (pageOffset addr).toNat + size ≤ 4096

instance (addr : BitVec 64) (size : Nat) : Decidable (InPage addr size) :=
  inferInstanceAs (Decidable (_ ≤ _))

def EventOk (m : Machine W) : MemEvent W → Prop
  | .load vaddr size => InPage vaddr size ∧ m.DataOk vaddr
  | .fetch pc => m.FetchOk pc
  | .store vaddr size _ => InPage vaddr size ∧ m.DataOk vaddr ∧
      m.Unshares (some vaddr) fun slot => m.dataSlot vaddr = some slot
  | .copyWordFromVm size paddr => InPage paddr size
  | .copyWordToVm size paddr _ => InPage paddr size ∧
      m.Unshares none fun slot => m.vm.ramSlot paddr false = some slot
  | .copyFromVm _ _ => True
  | .copyToVm realBuffer paddr => ∀ cells, m.vm.cells paddr realBuffer.length = some cells →
      m.Unshares none (slotsOf cells)
  | .dmaTransfer src dst len => ∀ srcCells dstCells, m.vm.cells src len = some srcCells →
      m.vm.cells dst len = some dstCells →
        (∀ c ∈ srcCells, c ∉ dstCells) ∧ m.Unshares none (slotsOf dstCells)
  | .strnlen paddr maxlen => ∀ cells, m.vm.strnlenCells paddr maxlen = some cells →
      ∀ c ∈ cells, m.vm.pages.own c.1 = false
  | .other m' => m'.vm = m.vm ∧ m'.PointersOk

/-- The event goes to the RAM and leaves no pointer to a shared page behind. -/
structure StepOk (m : Machine W) (e : MemEvent W) : Prop where
  ram : (m.spec m.vm.ram e).isSome
  table : m.TableFixed
  event : EventOk m e

variable {env : MachineEnv W} {m m' : Machine W} {vm₀ vm : Vm W} {written : Slot → Prop} {ram : Ram}

@[simp] theorem vm_setVm (m : Machine W) (vm : Vm W) : (m.setVm vm).vm = vm := by
  cases m with
  | mips64 cpu => rfl
  | ppc32 cpu => rfl

theorem setVm_pointersOk (h : m.PointersOk) (ht : m.TableFixed) (ok : RamOk vm₀ m.vm)
    (hstep : RamStep vm₀ m.vm vm written ram) (halone : m.Unshares none written) :
    (m.setVm vm).PointersOk := by
  cases m with
  | mips64 cpu => exact h.kept ok hstep halone
  | ppc32 cpu => exact h.kept ht ok hstep halone

/-- The machine is in order after an event, and its RAM has become `ram`. -/
structure After (vm₀ : Vm W) (m : Machine W) (ram : Ram) : Prop where
  pointers : m.PointersOk
  ok : RamOk vm₀ m.vm
  ram : m.vm.ram = ram

theorem After.of_vm (h : m.PointersOk) (ht : m.TableFixed) (ok : RamOk vm₀ m.vm)
    (hstep : RamStep vm₀ m.vm vm written ram) (halone : m.Unshares none written) :
    After vm₀ (m.setVm vm) ram where
  pointers := setVm_pointersOk h ht ok hstep halone
  ok := by
    rw [vm_setVm]
    exact hstep.ok
  ram := by
    rw [vm_setVm]
    exact hstep.ram

theorem unshares_false (m : Machine W) (vaddr : Option (BitVec 64)) :
    m.Unshares vaddr fun _ => False :=
  fun _ h => h.elim

theorem load_step (boot : Boot vm₀) (ok : RamOk vm₀ m.vm) (h : m.PointersOk) (ht : m.TableFixed)
    {vaddr v : BitVec 64} {size : Nat} {slot : Slot} (hslot : m.dataSlot vaddr = some slot)
    (hpage : InPage vaddr size) (hdata : m.DataOk vaddr)
    (hload : m.load env vaddr size = some (v, m')) :
    After vm₀ m' m.vm.ram ∧ v = readWord m.vm.ram slot (pageOffset vaddr) size := by
  cases m with
  | mips64 cpu =>
    simp only [Machine.load] at hload
    split at hload
    · rename_i hread
      cases hload
      obtain ⟨hp, hstep, rfl⟩ :=
        @Mips64.mtsRead_step W _ _ _ _ vm₀ (fun _ => False) boot ok h hdata slot hslot _ _ _ hpage
          hread
      exact ⟨⟨hp, hstep.ok, hstep.ram⟩, rfl⟩
    · cases hload
  | ppc32 cpu =>
    simp only [Machine.load, Option.map_eq_some_iff] at hload
    obtain ⟨⟨v', cpu'⟩, hread, heq⟩ := hload
    cases heq
    have hoffset : ((vaddr.setWidth 32).setWidth 12) = pageOffset vaddr :=
      BitVec.setWidth_setWidth_of_le _ (by omega)
    obtain ⟨hp, hstep, rfl⟩ :=
      @Ppc32.memRead_step W _ _ _ _ vm₀ (fun _ => False) boot ok h ht hdata slot hslot _ _
        (by rw [hoffset]; exact hpage) hread
    refine ⟨⟨hp, hstep.ok, hstep.ram⟩, ?_⟩
    rw [hoffset]
    rfl

theorem fetch_step (boot : Boot vm₀) (ok : RamOk vm₀ m.vm) (h : m.PointersOk) (ht : m.TableFixed)
    {pc v : BitVec 64} {slot : Slot} (hslot : m.fetchSlot pc = some slot) (hfetch : m.FetchOk pc)
    (hrun : m.fetch env pc = some (v, m')) :
    After vm₀ m' m.vm.ram ∧
      v = ((readWord m.vm.ram slot (Mips64.fetchOffset pc) 4).setWidth 32).setWidth 64 := by
  cases m with
  | mips64 cpu =>
    simp only [Machine.fetch] at hrun
    split at hrun
    · rename_i hread
      cases hrun
      obtain ⟨hp, hstep, rfl⟩ :=
        @Mips64.execFetch_step W _ _ _ vm₀ (fun _ => False) boot ok h pc hfetch slot hslot _ hread
      exact ⟨⟨hp, hstep.ok, hstep.ram⟩, rfl⟩
    · cases hrun
  | ppc32 cpu =>
    simp only [Machine.fetch, Option.map_eq_some_iff] at hrun
    obtain ⟨⟨insn, cpu'⟩, hread, heq⟩ := hrun
    cases heq
    have hoffset : Ppc32.fetchOffset (pc.setWidth 32) = Mips64.fetchOffset pc := by
      rw [Ppc32.fetchOffset, Mips64.fetchOffset, pageOffset,
        BitVec.setWidth_setWidth_of_le _ (by omega)]
    obtain ⟨hp, hstep, rfl⟩ :=
      @Ppc32.execFetch_step W _ _ _ vm₀ (fun _ => False) boot ok h ht _ hfetch slot hslot _ hread
    refine ⟨⟨hp, hstep.ok, hstep.ram⟩, ?_⟩
    rw [hoffset]
    rfl

theorem store_step (boot : Boot vm₀) (ok : RamOk vm₀ m.vm) (h : m.PointersOk) (ht : m.TableFixed)
    {vaddr data : BitVec 64} {size : Nat} {slot : Slot} (hslot : m.dataSlot vaddr = some slot)
    (hpage : InPage vaddr size) (hdata : m.DataOk vaddr)
    (halone : m.Unshares (some vaddr) fun slot => m.dataSlot vaddr = some slot)
    (hstore : m.store env vaddr size data = some m') :
    After vm₀ m'
      (m.vm.ram.write (pageCells slot (pageOffset vaddr) size) (storeBytes data size)) := by
  cases m with
  | mips64 cpu =>
    simp only [Machine.store] at hstore
    split at hstore
    · rename_i hwrite
      cases hstore
      obtain ⟨hp, hstep⟩ :=
        Mips64.mtsWrite_step boot ok h hdata hslot hpage (halone slot hslot) hwrite
      exact ⟨hp, hstep.ok, hstep.ram⟩
    · cases hstore
  | ppc32 cpu =>
    simp only [Machine.store, Option.map_eq_some_iff] at hstore
    obtain ⟨cpu', hwrite, rfl⟩ := hstore
    have hoffset : ((vaddr.setWidth 32).setWidth 12) = pageOffset vaddr :=
      BitVec.setWidth_setWidth_of_le _ (by omega)
    obtain ⟨hp, hstep⟩ := Ppc32.memWrite_step boot ok h ht hdata hslot
      (by rw [hoffset]; exact hpage) (halone slot hslot) hwrite
    rw [hoffset] at hstep
    exact ⟨hp, hstep.ok, hstep.ram⟩

theorem strnlenCells_eq_some {paddr : BitVec 64} {maxlen : Nat} {cells : List Cell}
    (h : vm.strnlenCells paddr maxlen = some cells) : ∃ dev, devLookup vm paddr true = some dev ∧
      dev.has vdeviceFlagSparse ∧ dev.hostAddr ≠ 0 ∧
        cells = dev.cells paddr (strnlenMax dev paddr maxlen) := by
  simp only [Vm.strnlenCells] at h
  split at h
  · cases h
  · rename_i dev hdev
    split at h
    · rename_i hram
      cases h
      exact ⟨dev, hdev, hram.1, hram.2, rfl⟩
    · cases h

/-- An event that leaves no pointer to a shared page behind does what it does to
the flat memory. -/
theorem exec_step (boot : Boot vm₀) (whole : WholePages vm₀) (ok : RamOk vm₀ m.vm)
    (h : m.PointersOk) {e : MemEvent W} (hok : StepOk m e) {reply : Reply}
    (hexec : m.exec env e = some (reply, m')) :
    ∃ ram, m.spec m.vm.ram e = some (reply, ram) ∧ After vm₀ m' ram := by
  obtain ⟨⟨reply', ram⟩, hspec⟩ := Option.isSome_iff_exists.mp hok.ram
  have ht := hok.table
  have hevent := hok.event
  have hlist := ok.devList
  cases e with
  | load vaddr size =>
    simp only [Machine.exec, Option.map_eq_some_iff] at hexec
    obtain ⟨⟨v, _⟩, hload, heq⟩ := hexec
    cases heq
    simp only [Machine.spec, Option.map_eq_some_iff] at hspec
    obtain ⟨slot, hslot, -⟩ := hspec
    obtain ⟨hafter, rfl⟩ := load_step boot ok h ht hslot hevent.1 hevent.2 hload
    exact ⟨_, by rw [Machine.spec, hslot]; rfl, hafter⟩
  | fetch pc =>
    simp only [Machine.exec, Option.map_eq_some_iff] at hexec
    obtain ⟨⟨v, _⟩, hrun, heq⟩ := hexec
    cases heq
    simp only [Machine.spec, Option.map_eq_some_iff] at hspec
    obtain ⟨slot, hslot, -⟩ := hspec
    obtain ⟨hafter, rfl⟩ := fetch_step boot ok h ht hslot hevent hrun
    exact ⟨_, by rw [Machine.spec, hslot]; rfl, hafter⟩
  | store vaddr size data =>
    simp only [Machine.exec, Option.map_eq_some_iff] at hexec
    obtain ⟨_, hstore, heq⟩ := hexec
    cases heq
    simp only [Machine.spec, Option.map_eq_some_iff] at hspec
    obtain ⟨slot, hslot, -⟩ := hspec
    have hafter := store_step boot ok h ht hslot hevent.1 hevent.2.1 hevent.2.2 hstore
    exact ⟨_, by rw [Machine.spec, hslot]; rfl, hafter⟩
  | copyWordFromVm size paddr =>
    simp only [Machine.exec, Option.map_eq_some_iff] at hexec
    obtain ⟨⟨v, vm⟩, hread, heq⟩ := hexec
    cases heq
    simp only [Machine.spec, Option.map_eq_some_iff] at hspec
    obtain ⟨slot, hslot, -⟩ := hspec
    obtain ⟨hstep, rfl⟩ :=
      @copyWordFromVm_step W vm₀ _ _ _ boot ok size paddr v slot (fun _ => False) hslot hevent hread
    exact ⟨_, by rw [Machine.spec, hslot]; rfl, After.of_vm h ht ok hstep (unshares_false m none)⟩
  | copyWordToVm size paddr val =>
    simp only [Machine.exec, Option.map_eq_some_iff] at hexec
    obtain ⟨vm, hwrite, heq⟩ := hexec
    cases heq
    simp only [Machine.spec, Option.map_eq_some_iff] at hspec
    obtain ⟨slot, hslot, -⟩ := hspec
    have hstep := copyWordToVm_step boot ok hslot hevent.1 hwrite
    refine ⟨_, by rw [Machine.spec, hslot]; rfl, After.of_vm h ht ok hstep ?_⟩
    rintro _ rfl
    exact hevent.2 _ hslot
  | copyFromVm realBuffer paddr =>
    simp only [Machine.exec, Option.map_eq_some_iff] at hexec
    obtain ⟨⟨bytes, vm⟩, hread, heq⟩ := hexec
    cases heq
    simp only [Machine.spec, Option.map_eq_some_iff] at hspec
    obtain ⟨cells, hcells, -⟩ := hspec
    obtain ⟨hstep, rfl⟩ := @copyFromVm_step W vm₀ _ _ _ boot whole ok _ _ _ _ cells
      (fun _ => False) (Nat.le_refl _) (by rw [← cells_congr hlist, hcells]) hread
    exact ⟨_, by rw [Machine.spec, hcells]; rfl, After.of_vm h ht ok hstep (unshares_false m none)⟩
  | copyToVm realBuffer paddr =>
    simp only [Machine.exec, Option.map_eq_some_iff] at hexec
    obtain ⟨vm, hwrite, heq⟩ := hexec
    cases heq
    simp only [Machine.spec, Option.map_eq_some_iff] at hspec
    obtain ⟨cells, hcells, -⟩ := hspec
    have hstep := copyToVm_step boot whole ok (Nat.le_refl _)
      (by rw [← cells_congr hlist, hcells]) hwrite
    exact ⟨_, by rw [Machine.spec, hcells]; rfl, After.of_vm h ht ok hstep (hevent cells hcells)⟩
  | dmaTransfer src dst len =>
    simp only [Machine.exec, Option.map_eq_some_iff] at hexec
    obtain ⟨vm, hdma, heq⟩ := hexec
    cases heq
    simp only [Machine.spec] at hspec ⊢
    split at hspec
    · rename_i srcCells dstCells hsrc hdst
      obtain ⟨hdisj, halone⟩ := hevent srcCells dstCells hsrc hdst
      have hstep := dmaTransfer_step boot whole ok (Nat.le_refl _)
        (by rw [← cells_congr hlist, hsrc]) (by rw [← cells_congr hlist, hdst]) hdisj hdma
      exact ⟨_, rfl, After.of_vm h ht ok hstep halone⟩
    · cases hspec
  | strnlen paddr maxlen =>
    cases hexec
    simp only [Machine.spec, Option.map_eq_some_iff] at hspec
    obtain ⟨cells, hcells, -⟩ := hspec
    have hshared := hevent cells hcells
    obtain ⟨dev, hdev, hsp, hz, rfl⟩ := strnlenCells_eq_some hcells
    have hlen := physmemStrnlen_ram boot whole ok hdev hsp hz hshared
    exact ⟨_, by rw [Machine.spec, hcells, hlen]; rfl, h, ok, rfl⟩
  | other m' =>
    cases hexec
    obtain ⟨hvm, hpointers⟩ := hevent
    refine ⟨_, rfl, hpointers, ?_, ?_⟩
    · rw [hvm]
      exact ok
    · rw [hvm]

def Machine.NoPointers : Machine W → Prop
  | mips64 cpu => Mips64.MasksOk cpu ∧ cpu.njmExecPtr = none ∧
      ∀ b, cpu.mtsCache b = Mips64.MtsEntry.invalid cpu.addrMode
  | ppc32 cpu => cpu.njmExecPtr = none ∧ ∀ cid b, cpu.mtsCache cid b = Ppc32.MtsEntry.invalid

theorem pointersOk_start (h : m.NoPointers) : m.PointersOk := by
  cases m with
  | mips64 cpu =>
    obtain ⟨hmasks, hexec, hempty⟩ := h
    have hinvalid := Mips64.invalid_not_valid cpu.addrMode
    refine ⟨⟨hmasks, TagCache.agrees_of_empty fun b => ?_⟩, fun ptr hptr => ?_⟩
    · rw [hempty b]
      exact hinvalid
    · rw [hexec] at hptr
      cases hptr
  | ppc32 cpu =>
    obtain ⟨hexec, hempty⟩ := h
    refine ⟨Ppc32.coherent_empty hempty, fun ptr hptr => ?_⟩
    rw [hexec] at hptr
    cases hptr

def Machine.Step (env : MachineEnv W) (m : Machine W) (e : MemEvent W) (m' : Machine W) : Prop :=
  ∃ reply, m.exec env e = some (reply, m')

theorem run_ram {s t : Machine W} {trace : List (Machine W × MemEvent W)} (boot : Boot s.vm)
    (whole : WholePages s.vm) (hs : s.NoPointers) (hrun : Run (Machine.Step env) s trace t)
    (hok : AllSteps StepOk trace) :
    (RamOk s.vm t.vm ∧ t.PointersOk) ∧ t.vm.ram = ramAfter s.vm.ram trace := by
  have hstart : RamOk s.vm s.vm ∧ s.PointersOk := ⟨boot.ramOk, pointersOk_start hs⟩
  have hstep : ∀ m e m', RamOk s.vm m.vm ∧ m.PointersOk → StepOk m e → Machine.Step env m e m' →
      (RamOk s.vm m'.vm ∧ m'.PointersOk) ∧
        m'.vm.ram = ((m.spec m.vm.ram e).map Prod.snd).getD m.vm.ram := by
    rintro m e m' ⟨hm, hpointers⟩ hok ⟨reply, hexec⟩
    obtain ⟨ram, hspec, hafter⟩ := exec_step boot whole hm hpointers hok hexec
    refine ⟨⟨hafter.ok, hafter.pointers⟩, ?_⟩
    rw [hafter.ram, hspec]
    rfl
  exact hrun.tracks (fun m => m.vm.ram) (fun m e ram => ((m.spec ram e).map Prod.snd).getD ram)
    hstep hstart hok

/-- In a run from initialised devices whose steps leave no pointer to a shared page
behind, each event answers what it answers where the RAM is a flat memory that
starts with the ghost image, and the image is never written to. -/
theorem sparse_ram_coherent {s t : Machine W} {trace : List (Machine W × MemEvent W)}
    (boot : Boot s.vm) (whole : WholePages s.vm) (hs : s.NoPointers)
    (hrun : Run (Machine.Step env) s trace t) (hok : AllSteps StepOk trace) :
    (∀ pre m e post, trace = pre ++ (m, e) :: post → ∀ reply m',
      m.exec env e = some (reply, m') →
        ∃ ram, m.spec (ramAfter s.vm.ram pre) e = some (reply, ram)) ∧
    Always (fun m => ∀ slot offset, m.vm.mem (s.vm.addr slot offset) =
      s.vm.mem (s.vm.addr slot offset)) trace t := by
  have hbefore : ∀ pre x post, trace = pre ++ x :: post →
      (RamOk s.vm x.1.vm ∧ x.1.PointersOk) ∧ x.1.vm.ram = ramAfter s.vm.ram pre := by
    rintro pre x post rfl
    exact run_ram boot whole hs hrun.split.1 fun y hy => hok y (List.mem_append_left _ hy)
  have himage : ∀ m : Machine W, RamOk s.vm m.vm → ∀ slot offset,
      m.vm.mem (s.vm.addr slot offset) = s.vm.mem (s.vm.addr slot offset) := by
    intro m hm slot offset
    refine hm.mem_eq ?_
    rw [Vm.addr, pageNumber_hostCell]
    exact boot.outside slot
  refine ⟨?_, himage t (run_ram boot whole hs hrun hok).1.1, fun x hx => ?_⟩
  · intro pre m e post htrace reply m' hexec
    obtain ⟨⟨hm, hpointers⟩, hram⟩ := hbefore pre (m, e) post htrace
    have hstep : StepOk m e := hok (m, e) (by rw [htrace]; simp)
    obtain ⟨ram, hspec, -⟩ := exec_step boot whole hm hpointers hstep hexec
    exact ⟨ram, by rw [← hram, hspec]⟩
  · obtain ⟨pre, post, htrace⟩ := List.append_of_mem hx
    exact himage x.1 (hbefore pre x post htrace).1.1

/-- 64 KB of RAM at physical address 0 over a ghost image of zeros. -/
def ghostRam : VDevice :=
  { Mips64.ramDevice with flags := vdeviceFlagCaching ||| vdeviceFlagSparse }

def ghostHostPage (k : Nat) : Option HostPage :=
  if k = 0 then some ⟨0x7f0000000000, by decide, by decide⟩ else none

def ghostBoard : Vm Unit :=
  { Mips64.ramBoard [] with
    devList := [ghostRam]
    devArray := fun id => if id = 0 then some ghostRam else none
    sparseMap := fun _ => devSparseInit ghostRam.hostAddr
    hostPage := ghostHostPage
    remap_host := by simp }

/-- A TLB entry that maps the page at 0x4000 to the physical page at 0x1000. -/
def aliasTlb (i : Fin 64) : Mips64.TlbEntry :=
  if i.val = 0 then ⟨0, 0x4000, 0x5a, 0x1a⟩ else ⟨0, 0x80000000, 0, 0⟩

def ghostMachine : Machine Unit :=
  .mips64 { Mips64.ramCpu [] (fun _ => 0) aliasTlb with vm := ghostBoard }

def ghostEnv : MachineEnv Unit where
  mips64 := Mips64.quietEnv
  ppc32 := Ppc32.quietEnv
  handler _ _ _ _ data vm := (none, data, vm)

def kseg0Load : MemEvent Unit := .load 0xffffffff80001000 4

def aliasStore : MemEvent Unit := .store 0x4000 4 0x11223344

theorem ghostHostPage_eq {k : Nat} {p : HostPage} (h : ghostHostPage k = some p) :
    k = 0 ∧ p.ptr = 0x7f0000000000 := by
  simp only [ghostHostPage] at h
  split at h
  · rename_i hk
    cases h
    exact ⟨hk, rfl⟩
  · cases h

theorem toNat_ghostPage (slot : Slot) : 0x10000 ≤ (ghostBoard.pages.page slot).toNat ∧
    (ghostBoard.pages.page slot).toNat < 0x110000 := by
  have hi := (slot.2 <<< vmPageShift).isLt
  have hbase : (0x10000000 : HostAddr).toNat = 0x10000000 := rfl
  have hpage : ghostBoard.pages.page slot =
      pageNumber (0x10000000 + (slot.2 <<< vmPageShift).setWidth 64) := rfl
  rw [hpage, toNat_pageNumber, BitVec.toNat_add, hbase, BitVec.toNat_setWidth]
  omega

theorem boot_ghost : Boot ghostBoard where
  init := fun _ => ⟨0x10000000, by decide, rfl⟩
  image := by
    intro dev hdev _
    rw [List.mem_singleton.mp hdev]
    exact ⟨by decide, rfl⟩
  once := by
    intro k k' p p' hp hp' _
    rw [(ghostHostPage_eq hp).1, (ghostHostPage_eq hp').1]
  outside := by
    rintro slot ⟨k, p, hp, hpage⟩
    have hlt := (toNat_ghostPage slot).2
    have hnat : (pageNumber p.ptr).toNat = 0x7f0000000 := by
      rw [(ghostHostPage_eq hp).2]
      rfl
    rw [← hpage, hnat] at hlt
    omega
  nonnull := by
    intro dev hdev _ _ i hzero
    have hle := (toNat_ghostPage (dev.sparseMap, i)).1
    have hz : (0 : BitVec 52).toNat = 0 := rfl
    rw [hzero, hz] at hle
    omega

theorem ghostRam_covers (p : BitVec 64) : ghostRam.covers p = decide (p.toNat < 0x10000) := by
  have hbase : ghostRam.physAddr = 0#64 := rfl
  have hlen : (ghostRam.physLen.setWidth 64).toNat = 0x10000 := rfl
  have hzero : (0#64) ≤ p := Nat.zero_le p.toNat
  simp only [VDevice.covers, hbase, BitVec.sub_zero, BitVec.lt_def, hlen, hzero, decide_true,
    Bool.true_and]

theorem whole_ghost : WholePages ghostBoard := by
  intro dev hdev _ _
  rw [List.mem_singleton.mp hdev]
  refine ⟨rfl, fun paddr hlookup p hp => ?_⟩
  have hlist : ghostBoard.devList = [ghostRam] := rfl
  have hnat := congrArg BitVec.toNat hp
  rw [toNat_pageNumber, toNat_pageNumber] at hnat
  have hcovers := List.find?_some hlookup
  simp only [Bool.and_eq_true, ghostRam_covers, decide_eq_true_eq] at hcovers
  have hin : p.toNat < 0x10000 := by omega
  simp [devLookup, hlist, ghostRam_covers, hin]

theorem noPointers_ghost : ghostMachine.NoPointers := by
  refine ⟨fun i => ?_, rfl, fun _ => rfl⟩
  change (aliasTlb i).mask &&& Mips64.mipsTlbPageMask = (aliasTlb i).mask
  simp only [aliasTlb]
  split <;> rfl

theorem run_step {m m' : Machine W} {e : MemEvent W} {reply : Reply}
    (h : m.exec env e = some (reply, m')) : Run (Machine.Step env) m [(m, e)] m' :=
  Run.cons ⟨reply, h⟩ Run.start

/-- A store through one address is read back through the other one. -/
theorem sparse_ram_coherent_ghost : ∃ m t, Run (Machine.Step ghostEnv) ghostMachine
    [(ghostMachine, aliasStore), (m, kseg0Load)] t ∧
      (∀ reply m', m.exec ghostEnv kseg0Load = some (reply, m') → reply = .word 0x11223344) ∧
      ∀ slot offset, t.vm.mem (ghostBoard.addr slot offset) =
        ghostBoard.mem (ghostBoard.addr slot offset) := by
  have hfirst : (ghostMachine.spec ghostMachine.vm.ram aliasStore).isSome := by decide
  have hend : (ghostMachine.exec ghostEnv aliasStore).any (fun r =>
      (r.2.exec ghostEnv kseg0Load).isSome && (r.2.spec r.2.vm.ram kseg0Load).isSome &&
        (match r.2 with
          | .mips64 cpu => decide (Mips64.Canonical cpu.addrMode 0xffffffff80001000)
          | .ppc32 _ => false) &&
        (r.2.spec (ramAfter ghostMachine.vm.ram [(ghostMachine, aliasStore)]) kseg0Load).map
          Prod.fst = some (.word 0x11223344)) := by
    decide
  simp only [Option.any_eq_true, Bool.and_eq_true, decide_eq_true_eq, Option.isSome_iff_exists]
    at hend
  obtain ⟨⟨reply, m⟩, h1, ⟨⟨⟨⟨reply', t⟩, h2⟩, hram⟩, hdirect⟩, hanswer⟩ := hend
  have hrun : Run (Machine.Step ghostEnv) ghostMachine
      [(ghostMachine, aliasStore), (m, kseg0Load)] t := Run.cons ⟨reply, h1⟩ (run_step h2)
  have hok : AllSteps StepOk [(ghostMachine, aliasStore), (m, kseg0Load)] := by
    intro x hx
    simp only [List.mem_cons, List.not_mem_nil, or_false] at hx
    obtain rfl | rfl := hx
    · have hdata : Mips64.Canonical .mode32 0x4000 := by decide
      refine ⟨hfirst, trivial, by decide, hdata, fun slot _ _ => ?_⟩
      refine ⟨fun b page _ hheld => ?_, fun hexec => absurd rfl hexec⟩
      exact absurd hheld.1 (Mips64.invalid_not_valid .mode32)
    · cases m with
      | mips64 cpu =>
        have hdata : Mips64.Canonical cpu.addrMode 0xffffffff80001000 := of_decide_eq_true hdirect
        exact ⟨Option.isSome_iff_exists.mpr hram, trivial, by decide, hdata⟩
      | ppc32 cpu => cases hdirect
  obtain ⟨hreplies, himage⟩ :=
    @sparse_ram_coherent Unit ghostEnv ghostMachine t _ boot_ghost whole_ghost noPointers_ghost
      hrun hok
  refine ⟨m, t, hrun, fun reply m' hexec => ?_, himage.1⟩
  obtain ⟨ram, hspec⟩ := hreplies [(ghostMachine, aliasStore)] m kseg0Load [] rfl reply m' hexec
  rw [hspec, Option.map_some, Option.some.injEq] at hanswer
  exact hanswer

/-- The page is first read through kseg0; a store through the mapped page then goes
to a page that kseg0 does not find. -/
theorem not_sparse_ram_coherent : ¬ ∀ (env : MachineEnv Unit) (s t : Machine Unit)
    (trace : List (Machine Unit × MemEvent Unit)), Boot s.vm → WholePages s.vm → s.NoPointers →
      Run (Machine.Step env) s trace t →
        AllSteps (fun m e => (m.spec m.vm.ram e).isSome) trace →
          ∀ pre m e post, trace = pre ++ (m, e) :: post → ∀ reply m',
            m.exec env e = some (reply, m') →
              ∃ ram, m.spec (ramAfter s.vm.ram pre) e = some (reply, ram) := by
  intro h
  have hfirst : (ghostMachine.spec ghostMachine.vm.ram kseg0Load).isSome := by decide
  have hend : (ghostMachine.exec ghostEnv kseg0Load).any (fun r =>
      (r.2.spec r.2.vm.ram aliasStore).isSome && (r.2.exec ghostEnv aliasStore).any fun r' =>
        (r'.2.spec r'.2.vm.ram kseg0Load).isSome &&
        ((r'.2.exec ghostEnv kseg0Load).any fun r'' => r''.1 = .word 0) &&
        (r'.2.spec (ramAfter ghostMachine.vm.ram
          [(ghostMachine, kseg0Load), (r.2, aliasStore)]) kseg0Load).map Prod.fst =
            some (.word 0x11223344)) := by
    decide
  simp only [Option.any_eq_true, Bool.and_eq_true, decide_eq_true_eq] at hend
  obtain ⟨⟨_, m⟩, h1, hram1, ⟨_, m'⟩, h2, ⟨hram2, ⟨⟨reply, t⟩, h3, hreply⟩⟩, hanswer⟩ := hend
  have hrun := Run.cons ⟨_, h1⟩ (Run.cons ⟨_, h2⟩ (run_step h3))
  obtain ⟨ram, hspec⟩ := h ghostEnv ghostMachine t _ boot_ghost whole_ghost noPointers_ghost hrun (by
    intro x hx
    simp only [List.mem_cons, List.not_mem_nil, or_false] at hx
    obtain rfl | rfl | rfl := hx
    · exact hfirst
    · exact hram1
    · exact hram2) [(ghostMachine, kseg0Load), (m, aliasStore)] m' kseg0Load [] rfl reply t h3
  simp only at hreply
  rw [hspec, Option.map_some, Option.some.injEq] at hanswer
  simp only [hreply] at hanswer
  cases hanswer

end Dynamips
