import Dynamips.Lib.Bytes
import Mathlib.Logic.Function.Basic

/-! The device layer of device.c and the host pages of vm.c: the lookup of a
physical address and the host address behind a page of a sparse device. -/
set_option autoImplicit false

namespace Dynamips

/-- `m_iptr_t` -/
abbrev HostAddr := BitVec 64

def vmPageShift : Nat := 12

def vmPageMask : HostAddr := 0xfffffffffffff000

def vdeviceFlagNoMtsMmap : BitVec 32 := 0x01

def vdeviceFlagCaching : BitVec 32 := 0x02

def vdeviceFlagSparse : BitVec 32 := 0x10

def vdevicePteDirty : HostAddr := 0x01

/-- `sparseMap` names the table that `sparse_map` points to: `dev_remap` makes
two devices share one. -/
structure VDevice where
  id : BitVec 32
  physAddr : BitVec 64
  physLen : BitVec 32
  hostAddr : HostAddr
  flags : BitVec 32
  sparseMap : Nat
deriving DecidableEq

def VDevice.has (dev : VDevice) (flag : BitVec 32) : Bool := dev.flags &&& flag != 0

/-- A page that `m_memalign` gave. -/
structure HostPage where
  ptr : HostAddr
  aligned : ptr &&& vmPageMask = ptr
  nonnull : ptr ≠ 0

inductive MtsOp where
  | read
  | write
deriving DecidableEq, Repr

/-- The pages of the chunks are handed out in order; there is none where a chunk
cannot be allocated. `world` is the private data of the devices. -/
structure Vm (W : Type) where
  devList : List VDevice
  devArray : BitVec 6 → Option VDevice
  sparseMap : Nat → BitVec 32 → HostAddr
  hostPage : Nat → Option HostPage
  pageAlloc : Nat
  mem : HostAddr → Byte
  clockDivisor : BitVec 32
  world : W
  remap_host : ∀ dev ∈ devList, ∀ dev' ∈ devList, dev.has vdeviceFlagSparse →
    dev'.has vdeviceFlagSparse → dev.sparseMap = dev'.sparseMap → dev.hostAddr = dev'.hostAddr

variable {W : Type}

def VDevice.covers (dev : VDevice) (physAddr : BitVec 64) : Bool :=
  decide (dev.physAddr ≤ physAddr) && decide (physAddr - dev.physAddr < dev.physLen.setWidth 64)

def devLookup (vm : Vm W) (physAddr : BitVec 64) (cached : Bool) : Option VDevice :=
  vm.devList.find? fun dev => !(cached && !dev.has vdeviceFlagCaching) && dev.covers physAddr

theorem devLookup_mem {vm : Vm W} {physAddr : BitVec 64} {cached : Bool} {dev : VDevice}
    (h : devLookup vm physAddr cached = some dev) : dev ∈ vm.devList :=
  List.mem_of_find?_eq_some h

def vmAllocHostPage (vm : Vm W) : Option (HostPage × Vm W) :=
  (vm.hostPage vm.pageAlloc).map fun ptr => (ptr, { vm with pageAlloc := vm.pageAlloc + 1 })

/-- `memcpy` of one page. -/
def copyPage (mem : HostAddr → Byte) (dst src : HostAddr) (a : HostAddr) : Byte :=
  if a - dst < 0x1000 then mem (src + (a - dst)) else mem a

/-- The index into `sparse_map` of a physical address. -/
def VDevice.page (dev : VDevice) (paddr : BitVec 64) : BitVec 32 :=
  ((paddr - dev.physAddr) >>> vmPageShift).setWidth 32

def Vm.pte (vm : Vm W) (dev : VDevice) (paddr : BitVec 64) : HostAddr :=
  vm.sparseMap dev.sparseMap (dev.page paddr)

def Vm.setPte (vm : Vm W) (dev : VDevice) (paddr : BitVec 64) (ptr : HostAddr) : Vm W :=
  { vm with
    sparseMap := Function.update vm.sparseMap dev.sparseMap
      (Function.update (vm.sparseMap dev.sparseMap) (dev.page paddr) ptr) }

def isDirty (ptr : HostAddr) : Bool := ptr &&& vdevicePteDirty != 0

/-- `dev_sparse_get_host_addr` with its `cow` result; the assertion on the new
page aborts. -/
def devSparseGetHostAddr (vm : Vm W) (dev : VDevice) (paddr : BitVec 64) (opType : MtsOp) :
    Option (HostAddr × Bool × Vm W) :=
  let ptr := vm.pte dev paddr
  if isDirty ptr then some (ptr &&& vmPageMask, false, vm)
  else if dev.hostAddr = 0 then do
    let (new, vm) ← vmAllocHostPage vm
    some (new.ptr, false, vm.setPte dev paddr (new.ptr ||| vdevicePteDirty))
  else match opType with
    | .read => some (ptr &&& vmPageMask, true, vm)
    | .write => do
      let (new, vm) ← vmAllocHostPage vm
      let vm := { vm with mem := copyPage vm.mem new.ptr (ptr &&& vmPageMask) }
      some (new.ptr, false, vm.setPte dev paddr (new.ptr ||| vdevicePteDirty))

def Vm.dirties (vm : Vm W) (dev : VDevice) (paddr : BitVec 64) (opType : MtsOp) : Prop :=
  ¬ isDirty (vm.pte dev paddr) ∧ (dev.hostAddr = 0 ∨ opType = .write)

theorem isDirty_or (ptr : HostAddr) : isDirty (ptr ||| vdevicePteDirty) := by
  have h : (ptr ||| vdevicePteDirty) &&& vdevicePteDirty = vdevicePteDirty := by
    ext i hi
    simp only [BitVec.getElem_and, BitVec.getElem_or]
    cases vdevicePteDirty[i] <;> simp
  rw [isDirty, h]
  decide

theorem mask_or_dirty (page : HostPage) :
    (page.ptr ||| vdevicePteDirty) &&& vmPageMask = page.ptr := by
  have h : vdevicePteDirty &&& vmPageMask = 0 := by decide
  have hd : (page.ptr ||| vdevicePteDirty) &&& vmPageMask =
      (page.ptr &&& vmPageMask) ||| (vdevicePteDirty &&& vmPageMask) := by
    ext i hi
    simp only [BitVec.getElem_and, BitVec.getElem_or, Bool.and_or_distrib_right]
  rw [hd, page.aligned, h]
  exact BitVec.or_zero

@[simp] theorem pte_setPte (vm : Vm W) (dev : VDevice) (paddr : BitVec 64) (ptr : HostAddr) :
    (vm.setPte dev paddr ptr).pte dev paddr = ptr := by
  simp [Vm.pte, Vm.setPte]

theorem pte_setPte_ne (vm : Vm W) {dev dev' : VDevice} {paddr paddr' : BitVec 64} (ptr : HostAddr)
    (h : dev'.sparseMap ≠ dev.sparseMap ∨ dev'.page paddr' ≠ dev.page paddr) :
    (vm.setPte dev paddr ptr).pte dev' paddr' = vm.pte dev' paddr' := by
  by_cases hm : dev'.sparseMap = dev.sparseMap
  · have hp : dev'.page paddr' ≠ dev.page paddr := h.resolve_left fun hne => hne hm
    simp [Vm.pte, Vm.setPte, hm, Function.update_of_ne hp]
  · simp [Vm.pte, Vm.setPte, Function.update_of_ne hm]

theorem devSparseGetHostAddr_cases {vm vm' : Vm W} {dev : VDevice} {paddr : BitVec 64}
    {opType : MtsOp} {ptr : HostAddr} {cow : Bool}
    (h : devSparseGetHostAddr vm dev paddr opType = some (ptr, cow, vm')) :
    (isDirty (vm.pte dev paddr) ∧ ptr = vm.pte dev paddr &&& vmPageMask ∧ cow = false ∧
      vm' = vm) ∨
    (¬ isDirty (vm.pte dev paddr) ∧ dev.hostAddr ≠ 0 ∧ opType = .read ∧
      ptr = vm.pte dev paddr &&& vmPageMask ∧ cow = true ∧ vm' = vm) ∨
    (vm.dirties dev paddr opType ∧ cow = false ∧ vm'.devList = vm.devList ∧
      ∃ page : HostPage, ptr = page.ptr ∧
        vm'.sparseMap = (vm.setPte dev paddr (page.ptr ||| vdevicePteDirty)).sparseMap) := by
  simp only [devSparseGetHostAddr] at h
  by_cases hd : isDirty (vm.pte dev paddr)
  · simp only [hd, if_true, Option.some.injEq, Prod.mk.injEq] at h
    obtain ⟨h1, h2, h3⟩ := h
    exact Or.inl ⟨hd, h1.symm, h2.symm, h3.symm⟩
  right
  simp only [hd, Bool.false_eq_true, if_false] at h
  by_cases hz : dev.hostAddr = 0
  · right
    simp only [hz, if_true, vmAllocHostPage, Option.bind_eq_bind, Option.bind_eq_some_iff,
      Option.map_eq_some_iff] at h
    obtain ⟨_, ⟨page, -, rfl⟩, h⟩ := h
    cases h
    exact ⟨⟨hd, Or.inl hz⟩, rfl, rfl, page, rfl, rfl⟩
  · simp only [hz, if_false] at h
    cases opType with
    | read =>
      left
      simp only [Option.some.injEq, Prod.mk.injEq] at h
      obtain ⟨h1, h2, h3⟩ := h
      exact ⟨hd, hz, rfl, h1.symm, h2.symm, h3.symm⟩
    | write =>
      right
      simp only [vmAllocHostPage, Option.bind_eq_bind, Option.bind_eq_some_iff,
        Option.map_eq_some_iff] at h
      obtain ⟨_, ⟨page, -, rfl⟩, h⟩ := h
      cases h
      exact ⟨⟨hd, Or.inr rfl⟩, rfl, rfl, page, rfl, rfl⟩

/-- The host page behind a physical page that has one, and whether it is still
the shared one. -/
def Vm.hostOf (vm : Vm W) (paddr : BitVec 64) (cached : Bool) : Option (HostAddr × Bool) :=
  match devLookup vm paddr cached with
  | none => none
  | some dev =>
    if dev.has vdeviceFlagSparse then
      let ptr := vm.pte dev paddr
      if isDirty ptr then some (ptr &&& vmPageMask, false)
      else if dev.hostAddr = 0 then none
      else some (ptr &&& vmPageMask, true)
    else if dev.hostAddr = 0 ∨ dev.has vdeviceFlagNoMtsMmap then none
    else some (dev.hostAddr + (paddr - dev.physAddr), false)

/-- The slot of a `sparse_map` behind a physical page. -/
def Vm.slotOf (vm : Vm W) (paddr : BitVec 64) (cached : Bool) : Option (Nat × BitVec 32) :=
  match devLookup vm paddr cached with
  | none => none
  | some dev => if dev.has vdeviceFlagSparse then some (dev.sparseMap, dev.page paddr) else none

def Vm.unshares (vm : Vm W) (paddr : BitVec 64) (cached : Bool) (opType : MtsOp) : Prop :=
  opType = .write ∧ ∃ ptr, vm.hostOf paddr cached = some (ptr, true)

variable {vm vm' : Vm W} {paddr : BitVec 64} {cached : Bool}

theorem devLookup_congr (h : vm'.devList = vm.devList) :
    devLookup vm' paddr cached = devLookup vm paddr cached := by
  rw [devLookup, devLookup, h]

theorem hostOf_congr (hd : vm'.devList = vm.devList)
    (hs : ∀ slot, vm.slotOf paddr cached = some slot →
      vm'.sparseMap slot.1 slot.2 = vm.sparseMap slot.1 slot.2) :
    vm'.hostOf paddr cached = vm.hostOf paddr cached := by
  simp only [Vm.hostOf, devLookup_congr hd]
  cases hdev : devLookup vm paddr cached with
  | none => rfl
  | some dev =>
    by_cases hsp : dev.has vdeviceFlagSparse
    · have hpte : vm'.pte dev paddr = vm.pte dev paddr :=
        hs (dev.sparseMap, dev.page paddr) (by simp [Vm.slotOf, hdev, hsp])
      simp only [hpte]
    · simp [hsp]

theorem dirties_cases {dev : VDevice} {opType : MtsOp} (hdev : devLookup vm paddr cached = some dev)
    (hsp : dev.has vdeviceFlagSparse) (h : vm.dirties dev paddr opType) :
    dev.hostAddr = 0 ∨ vm.unshares paddr cached opType := by
  by_cases hz : dev.hostAddr = 0
  · exact Or.inl hz
  · right
    refine ⟨h.2.resolve_left hz, vm.pte dev paddr &&& vmPageMask, ?_⟩
    simp only [Vm.hostOf, hdev, hsp, h.1, hz, if_true, if_false, Bool.false_eq_true]

theorem slotOf_eq_some {slot : Nat × BitVec 32} (h : vm.slotOf paddr cached = some slot) :
    ∃ dev, devLookup vm paddr cached = some dev ∧ dev.has vdeviceFlagSparse ∧
      slot = (dev.sparseMap, dev.page paddr) := by
  simp only [Vm.slotOf] at h
  split at h
  · cases h
  · rename_i dev hdev
    split at h
    · cases h
      exact ⟨dev, hdev, ‹_›, rfl⟩
    · cases h

theorem slotOf_sparse {dev : VDevice} (hdev : devLookup vm paddr cached = some dev)
    (hsp : dev.has vdeviceFlagSparse) :
    vm.slotOf paddr cached = some (dev.sparseMap, dev.page paddr) := by
  simp only [Vm.slotOf, hdev, hsp, if_true]

theorem hostOf_eq_none {dev : VDevice} {p : BitVec 64} {c : Bool}
    (hdev : devLookup vm paddr cached = some dev) (hsp : dev.has vdeviceFlagSparse)
    (hd : ¬ isDirty (vm.pte dev paddr)) (hz : dev.hostAddr = 0)
    (hslot : vm.slotOf p c = vm.slotOf paddr cached) : vm.hostOf p c = none := by
  rw [slotOf_sparse hdev hsp] at hslot
  obtain ⟨dev', hdev', hsp', heq⟩ := slotOf_eq_some hslot
  simp only [Prod.mk.injEq] at heq
  have hhost : dev'.hostAddr = 0 := by
    rw [← hz]
    exact vm.remap_host dev' (devLookup_mem hdev') dev (devLookup_mem hdev) hsp' hsp heq.1.symm
  have hpte : vm.pte dev' p = vm.pte dev paddr := by
    rw [Vm.pte, Vm.pte, ← heq.1, ← heq.2]
  simp only [Vm.hostOf, hdev', hsp', hpte, hd, hhost, if_true, if_false, Bool.false_eq_true]

theorem devSparseGetHostAddr_of_hostOf {dev : VDevice} {opType : MtsOp} {host : HostAddr}
    {cow : Bool} (hdev : devLookup vm paddr cached = some dev) (hsp : dev.has vdeviceFlagSparse)
    (hhost : vm.hostOf paddr cached = some (host, cow)) (hcow : opType = .write → cow = false) :
    devSparseGetHostAddr vm dev paddr opType = some (host, cow, vm) := by
  simp only [Vm.hostOf, hdev, hsp, if_true] at hhost
  split at hhost
  · rename_i hd
    cases hhost
    simp only [devSparseGetHostAddr, hd, if_true]
  · rename_i hd
    split at hhost
    · cases hhost
    · rename_i hz
      cases hhost
      cases opType with
      | write => cases hcow rfl
      | read => simp only [devSparseGetHostAddr, hd, hz, if_false, Bool.false_eq_true]

theorem devSparseGetHostAddr_hostOf {dev : VDevice} {opType : MtsOp} {ptr : HostAddr} {cow : Bool}
    (hdev : devLookup vm paddr cached = some dev) (hsp : dev.has vdeviceFlagSparse)
    (h : devSparseGetHostAddr vm dev paddr opType = some (ptr, cow, vm')) :
    vm'.devList = vm.devList ∧ vm'.hostOf paddr cached = some (ptr, cow) ∧
      ∀ p c host, vm.hostOf p c = some host →
        (vm.unshares paddr cached opType → vm.slotOf p c ≠ vm.slotOf paddr cached) →
        vm'.hostOf p c = some host := by
  obtain ⟨hd, rfl, rfl, rfl⟩ | ⟨hd, hz, -, rfl, rfl, rfl⟩ | ⟨hd, rfl, hlist, page, rfl, hmap⟩ :=
    devSparseGetHostAddr_cases h
  · refine ⟨rfl, ?_, fun _ _ _ hh _ => hh⟩
    simp only [Vm.hostOf, hdev, hsp, hd, if_true]
  · refine ⟨rfl, ?_, fun _ _ _ hh _ => hh⟩
    simp only [Vm.hostOf, hdev, hsp, hd, hz, if_true, if_false, Bool.false_eq_true]
  · have hpte : vm'.pte dev paddr = page.ptr ||| vdevicePteDirty := by
      rw [← pte_setPte vm dev paddr (page.ptr ||| vdevicePteDirty), Vm.pte, Vm.pte, hmap]
    refine ⟨hlist, ?_, fun p c host hh hother => ?_⟩
    · simp only [Vm.hostOf, devLookup_congr hlist, hdev, hsp, hpte, isDirty_or, mask_or_dirty,
        if_true]
    · have hne : vm.slotOf p c ≠ vm.slotOf paddr cached := by
        intro hslot
        cases dirties_cases hdev hsp hd with
        | inl hz => rw [hostOf_eq_none hdev hsp hd.1 hz hslot] at hh; cases hh
        | inr hu => exact hother hu hslot
      rw [← hh]
      refine hostOf_congr hlist fun slot hslot => ?_
      obtain ⟨dev', hdev', hsp', rfl⟩ := slotOf_eq_some hslot
      rw [hslot, slotOf_sparse hdev hsp] at hne
      rw [hmap]
      refine pte_setPte_ne vm (page.ptr ||| vdevicePteDirty) ?_
      by_contra hc
      push Not at hc
      exact hne (by rw [hc.1, hc.2])

end Dynamips
