import Dynamips.Lib.CowPages
import Dynamips.Mips64Mem

/-! The RAM of a sparse device over a ghost image, as copy-on-write pages: its
bytes are those of a flat memory that starts with the image. -/
set_option autoImplicit false

namespace Dynamips

open CowPages
open Mips64 (vmLoad vmStore)

/-- A page of a sparse device: the table that it is in, and its index there. -/
abbrev Slot := Nat × BitVec 32

abbrev Cell := Slot × BitVec 12

abbrev Ram := Slot → BitVec 12 → Byte

def Ram.read (ram : Ram) (cells : List Cell) : List Byte := cells.map fun c => ram c.1 c.2

def Ram.poke (ram : Ram) (c : Cell) (b : Byte) : Ram :=
  Function.update ram c.1 (Function.update (ram c.1) c.2 b)

def Ram.write (ram : Ram) : List Cell → List Byte → Ram
  | c :: cells, b :: bytes => (ram.poke c b).write cells bytes
  | _, _ => ram

def pageCells (slot : Slot) (offset : BitVec 12) : Nat → List Cell
  | 0 => []
  | n + 1 => (slot, offset) :: pageCells slot (offset + 1) n

/-- What `memcpy` reads. -/
def hostRead (mem : HostAddr → Byte) (haddr : HostAddr) : Nat → List Byte
  | 0 => []
  | n + 1 => mem haddr :: hostRead mem (haddr + 1) n

/-- What `memcpy` leaves. -/
def hostWrite (mem : HostAddr → Byte) (haddr : HostAddr) : List Byte → HostAddr → Byte
  | [] => mem
  | b :: bytes => hostWrite (Function.update mem haddr b) (haddr + 1) bytes

def loadValue (bytes : List Byte) : BitVec 64 :=
  bytes.foldl (fun v b => (v <<< 8) ||| b.setWidth 64) 0

def storeBytes (data : BitVec 64) : Nat → List Byte
  | 0 => []
  | n + 1 => (data >>> (8 * n)).setWidth 8 :: storeBytes data n

@[simp] theorem length_storeBytes (data : BitVec 64) (n : Nat) :
    (storeBytes data n).length = n := by
  induction n with
  | zero => rfl
  | succ n ih => rw [storeBytes, List.length_cons, ih]

@[simp] theorem length_hostRead (mem : HostAddr → Byte) (haddr : HostAddr) (n : Nat) :
    (hostRead mem haddr n).length = n := by
  induction n generalizing haddr with
  | zero => rfl
  | succ n ih => rw [hostRead, List.length_cons, ih]

@[simp] theorem length_pageCells (slot : Slot) (offset : BitVec 12) (n : Nat) :
    (pageCells slot offset n).length = n := by
  induction n generalizing offset with
  | zero => rfl
  | succ n ih => rw [pageCells, List.length_cons, ih]

theorem ofNat_succ_add (a : HostAddr) (n : Nat) :
    a + 1 + BitVec.ofNat 64 n = a + BitVec.ofNat 64 (n + 1) := by
  rw [Nat.add_comm n 1, BitVec.ofNat_add, ← BitVec.add_assoc]
  rfl

theorem hostRead_snoc (mem : HostAddr → Byte) (haddr : HostAddr) (n : Nat) :
    hostRead mem haddr (n + 1) = hostRead mem haddr n ++ [mem (haddr + BitVec.ofNat 64 n)] := by
  induction n generalizing haddr with
  | zero => simp [hostRead]
  | succ n ih =>
    rw [hostRead, ih, hostRead, List.cons_append, ofNat_succ_add]

theorem vmLoad_eq (mem : HostAddr → Byte) (haddr : HostAddr) (n : Nat) :
    vmLoad mem haddr n = loadValue (hostRead mem haddr n) := by
  induction n with
  | zero => rfl
  | succ n ih => rw [vmLoad, ih, hostRead_snoc, loadValue, loadValue, List.foldl_append]; rfl

theorem vmStore_succ (mem : HostAddr → Byte) (haddr : HostAddr) {n : Nat} (hn : n < 2 ^ 64)
    (data : BitVec 64) : vmStore mem haddr (n + 1) data =
      vmStore (Function.update mem haddr ((data >>> (8 * n)).setWidth 8)) (haddr + 1) n data := by
  funext a
  simp only [vmStore]
  by_cases ha : a = haddr
  · subst ha
    have hlast : (a - (a + 1)).toNat = 2 ^ 64 - 1 := by bv_omega
    have hout : ¬ (2 ^ 64 - 1 < n) := by omega
    simp only [hlast, hout, if_false, Function.update_self, BitVec.sub_self, BitVec.toNat_zero]
    simp
  · have hpos : (a - haddr).toNat ≠ 0 := by bv_omega
    have hpred : (a - (haddr + 1)).toNat = (a - haddr).toNat - 1 := by bv_omega
    rw [hpred, Function.update_of_ne ha]
    have hiff : (a - haddr).toNat < n + 1 ↔ (a - haddr).toNat - 1 < n := by omega
    have hindex : n + 1 - 1 - (a - haddr).toNat = n - 1 - ((a - haddr).toNat - 1) := by omega
    simp only [hiff, hindex]

theorem vmStore_eq (mem : HostAddr → Byte) (haddr : HostAddr) {n : Nat} (hn : n ≤ 2 ^ 64)
    (data : BitVec 64) : vmStore mem haddr n data = hostWrite mem haddr (storeBytes data n) := by
  induction n generalizing mem haddr with
  | zero =>
    funext a
    simp [vmStore, storeBytes, hostWrite]
  | succ n ih => rw [vmStore_succ _ _ (by omega), ih _ _ (by omega), storeBytes, hostWrite]

def pageNumber (a : HostAddr) : BitVec 52 := a.extractLsb' 12 52

def hostCell (page : BitVec 52) (offset : BitVec 12) : HostAddr := page ++ offset

theorem toNat_hostCell (page : BitVec 52) (offset : BitVec 12) :
    (hostCell page offset).toNat = page.toNat * 4096 + offset.toNat := by
  have ho := offset.isLt
  rw [hostCell, BitVec.toNat_append, ← Nat.shiftLeft_add_eq_or_of_lt ho, Nat.shiftLeft_eq]

theorem hostCell_inj {page page' : BitVec 52} {offset offset' : BitVec 12}
    (h : hostCell page offset = hostCell page' offset') : page = page' ∧ offset = offset' := by
  have hnat := congrArg BitVec.toNat h
  rw [toNat_hostCell, toNat_hostCell] at hnat
  have ho := offset.isLt
  have ho' := offset'.isLt
  exact ⟨BitVec.eq_of_toNat_eq (by omega), BitVec.eq_of_toNat_eq (by omega)⟩

theorem toNat_pageNumber (a : HostAddr) : (pageNumber a).toNat = a.toNat / 4096 := by
  have ha := a.isLt
  rw [pageNumber, BitVec.extractLsb'_toNat, Nat.shiftRight_eq_div_pow]
  omega

theorem hostCell_pageNumber (a : HostAddr) : hostCell (pageNumber a) (a.setWidth 12) = a := by
  apply BitVec.eq_of_toNat_eq
  rw [toNat_hostCell, toNat_pageNumber, BitVec.toNat_setWidth]
  omega

@[simp] theorem pageNumber_hostCell (page : BitVec 52) (offset : BitVec 12) :
    pageNumber (hostCell page offset) = page := by
  apply BitVec.eq_of_toNat_eq
  have ho := offset.isLt
  rw [toNat_pageNumber, toNat_hostCell]
  omega

theorem hostCell_succ (page : BitVec 52) {offset : BitVec 12} (h : offset.toNat + 1 < 4096) :
    hostCell page offset + 1 = hostCell page (offset + 1) := by
  apply BitVec.eq_of_toNat_eq
  have hp := page.isLt
  have hnext : (offset + 1).toNat = offset.toNat + 1 := by bv_omega
  have hone : (1 : HostAddr).toNat = 1 := rfl
  rw [BitVec.toNat_add, toNat_hostCell, toNat_hostCell, hnext, hone]
  omega

theorem vmPageMask_getLsbD {i : Nat} (hi : i < 64) : vmPageMask.getLsbD i = decide (12 ≤ i) := by
  revert i
  decide

theorem and_vmPageMask (ptr : HostAddr) : ptr &&& vmPageMask = hostCell (pageNumber ptr) 0 := by
  apply BitVec.eq_of_getLsbD_eq
  intro i hi
  rw [BitVec.getLsbD_and, vmPageMask_getLsbD hi, hostCell, BitVec.getLsbD_append, pageNumber,
    BitVec.getLsbD_extractLsb']
  by_cases hlow : i < 12
  · simp [hlow]
  · have hsub : 12 + (i - 12) = i := by omega
    have hin : i - 12 < 52 := by omega
    have hge : 12 ≤ i := by omega
    simp [hlow, hsub, hin, hge]

theorem hostCell_add (page : BitVec 52) (offset : BitVec 12) :
    hostCell page 0 + offset.setWidth 64 = hostCell page offset := by
  apply BitVec.eq_of_toNat_eq
  have hp := page.isLt
  have ho := offset.isLt
  have hz : (0 : BitVec 12).toNat = 0 := rfl
  rw [BitVec.toNat_add, toNat_hostCell, toNat_hostCell, hz, BitVec.toNat_setWidth]
  omega

theorem pageNumber_aligned (page : HostPage) : hostCell (pageNumber page.ptr) 0 = page.ptr := by
  rw [← and_vmPageMask, page.aligned]

theorem pageNumber_or_dirty (page : HostPage) :
    pageNumber (page.ptr ||| vdevicePteDirty) = pageNumber page.ptr := by
  have h := congrArg pageNumber (mask_or_dirty page)
  rwa [and_vmPageMask, pageNumber_hostCell] at h

theorem copyPage_hostCell (mem : HostAddr → Byte) (dst src : BitVec 52) (page : BitVec 52)
    (offset : BitVec 12) : copyPage mem (hostCell dst 0) (hostCell src 0) (hostCell page offset) =
      if page = dst then mem (hostCell src offset) else mem (hostCell page offset) := by
  have hz : (0 : BitVec 12).toNat = 0 := rfl
  have hlen : (0x1000 : HostAddr).toNat = 4096 := rfl
  have ho := offset.isLt
  have hp := page.isLt
  have hd := dst.isLt
  simp only [copyPage, BitVec.lt_def, BitVec.toNat_sub, toNat_hostCell, hz, hlen]
  by_cases hpage : page = dst
  · subst hpage
    have hsub : hostCell page offset - hostCell page 0 = offset.setWidth 64 := by
      rw [← hostCell_add page offset, BitVec.add_comm, BitVec.add_sub_cancel]
    rw [if_pos rfl, hsub, hostCell_add, if_pos (by omega)]
  · have hne : page.toNat ≠ dst.toNat := fun h => hpage (BitVec.eq_of_toNat_eq h)
    rw [if_neg hpage, if_neg (by omega)]

variable {W : Type}

/-- The pages behind the slots; those that are dirty are their own. -/
def Vm.pages (vm : Vm W) : Pages Slot (BitVec 52) (BitVec 12) Byte where
  page slot := pageNumber (vm.sparseMap slot.1 slot.2)
  own slot := isDirty (vm.sparseMap slot.1 slot.2)
  mem page offset := vm.mem (hostCell page offset)

def Vm.ram (vm : Vm W) : Ram := vm.pages.content

/-- The host pages that `vm_alloc_host_page` gives. -/
def Vm.pool (vm : Vm W) (page : BitVec 52) : Prop :=
  ∃ k p, vm.hostPage k = some p ∧ pageNumber p.ptr = page

/-- The table that `dev_sparse_init` makes. -/
def devSparseInit (hostAddr : HostAddr) (i : BitVec 32) : HostAddr :=
  if hostAddr = 0 then 0 else hostAddr + (i <<< vmPageShift).setWidth 64

/-- The sparse devices have just been initialised over page-aligned images, and
the host gives each page once, and none of an image; no image lies at address 0. -/
structure Boot (vm : Vm W) : Prop where
  init : ∀ table, ∃ hostAddr, hostAddr &&& vmPageMask = hostAddr ∧
    vm.sparseMap table = devSparseInit hostAddr
  image : ∀ dev ∈ vm.devList, dev.has vdeviceFlagSparse →
    dev.hostAddr &&& vmPageMask = dev.hostAddr ∧
      vm.sparseMap dev.sparseMap = devSparseInit dev.hostAddr
  once : ∀ k k' p p', vm.hostPage k = some p → vm.hostPage k' = some p' → p.ptr = p'.ptr → k = k'
  outside : ∀ slot, ¬ vm.pool (vm.pages.page slot)
  nonnull : ∀ dev ∈ vm.devList, dev.has vdeviceFlagSparse → dev.hostAddr ≠ 0 →
    ∀ i, vm.pages.page (dev.sparseMap, i) ≠ 0

/-- The VM has only given pages to slots and written to those pages since `vm₀`. -/
structure RamOk (vm₀ vm : Vm W) : Prop where
  devList : vm.devList = vm₀.devList
  hostPage : vm.hostPage = vm₀.hostPage
  keeps : Keeps vm₀.pool vm₀.pages vm.pages
  taken : ∀ slot, vm.pages.own slot = true →
    ∃ k p, k < vm.pageAlloc ∧ vm₀.hostPage k = some p ∧ pageNumber p.ptr = vm.pages.page slot

/-- The VM comes to hold `ram`, and only slots that are written and shared get
another host page. -/
structure RamStep (vm₀ vm vm' : Vm W) (written : Slot → Prop) (ram : Ram) : Prop where
  ok : RamOk vm₀ vm'
  ram : vm'.ram = ram
  same : ∀ slot, (written slot → vm.pages.own slot = true) →
    vm'.sparseMap slot.1 slot.2 = vm.sparseMap slot.1 slot.2

variable {vm₀ vm mid vm' : Vm W} {written written' : Slot → Prop} {ram ram' : Ram}

theorem RamOk.mem_eq (ok : RamOk vm₀ vm) {a : HostAddr} (h : ¬ vm₀.pool (pageNumber a)) :
    vm.mem a = vm₀.mem a := by
  have hrest := congrFun (ok.keeps.rest _ h) (a.setWidth 12)
  simp only [Vm.pages, hostCell_pageNumber] at hrest
  exact hrest

theorem RamOk.step (ok : RamOk vm₀ vm) : RamStep vm₀ vm vm written vm.ram :=
  ⟨ok, rfl, fun _ _ => rfl⟩

theorem own_congr {slot : Slot}
    (h : vm'.sparseMap slot.1 slot.2 = vm.sparseMap slot.1 slot.2) :
    vm'.pages.own slot = vm.pages.own slot := by
  simp only [Vm.pages, h]

theorem RamStep.trans (h : RamStep vm₀ vm mid written ram)
    (h' : RamStep vm₀ mid vm' written' ram') (hw : ∀ slot, written' slot → written slot) :
    RamStep vm₀ vm vm' written ram' where
  ok := h'.ok
  ram := h'.ram
  same := by
    intro slot hs
    have hmid := h.same slot hs
    rw [← hmid]
    apply h'.same
    intro hslot
    rw [own_congr hmid]
    exact hs (hw slot hslot)

theorem RamStep.mono (h : RamStep vm₀ vm vm' written' ram)
    (hw : ∀ slot, written' slot → written slot) : RamStep vm₀ vm vm' written ram :=
  ⟨h.ok, h.ram, fun slot hs => h.same slot fun hslot => hs (hw slot hslot)⟩

theorem isDirty_eq (ptr : HostAddr) : isDirty ptr = decide (ptr.toNat % 2 = 1) := by
  have hand : (ptr &&& vdevicePteDirty).toNat = ptr.toNat % 2 := by
    rw [BitVec.toNat_and]
    exact Nat.and_one_is_mod _
  have hz : (0 : HostAddr).toNat = 0 := rfl
  by_cases h : ptr.toNat % 2 = 1
  · have hne : ptr &&& vdevicePteDirty ≠ 0 := fun he => by
      rw [he, hz] at hand
      omega
    simp only [isDirty, h, decide_true, bne_iff_ne]
    exact hne
  · have he : ptr &&& vdevicePteDirty = 0 := BitVec.eq_of_toNat_eq (by rw [hand, hz]; omega)
    simp [isDirty, h, he]

theorem toNat_aligned {ptr : HostAddr} (h : ptr &&& vmPageMask = ptr) : ptr.toNat % 4096 = 0 := by
  have hz : (0 : BitVec 12).toNat = 0 := rfl
  rw [← h, and_vmPageMask, toNat_hostCell, hz]
  omega

theorem isDirty_init {hostAddr : HostAddr} (h : hostAddr &&& vmPageMask = hostAddr)
    (i : BitVec 32) : isDirty (devSparseInit hostAddr i) = false := by
  simp only [devSparseInit]
  split
  · rfl
  · have ha := toNat_aligned h
    have hi : (i <<< vmPageShift).toNat % 2 = 0 := by
      rw [BitVec.toNat_shiftLeft, Nat.shiftLeft_eq, vmPageShift]
      omega
    have hw : ((i <<< vmPageShift).setWidth 64).toNat = (i <<< vmPageShift).toNat := by
      have hlt := (i <<< vmPageShift).isLt
      rw [BitVec.toNat_setWidth]
      omega
    rw [isDirty_eq, BitVec.toNat_add, hw, decide_eq_false_iff_not]
    omega

theorem Boot.shared (boot : Boot vm₀) (slot : Slot) : vm₀.pages.own slot = false := by
  obtain ⟨hostAddr, ha, hinit⟩ := boot.init slot.1
  simp only [Vm.pages, hinit]
  exact isDirty_init ha slot.2

theorem Boot.ramOk (boot : Boot vm₀) : RamOk vm₀ vm₀ where
  devList := rfl
  hostPage := rfl
  keeps := keeps_start boot.shared
  taken := fun slot h => by
    rw [boot.shared slot] at h
    cases h

def VDevice.slot (dev : VDevice) (paddr : BitVec 64) : Slot := (dev.sparseMap, dev.page paddr)

theorem fresh_next (boot : Boot vm₀) (ok : RamOk vm₀ vm) {new : HostPage}
    (hnew : vm.hostPage vm.pageAlloc = some new) :
    Fresh vm₀.pool vm.pages (pageNumber new.ptr) := by
  rw [ok.hostPage] at hnew
  refine ⟨⟨_, new, hnew, rfl⟩, fun slot hslot hpage => ?_⟩
  obtain ⟨k, p, hk, hp, hsame⟩ := ok.taken slot hslot
  have hptr : p.ptr = new.ptr := by
    rw [← pageNumber_aligned p, ← pageNumber_aligned new, hsame, hpage]
  have heq := boot.once _ _ _ _ hp hnew hptr
  omega

/-- A page taken from the pool, with a copy of the shared one. -/
theorem give_step (boot : Boot vm₀) (ok : RamOk vm₀ vm) {dev : VDevice} {paddr : BitVec 64}
    {new : HostPage} (hnew : vm.hostPage vm.pageAlloc = some new)
    (hshared : isDirty (vm.pte dev paddr) = false)
    (hvm : vm' = Vm.setPte { vm with
      pageAlloc := vm.pageAlloc + 1
      mem := copyPage vm.mem new.ptr (vm.pte dev paddr &&& vmPageMask) } dev paddr
        (new.ptr ||| vdevicePteDirty)) :
    RamStep vm₀ vm vm' (fun slot => slot = dev.slot paddr) vm.ram ∧
      vm'.pages.page (dev.slot paddr) = pageNumber new.ptr ∧
      vm'.pages.own (dev.slot paddr) = true := by
  have hslot : ∀ slot : Slot, vm'.sparseMap slot.1 slot.2 =
      Function.update (fun slot : Slot => vm.sparseMap slot.1 slot.2) (dev.slot paddr)
        (new.ptr ||| vdevicePteDirty) slot := by
    intro slot
    rw [hvm]
    obtain ⟨table, i⟩ := slot
    simp only [Vm.setPte, Function.update_apply, VDevice.slot, Prod.mk.injEq]
    by_cases ht : table = dev.sparseMap
    · subst ht
      simp only [if_true, Function.update_apply, true_and]
    · simp only [ht, if_false, false_and]
  have hpages : vm'.pages = vm.pages.give (dev.slot paddr) (pageNumber new.ptr) := by
    have hsrc : vm.pages.content (dev.slot paddr) = fun offset =>
        vm.mem (hostCell (pageNumber (vm.pte dev paddr)) offset) := rfl
    simp only [Vm.pages, Pages.give, Pages.mk.injEq]
    refine ⟨?_, ?_, ?_⟩
    · funext slot
      rw [hslot, Function.update_apply, Function.update_apply, apply_ite pageNumber,
        pageNumber_or_dirty]
    · funext slot
      rw [hslot, Function.update_apply, Function.update_apply, apply_ite isDirty, isDirty_or]
    · funext page offset
      have hmem : vm'.mem = copyPage vm.mem new.ptr (vm.pte dev paddr &&& vmPageMask) := by
        rw [hvm]
        rfl
      rw [hmem, and_vmPageMask, ← pageNumber_aligned new, copyPage_hostCell, pageNumber_hostCell,
        Function.update_apply, apply_ite fun f : BitVec 12 → Byte => f offset]
      rfl
  have hfresh := fresh_next boot ok hnew
  refine ⟨⟨⟨?_, ?_, ?_, ?_⟩, ?_, ?_⟩, ?_, ?_⟩
  · rw [hvm]
    exact ok.devList
  · rw [hvm]
    exact ok.hostPage
  · rw [hpages]
    exact ok.keeps.give hfresh
  · intro slot hown
    have hnext : vm'.pageAlloc = vm.pageAlloc + 1 := by
      rw [hvm]
      rfl
    by_cases hs : slot = dev.slot paddr
    · refine ⟨vm.pageAlloc, new, by omega, by rw [← ok.hostPage, hnew], ?_⟩
      rw [hpages, hs]
      simp only [Pages.give, Function.update_self]
    · rw [hpages] at hown ⊢
      simp only [Pages.give, Function.update_of_ne hs] at hown ⊢
      obtain ⟨k, p, hk, hp, hpage⟩ := ok.taken slot hown
      exact ⟨k, p, by omega, hp, hpage⟩
  · rw [Vm.ram, hpages]
    exact content_give ok.keeps boot.outside hfresh
  · intro slot hs
    have hne : slot ≠ dev.slot paddr := by
      rintro rfl
      have hown : isDirty (vm.pte dev paddr) = true := hs rfl
      rw [hshared] at hown
      cases hown
    rw [hslot, Function.update_of_ne hne]
  · rw [hpages]
    simp only [Pages.give, Function.update_self]
  · rw [hpages]
    simp only [Pages.give, Function.update_self]

theorem devSparseGetHostAddr_step (boot : Boot vm₀) (ok : RamOk vm₀ vm) {dev : VDevice}
    {paddr : BitVec 64} {opType : MtsOp} {ptr : HostAddr} {cow : Bool} (hghost : dev.hostAddr ≠ 0)
    (h : devSparseGetHostAddr vm dev paddr opType = some (ptr, cow, vm')) :
    RamStep vm₀ vm vm' (fun slot => opType = .write ∧ slot = dev.slot paddr) vm.ram ∧
      ptr = hostCell (vm'.pages.page (dev.slot paddr)) 0 ∧
      (opType = .write → vm'.pages.own (dev.slot paddr) = true) := by
  have hpte : vm.pte dev paddr &&& vmPageMask =
      hostCell (vm.pages.page (dev.slot paddr)) 0 := and_vmPageMask _
  simp only [devSparseGetHostAddr, hghost, if_false] at h
  by_cases hd : isDirty (vm.pte dev paddr) = true
  · rw [if_pos hd] at h
    cases h
    exact ⟨ok.step, hpte, fun _ => hd⟩
  · rw [if_neg hd] at h
    cases opType with
    | read =>
      cases h
      exact ⟨ok.step, hpte, fun hw => by cases hw⟩
    | write =>
      simp only [vmAllocHostPage, Option.bind_eq_bind, Option.bind_eq_some_iff,
        Option.map_eq_some_iff, Option.some.injEq, Prod.mk.injEq] at h
      obtain ⟨_, ⟨new, hnew, rfl⟩, hptr, -, hvm⟩ := h
      obtain ⟨hstep, hpage, hown⟩ :=
        give_step boot ok hnew (Bool.eq_false_iff.mpr hd) hvm.symm
      refine ⟨hstep.mono fun slot hs => ⟨rfl, hs⟩, ?_, fun _ => hown⟩
      rw [hpage, pageNumber_aligned, hptr]

def Vm.addr (vm : Vm W) (slot : Slot) (offset : BitVec 12) : HostAddr :=
  hostCell (vm.pages.page slot) offset

theorem hostRead_of_page {page : BitVec 52} {slot : Slot} (hpage : vm.pages.mem page = ram slot)
    {offset : BitVec 12} {n : Nat} (h : offset.toNat + n ≤ 4096) :
    hostRead vm.mem (hostCell page offset) n = ram.read (pageCells slot offset n) := by
  induction n generalizing offset with
  | zero => rfl
  | succ n ih =>
    rw [hostRead, pageCells, Ram.read, List.map_cons]
    refine congrArg₂ List.cons (congrFun hpage offset) ?_
    cases n with
    | zero => rfl
    | succ n =>
      have hnext : (offset + 1).toNat = offset.toNat + 1 := by bv_omega
      rw [hostCell_succ _ (by omega)]
      exact ih (by omega)

theorem hostRead_page (vm : Vm W) (slot : Slot) {offset : BitVec 12} {n : Nat}
    (h : offset.toNat + n ≤ 4096) :
    hostRead vm.mem (vm.addr slot offset) n = vm.ram.read (pageCells slot offset n) :=
  hostRead_of_page rfl h

theorem RamStep.old_page (h : RamStep vm₀ vm vm' written vm.ram) (ok : RamOk vm₀ vm)
    (boot : Boot vm₀) (slot : Slot) : vm'.pages.mem (vm.pages.page slot) = vm.ram slot := by
  cases hown : vm.pages.own slot with
  | true =>
    have hpage : vm'.pages.page slot = vm.pages.page slot :=
      congrArg pageNumber (h.same slot fun _ => hown)
    rw [← hpage, ← h.ram]
    rfl
  | false =>
    have hbase := ok.keeps.shared slot hown
    have hout := boot.outside slot
    have hmem : vm.ram slot = vm.pages.mem (vm.pages.page slot) := rfl
    rw [hmem, hbase, h.ok.keeps.rest _ hout, ok.keeps.rest _ hout]

theorem poke_step (boot : Boot vm₀) (ok : RamOk vm₀ vm) {slot : Slot}
    (hown : vm.pages.own slot = true) (offset : BitVec 12) (b : Byte) :
    RamStep vm₀ vm { vm with mem := Function.update vm.mem (vm.addr slot offset) b } written
      (vm.ram.poke (slot, offset) b) := by
  have hpages : Vm.pages { vm with mem := Function.update vm.mem (vm.addr slot offset) b } =
      vm.pages.write slot (Function.update (vm.ram slot) offset b) := by
    simp only [Vm.pages, Pages.write, Pages.mk.injEq, true_and]
    funext page offset'
    rw [Function.update_apply, Function.update_apply,
      apply_ite fun f : BitVec 12 → Byte => f offset', Function.update_apply]
    by_cases hpage : page = vm.pages.page slot
    · subst hpage
      have hiff : hostCell (vm.pages.page slot) offset' = vm.addr slot offset ↔
          offset' = offset := by
        constructor
        · exact fun h => (hostCell_inj h).2
        · rintro rfl
          rfl
      have hself : vm.pages.page slot = pageNumber (vm.sparseMap slot.1 slot.2) := rfl
      simp only [hiff]
      rw [if_pos hself]
      rfl
    · have hne : hostCell page offset' ≠ vm.addr slot offset := fun h => hpage (hostCell_inj h).1
      have hne' : page ≠ pageNumber (vm.sparseMap slot.1 slot.2) := hpage
      rw [if_neg hne, if_neg hne']
  refine ⟨⟨ok.devList, ok.hostPage, ?_, ok.taken⟩, ?_, fun _ _ => rfl⟩
  · rw [hpages]
    exact ok.keeps.write hown _
  · rw [Vm.ram, hpages, content_write ok.keeps boot.outside hown]
    rfl

theorem hostWrite_step (boot : Boot vm₀) (ok : RamOk vm₀ vm) {slot : Slot} {offset : BitVec 12}
    {bytes : List Byte} (hown : vm.pages.own slot = true)
    (hlen : offset.toNat + bytes.length ≤ 4096) :
    RamStep vm₀ vm { vm with mem := hostWrite vm.mem (vm.addr slot offset) bytes } written
      (vm.ram.write (pageCells slot offset bytes.length) bytes) := by
  induction bytes generalizing vm offset with
  | nil => exact ok.step
  | cons b bytes ih =>
    have hpoke := @poke_step _ vm₀ vm written boot ok slot hown offset b
    rw [List.length_cons, pageCells, Ram.write, ← hpoke.ram]
    cases bytes with
    | nil => exact ⟨hpoke.ok, rfl, hpoke.same⟩
    | cons b' bytes =>
      simp only [List.length_cons] at hlen
      have hnext : (offset + 1).toNat = offset.toNat + 1 := by bv_omega
      have hrest := @ih _ hpoke.ok (offset + 1) hown (by simp only [List.length_cons]; omega)
      refine hpoke.trans ?_ fun _ h => h
      rw [hostWrite, Vm.addr, hostCell_succ _ (by omega)]
      exact hrest

/-- The slot of the page of RAM at a physical address: a page of a sparse device
over an image. -/
def Vm.ramSlot (vm : Vm W) (paddr : BitVec 64) (cached : Bool) : Option Slot :=
  match devLookup vm paddr cached with
  | none => none
  | some dev =>
    if dev.has vdeviceFlagSparse ∧ dev.hostAddr ≠ 0 then some (dev.slot paddr) else none

theorem ramSlot_eq_some {paddr : BitVec 64} {cached : Bool} {slot : Slot} :
    vm.ramSlot paddr cached = some slot ↔ ∃ dev, devLookup vm paddr cached = some dev ∧
      dev.has vdeviceFlagSparse ∧ dev.hostAddr ≠ 0 ∧ dev.slot paddr = slot := by
  simp only [Vm.ramSlot]
  cases hdev : devLookup vm paddr cached with
  | none => simp
  | some dev => simp [and_assoc]

theorem ramSlot_congr (h : vm'.devList = vm.devList) (paddr : BitVec 64) (cached : Bool) :
    vm'.ramSlot paddr cached = vm.ramSlot paddr cached := by
  simp only [Vm.ramSlot, devLookup_congr h]

/-- The bytes of a range of physical addresses, if it lies in the RAM. -/
def Vm.cells (vm : Vm W) (paddr : BitVec 64) : Nat → Option (List Cell)
  | 0 => some []
  | n + 1 =>
    match vm.ramSlot paddr false, vm.cells (paddr + 1) n with
    | some slot, some cells => some ((slot, paddr.setWidth 12) :: cells)
    | _, _ => none

theorem cells_congr (h : vm'.devList = vm.devList) (paddr : BitVec 64) (n : Nat) :
    vm'.cells paddr n = vm.cells paddr n := by
  induction n generalizing paddr with
  | zero => rfl
  | succ n ih => simp only [Vm.cells, ih, ramSlot_congr h]

def WholePages (vm : Vm W) : Prop :=
  ∀ dev ∈ vm.devList, dev.has vdeviceFlagSparse → dev.hostAddr ≠ 0 →
    dev.physAddr.setWidth 12 = 0#12 ∧ ∀ paddr, devLookup vm paddr false = some dev →
      ∀ p, pageNumber p = pageNumber paddr → devLookup vm p false = some dev

theorem page_eq {dev : VDevice} {p paddr : BitVec 64} (hbase : dev.physAddr.setWidth 12 = 0#12)
    (h : pageNumber p = pageNumber paddr) : dev.page p = dev.page paddr := by
  have hnat := congrArg BitVec.toNat h
  have hz := congrArg BitVec.toNat hbase
  have hzero : (0#12).toNat = 0 := rfl
  rw [toNat_pageNumber, toNat_pageNumber] at hnat
  rw [BitVec.toNat_setWidth, hzero] at hz
  have hp := p.isLt
  have hq := paddr.isLt
  have ha := dev.physAddr.isLt
  refine congrArg (BitVec.setWidth 32) (BitVec.eq_of_toNat_eq ?_)
  rw [BitVec.toNat_ushiftRight, BitVec.toNat_ushiftRight, Nat.shiftRight_eq_div_pow,
    Nat.shiftRight_eq_div_pow, BitVec.toNat_sub, BitVec.toNat_sub, vmPageShift]
  omega

theorem ramSlot_page (whole : WholePages vm) {p paddr : BitVec 64} {slot : Slot}
    (h : vm.ramSlot paddr false = some slot) (hp : pageNumber p = pageNumber paddr) :
    vm.ramSlot p false = some slot := by
  obtain ⟨dev, hdev, hsp, hz, rfl⟩ := ramSlot_eq_some.mp h
  obtain ⟨hbase, hall⟩ := whole dev (devLookup_mem hdev) hsp hz
  refine ramSlot_eq_some.mpr ⟨dev, hall paddr hdev p hp, hsp, hz, ?_⟩
  rw [VDevice.slot, VDevice.slot, page_eq hbase hp]

theorem cells_page (whole : WholePages vm) {paddr : BitVec 64} {slot : Slot} {n : Nat}
    (h : vm.ramSlot paddr false = some slot) (hn : (paddr.setWidth 12).toNat + n ≤ 4096) :
    vm.cells paddr n = some (pageCells slot (paddr.setWidth 12) n) := by
  induction n generalizing paddr with
  | zero => rfl
  | succ n ih =>
    cases n with
    | zero => simp only [Vm.cells, h, pageCells]
    | succ n =>
      rw [BitVec.toNat_setWidth] at hn
      have hlt := paddr.isLt
      have hone : (1 : BitVec 64).toNat = 1 := rfl
      have hone' : (1 : BitVec 12).toNat = 1 := rfl
      have hnext : (paddr + 1).setWidth 12 = paddr.setWidth 12 + 1 := by
        apply BitVec.eq_of_toNat_eq
        rw [BitVec.toNat_setWidth, BitVec.toNat_add, BitVec.toNat_add, BitVec.toNat_setWidth,
          hone, hone']
        omega
      have hpage : pageNumber (paddr + 1) = pageNumber paddr := by
        apply BitVec.eq_of_toNat_eq
        rw [toNat_pageNumber, toNat_pageNumber, BitVec.toNat_add, hone]
        omega
      have hrest := @ih (paddr + 1) (ramSlot_page whole h hpage) (by
        rw [BitVec.toNat_setWidth, BitVec.toNat_add, hone]
        omega)
      rw [Vm.cells, hrest, h, hnext]
      rfl

theorem cells_append {paddr : BitVec 64} {m n : Nat} {cells : List Cell}
    (h : vm.cells paddr (m + n) = some cells) : ∃ front back, vm.cells paddr m = some front ∧
      vm.cells (paddr + BitVec.ofNat 64 m) n = some back ∧ cells = front ++ back := by
  induction m generalizing paddr cells with
  | zero =>
    rw [Nat.zero_add] at h
    exact ⟨[], cells, rfl, by rw [← h]; simp, rfl⟩
  | succ m ih =>
    rw [Nat.add_right_comm, Vm.cells] at h
    split at h
    · rename_i slot rest hslot hrest
      cases h
      obtain ⟨front, back, hf, hb, rfl⟩ := ih hrest
      refine ⟨(slot, paddr.setWidth 12) :: front, back, ?_, ?_, rfl⟩
      · rw [Vm.cells, hslot, hf]
      · rw [← ofNat_succ_add, hb]
    · cases h

theorem ramSlot_of_cells {paddr : BitVec 64} {n : Nat} {cells : List Cell}
    (h : vm.cells paddr (n + 1) = some cells) : ∃ slot, vm.ramSlot paddr false = some slot := by
  rw [Vm.cells] at h
  split at h
  · exact ⟨_, ‹_›⟩
  · cases h

theorem cells_chunk (whole : WholePages vm) {paddr : BitVec 64} {r n : Nat} {cells : List Cell}
    (h : vm.cells paddr (r + n) = some cells) (hr : 0 < r)
    (hpage : (paddr.setWidth 12).toNat + r ≤ 4096) : ∃ slot back,
      vm.ramSlot paddr false = some slot ∧ vm.cells (paddr + BitVec.ofNat 64 r) n = some back ∧
      cells = pageCells slot (paddr.setWidth 12) r ++ back := by
  obtain ⟨front, back, hf, hb, rfl⟩ := cells_append h
  obtain ⟨r', rfl⟩ : ∃ r', r = r' + 1 := ⟨r - 1, by omega⟩
  obtain ⟨slot, hslot⟩ := ramSlot_of_cells hf
  rw [cells_page whole hslot hpage] at hf
  cases hf
  exact ⟨slot, back, hslot, hb, rfl⟩

theorem Ram.write_append (ram : Ram) {front back : List Cell} {bytes bytes' : List Byte}
    (h : front.length = bytes.length) :
    ram.write (front ++ back) (bytes ++ bytes') = (ram.write front bytes).write back bytes' := by
  induction front generalizing ram bytes with
  | nil =>
    cases bytes with
    | nil => rfl
    | cons b bytes => cases h
  | cons c front ih =>
    cases bytes with
    | nil => cases h
    | cons b bytes => exact ih (ram.poke c b) (Nat.succ.inj h)

theorem Ram.read_write (ram : Ram) {cells cells' : List Cell} (bytes : List Byte)
    (h : ∀ c ∈ cells', c ∉ cells) : (ram.write cells bytes).read cells' = ram.read cells' := by
  induction cells generalizing ram bytes with
  | nil => rfl
  | cons c cells ih =>
    cases bytes with
    | nil => rfl
    | cons b bytes =>
      rw [Ram.write, ih _ _ fun c' hc' hmem => h c' hc' (List.mem_cons_of_mem _ hmem)]
      refine List.map_congr_left fun c' hc' => ?_
      have hne : c' ≠ c := fun heq => h c' hc' (heq ▸ List.mem_cons_self)
      simp only [Ram.poke, Function.update_apply]
      by_cases hslot : c'.1 = c.1
      · have hoff : c'.2 ≠ c.2 := fun hoff => hne (Prod.ext hslot hoff)
        rw [if_pos hslot, Function.update_of_ne hoff, hslot]
      · rw [if_neg hslot]

theorem hostOf_kept (h : RamStep vm₀ vm vm' written ram) (ok : RamOk vm₀ vm) {paddr : BitVec 64}
    {cached : Bool} (hs : ∀ slot, vm.slotOf paddr cached = some slot → written slot →
      vm.pages.own slot = true) : vm'.hostOf paddr cached = vm.hostOf paddr cached :=
  hostOf_congr (h.ok.devList.trans ok.devList.symm) fun slot hslot => h.same slot (hs slot hslot)

theorem slotOf_of_ramSlot {paddr : BitVec 64} {cached : Bool} {slot : Slot}
    (h : vm.ramSlot paddr cached = some slot) : vm.slotOf paddr cached = some slot := by
  obtain ⟨dev, hdev, hsp, -, rfl⟩ := ramSlot_eq_some.mp h
  exact slotOf_sparse hdev hsp

theorem hostOf_ram {paddr : BitVec 64} {cached : Bool} {slot : Slot}
    (h : vm.ramSlot paddr cached = some slot) :
    vm.hostOf paddr cached = some (vm.addr slot 0, !vm.pages.own slot) := by
  obtain ⟨dev, hdev, hsp, hz, rfl⟩ := ramSlot_eq_some.mp h
  have hpte : vm.pte dev paddr &&& vmPageMask = vm.addr (dev.slot paddr) 0 := and_vmPageMask _
  have hown : vm.pages.own (dev.slot paddr) = isDirty (vm.pte dev paddr) := rfl
  simp only [Vm.hostOf, hdev, hsp, hz, if_true, if_false, hpte, hown]
  cases isDirty (vm.pte dev paddr) <;> rfl

end Dynamips
