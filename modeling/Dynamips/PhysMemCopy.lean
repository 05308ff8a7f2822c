import Dynamips.PhysMem

/-! Copies of a range of the physical memory, against the accesses of one, two and
four bytes that they should consist of. -/
set_option autoImplicit false

namespace Dynamips

variable {W : Type}

def VDevice.mapped (dev : VDevice) : Bool :=
  dev.has vdeviceFlagSparse || (dev.hostAddr != 0 && !dev.has vdeviceFlagNoMtsMmap)

def Vm.mapped (vm : Vm W) (paddr : BitVec 64) : Bool :=
  (devLookup vm paddr false).any VDevice.mapped

abbrev Piece := BitVec 64 × Nat

def InDevice (vm : Vm W) (paddr : BitVec 64) (n : Nat) : Prop :=
  ∀ i < n, devLookup vm (paddr + BitVec.ofNat 64 i) false = devLookup vm paddr false

instance (vm : Vm W) (paddr : BitVec 64) (n : Nat) : Decidable (InDevice vm paddr n) :=
  inferInstanceAs (Decidable (∀ i < n, _))

def readPiece (handler : DevHandler W) (vm : Vm W) (p : Piece) : Option (List Byte × Vm W) :=
  (physmemCopyWordFromVm p.2 handler vm p.1).map fun (val, vm) => (storeBytes val p.2, vm)

def writePiece (handler : DevHandler W) (vm : Vm W) (p : Piece) (bytes : List Byte) :
    Option (Vm W) :=
  physmemCopyWordToVm p.2 handler vm p.1 (loadValue bytes)

def readPieces (handler : DevHandler W) : List Piece → Vm W → Option (List Byte × Vm W)
  | [], vm => some ([], vm)
  | p :: pieces, vm =>
    (readPiece handler vm p).bind fun (bytes, vm) =>
      (readPieces handler pieces vm).map fun (rest, vm) => (bytes ++ rest, vm)

def writePieces (handler : DevHandler W) : List Piece → List Byte → Vm W → Option (Vm W)
  | [], _, vm => some vm
  | p :: pieces, buf, vm =>
    (writePiece handler vm p (buf.take p.2)).bind (writePieces handler pieces (buf.drop p.2))

/-- The accesses are those to `len` bytes at consecutive addresses, each in one device. -/
def Tiles (vm : Vm W) : BitVec 64 → Nat → List Piece → Prop
  | _, len, [] => len = 0
  | paddr, len, p :: pieces =>
    p.1 = paddr ∧ (p.2 = 1 ∨ p.2 = 2 ∨ p.2 = 4) ∧ p.2 ≤ len ∧ InDevice vm paddr p.2 ∧
      Tiles vm (paddr + BitVec.ofNat 64 p.2) (len - p.2) pieces

def SparseOk (vm : Vm W) : Prop :=
  ∀ dev ∈ vm.devList, dev.has vdeviceFlagSparse → ∀ paddr,
    isDirty (vm.pte dev paddr) ∨ dev.hostAddr ≠ 0 → vm.pte dev paddr &&& vmPageMask ≠ 0

structure SameBoard (vm₀ vm : Vm W) : Prop where
  devList : vm.devList = vm₀.devList
  sparse : SparseOk vm

def KeepsBoard (handler : DevHandler W) : Prop :=
  ∀ vm₀ vm dev offset n op data, SameBoard vm₀ vm →
    SameBoard vm₀ (handler dev offset n op data vm).2.2

/-- A page with a byte of a mapped device is a page of that device. -/
def PagesWhole (vm : Vm W) : Prop :=
  ∀ dev ∈ vm.devList, dev.mapped → dev.physAddr.setWidth 12 = 0#12 ∧
    ∀ paddr, devLookup vm paddr false = some dev →
      ∀ p, pageNumber p = pageNumber paddr → devLookup vm p false = some dev

def stepLen (vm : Vm W) (paddr : BitVec 64) (len : Nat) : Nat :=
  if vm.mapped paddr then pageChunk paddr len else min len 4

/-- A step where there is no host mapping is not one of three bytes and stays in its device. -/
def StepFits (vm : Vm W) (paddr : BitVec 64) (len : Nat) : Prop :=
  vm.mapped paddr ∨ (min len 4 ≠ 3 ∧ InDevice vm paddr (min len 4))

instance (vm : Vm W) (paddr : BitVec 64) (len : Nat) : Decidable (StepFits vm paddr len) :=
  inferInstanceAs (Decidable (_ ∨ _))

def StepsFit (vm : Vm W) : Nat → BitVec 64 → Nat → Prop
  | 0, _, _ => True
  | fuel + 1, paddr, len => len = 0 ∨ (StepFits vm paddr len ∧
      StepsFit vm fuel (paddr + BitVec.ofNat 64 (stepLen vm paddr len))
        (len - stepLen vm paddr len))

def CopyFits (vm : Vm W) (paddr : BitVec 64) (len : Nat) : Prop := StepsFit vm len paddr len

variable {vm₀ vm vm' : Vm W} {handler : DevHandler W} {paddr data : BitVec 64} {n : Nat}
  {op : MtsOp}

def Vm.pagePtr (vm : Vm W) (paddr : BitVec 64) (op : MtsOp) : Option (HostAddr × Vm W) :=
  (devLookup vm paddr false).bind fun dev =>
    if dev.has vdeviceFlagSparse then
      (devSparseGetHostAddr vm dev paddr op).map fun (ptr, _, vm) =>
        (ptr + (pageOffset paddr).setWidth 64, vm)
    else some (dev.hostAddr + (paddr - dev.physAddr), vm)

theorem mapped_eq_true (h : vm.mapped paddr) :
    ∃ dev, devLookup vm paddr false = some dev ∧ dev.mapped := by
  simp only [Vm.mapped, Option.any_eq_true] at h
  exact h

theorem sparse_nonnull (ok : SparseOk vm) {dev : VDevice} {ptr : HostAddr} {cow : Bool}
    (hdev : devLookup vm paddr false = some dev) (hsp : dev.has vdeviceFlagSparse)
    (h : devSparseGetHostAddr vm dev paddr op = some (ptr, cow, vm')) : ptr ≠ 0 := by
  obtain ⟨hd, rfl, -⟩ | ⟨-, hz, -, rfl, -⟩ | ⟨-, -, -, page, rfl, -⟩ :=
    devSparseGetHostAddr_cases h
  · exact ok dev (devLookup_mem hdev) hsp paddr (Or.inl hd)
  · exact ok dev (devLookup_mem hdev) hsp paddr (Or.inr hz)
  · exact page.nonnull

theorem getHptr_mapped (ok : SparseOk vm) (h : vm.mapped paddr) :
    physmemGetHptr handler vm paddr n op data =
      (vm.pagePtr paddr op).map fun (ptr, vm') => (some ptr, data, vm') := by
  obtain ⟨dev, hdev, hmapped⟩ := mapped_eq_true h
  simp only [physmemGetHptr, Vm.pagePtr, hdev, Option.bind_some]
  by_cases hsp : dev.has vdeviceFlagSparse
  · simp only [hsp, if_true, Option.map_map]
    cases hget : devSparseGetHostAddr vm dev paddr op with
    | none => rfl
    | some res =>
      obtain ⟨ptr, cow, vm'⟩ := res
      have hne : ptr ≠ 0 := sparse_nonnull ok hdev hsp hget
      simp only [Option.map_some, Function.comp_apply, hne, if_false]
  · have hdirect : dev.hostAddr ≠ 0 ∧ ¬ dev.has vdeviceFlagNoMtsMmap := by
      simpa [VDevice.mapped, hsp] using hmapped
    simp only [hsp, Bool.false_eq_true, if_false, if_pos hdirect, Option.map_some]

theorem getHptr_unmapped (h : vm.mapped paddr = false) :
    physmemGetHptr handler vm paddr 0 op data = some (none, data, vm) := by
  cases hdev : devLookup vm paddr false with
  | none => simp only [physmemGetHptr, hdev]
  | some dev =>
    simp only [Vm.mapped, hdev, Option.any_some, VDevice.mapped, Bool.or_eq_false_iff] at h
    have hdirect : ¬ (dev.hostAddr ≠ 0 ∧ ¬ dev.has vdeviceFlagNoMtsMmap) := by simpa using h.2
    simp only [physmemGetHptr, hdev, h.1, hdirect, if_false, if_true, Bool.false_eq_true]

theorem SameBoard.mapped (h : SameBoard vm₀ vm) : vm.mapped paddr = vm₀.mapped paddr := by
  rw [Vm.mapped, Vm.mapped, devLookup_congr h.devList]

theorem SparseOk.congr (ok : SparseOk vm) (hd : vm'.devList = vm.devList)
    (hs : vm'.sparseMap = vm.sparseMap) : SparseOk vm' := by
  intro dev hmem hsp p
  simp only [Vm.pte, hs]
  exact ok dev (hd ▸ hmem) hsp p

theorem setPte_eq_or (vm : Vm W) (dev dev' : VDevice) (p : BitVec 64) (ptr : HostAddr) :
    (vm.setPte dev paddr ptr).pte dev' p = ptr ∨
      (vm.setPte dev paddr ptr).pte dev' p = vm.pte dev' p := by
  by_cases h : dev'.sparseMap = dev.sparseMap ∧ dev'.page p = dev.page paddr
  · left
    simp [Vm.pte, Vm.setPte, h.1, h.2]
  · right
    exact pte_setPte_ne vm ptr (by tauto)

theorem sparse_board (h : SameBoard vm₀ vm) {dev : VDevice} {ptr : HostAddr} {cow : Bool}
    (hget : devSparseGetHostAddr vm dev paddr op = some (ptr, cow, vm')) : SameBoard vm₀ vm' := by
  obtain ⟨-, -, -, rfl⟩ | ⟨-, -, -, -, -, rfl⟩ | ⟨-, -, hlist, page, -, hmap⟩ :=
    devSparseGetHostAddr_cases hget
  · exact h
  · exact h
  · constructor
    · rw [hlist, h.devList]
    · intro dev' hmem hsp p hcase
      have hpte : vm'.pte dev' p =
          (vm.setPte dev paddr (page.ptr ||| vdevicePteDirty)).pte dev' p := by
        rw [Vm.pte, Vm.pte, hmap]
      cases setPte_eq_or vm dev dev' p (page.ptr ||| vdevicePteDirty) with
      | inl hnew =>
        rw [hpte, hnew, mask_or_dirty]
        exact page.nonnull
      | inr hold =>
        rw [hpte, hold] at hcase ⊢
        exact h.sparse dev' (hlist ▸ hmem) hsp p hcase

theorem SameBoard.write (h : SameBoard vm₀ vm) (mem : HostAddr → Byte) :
    SameBoard vm₀ { vm with mem := mem } := ⟨h.devList, h.sparse.congr rfl rfl⟩

theorem pageOffset_sub {p : BitVec 64} (h : pageNumber p = pageNumber paddr) :
    (pageOffset p).setWidth 64 = (pageOffset paddr).setWidth 64 + (p - paddr) := by
  have hnat := congrArg BitVec.toNat h
  rw [toNat_pageNumber, toNat_pageNumber] at hnat
  have hp := p.isLt
  have hq := paddr.isLt
  apply BitVec.eq_of_toNat_eq
  simp only [pageOffset, BitVec.toNat_add, BitVec.toNat_sub, BitVec.toNat_setWidth]
  omega

theorem pagePtr_page (whole : PagesWhole vm₀) (h : SameBoard vm₀ vm) {ptr : HostAddr}
    (hmapped : vm.mapped paddr) (hptr : vm.pagePtr paddr op = some (ptr, vm')) :
    SameBoard vm₀ vm' ∧ ∀ p, pageNumber p = pageNumber paddr → ∀ mem,
      vm'.mapped p ∧ Vm.pagePtr { vm' with mem := mem } p op =
        some (ptr + (p - paddr), { vm' with mem := mem }) := by
  obtain ⟨dev, hdev, hm⟩ := mapped_eq_true hmapped
  have hdev₀ : devLookup vm₀ paddr false = some dev := by rw [← devLookup_congr h.devList, hdev]
  obtain ⟨hbase, hall⟩ := whole dev (devLookup_mem hdev₀) hm
  simp only [Vm.pagePtr, hdev, Option.bind_some] at hptr
  by_cases hsp : dev.has vdeviceFlagSparse
  · simp only [hsp, if_true, Option.map_eq_some_iff, Prod.mk.injEq] at hptr
    obtain ⟨⟨host, cow, vm''⟩, hget, rfl, rfl⟩ := hptr
    obtain ⟨hlist, hhost, -⟩ := devSparseGetHostAddr_hostOf hdev hsp hget
    have hboard := sparse_board h hget
    refine ⟨hboard, fun p hp mem => ?_⟩
    have hdev' : ∀ mem, devLookup { vm'' with mem := mem } p false = some dev := by
      intro mem
      rw [← hall paddr hdev₀ p hp]
      exact devLookup_congr hboard.devList
    have hold : devLookup vm'' paddr false = some dev := by rw [devLookup_congr hlist, hdev]
    have hhost' : Vm.hostOf { vm'' with mem := mem } p false = some (host, cow) := by
      rw [← hhost]
      simp only [Vm.hostOf, hdev' mem, hold, hsp, if_true, Vm.pte, page_eq hbase hp]
      rfl
    have hcow : op = .write → cow = false := by
      obtain ⟨-, -, hc, -⟩ | ⟨-, -, hr, -⟩ | ⟨-, hc, -⟩ := devSparseGetHostAddr_cases hget
      · exact fun _ => hc
      · intro hw
        rw [hr] at hw
        cases hw
      · exact fun _ => hc
    constructor
    · simp only [Vm.mapped, hdev' vm''.mem, Option.any_some, hm]
    · simp only [Vm.pagePtr, hdev' mem, Option.bind_some, hsp, if_true,
        devSparseGetHostAddr_of_hostOf (hdev' mem) hsp hhost' hcow, Option.map_some,
        pageOffset_sub hp, BitVec.add_assoc]
  · simp only [hsp, Bool.false_eq_true, if_false, Option.some.injEq, Prod.mk.injEq] at hptr
    obtain ⟨rfl, rfl⟩ := hptr
    refine ⟨h, fun p hp mem => ?_⟩
    have hdev' : ∀ mem, devLookup { vm with mem := mem } p false = some dev := by
      intro mem
      rw [← hall paddr hdev₀ p hp]
      exact devLookup_congr h.devList
    have hsub : p - dev.physAddr = paddr - dev.physAddr + (p - paddr) := by bv_omega
    constructor
    · simp only [Vm.mapped, hdev' vm.mem, Option.any_some, hm]
    · simp only [Vm.pagePtr, hdev' mem, Option.bind_some, hsp, Bool.false_eq_true, if_false, hsub,
        BitVec.add_assoc]

def bytePieces (paddr : BitVec 64) : Nat → List Piece
  | 0 => []
  | n + 1 => (paddr, 1) :: bytePieces (paddr + 1) n

theorem readPiece_byte (ok : SparseOk vm) (h : vm.mapped paddr) :
    readPiece handler vm (paddr, 1) =
      (vm.pagePtr paddr .read).map fun (ptr, vm') => ([vm'.mem ptr], vm') := by
  simp only [readPiece, physmemCopyWordFromVm, getHptr_mapped ok h, Option.map_map]
  cases vm.pagePtr paddr .read with
  | none => rfl
  | some res => simp [Mips64.vmLoad, storeBytes]

theorem writePiece_byte (ok : SparseOk vm) (h : vm.mapped paddr) (b : Byte) :
    writePiece handler vm (paddr, 1) [b] =
      (vm.pagePtr paddr .write).map fun (ptr, vm') =>
        { vm' with mem := Function.update vm'.mem ptr b } := by
  simp only [writePiece, physmemCopyWordToVm, getHptr_mapped ok h, Option.map_map]
  cases vm.pagePtr paddr .write with
  | none => rfl
  | some res => simp [loadValue, storeBytes, hostWrite]

/-- The bytes from a host address on lie behind the addresses from a physical one on. -/
def Contiguous (vm : Vm W) (ptr : HostAddr) (paddr : BitVec 64) (n : Nat) (op : MtsOp) : Prop :=
  ∀ i < n, vm.mapped (paddr + BitVec.ofNat 64 i) ∧ ∀ mem,
    Vm.pagePtr { vm with mem := mem } (paddr + BitVec.ofNat 64 i) op =
      some (ptr + BitVec.ofNat 64 i, { vm with mem := mem })

theorem Contiguous.tail {ptr : HostAddr} (h : Contiguous vm ptr paddr (n + 1) op) :
    Contiguous vm (ptr + 1) (paddr + 1) n op := by
  intro i hi
  simpa only [ofNat_succ_add] using h (i + 1) (by omega)

theorem readPieces_bytes (ok : SparseOk vm) {ptr : HostAddr}
    (h : Contiguous vm ptr paddr n .read) :
    readPieces handler (bytePieces paddr n) vm = some (hostRead vm.mem ptr n, vm) := by
  induction n generalizing paddr ptr with
  | zero => rfl
  | succ n ih =>
    obtain ⟨hmapped, hptr⟩ := h 0 (by omega)
    simp only [BitVec.add_zero] at hmapped hptr
    simp only [bytePieces, readPieces, readPiece_byte ok hmapped, hptr vm.mem, Option.map_some,
      Option.bind_some, ih h.tail, hostRead, List.singleton_append]

theorem writePieces_bytes (ok : SparseOk vm) {ptr : HostAddr} {buf : List Byte}
    (h : Contiguous vm ptr paddr buf.length .write) (mem : HostAddr → Byte) :
    writePieces handler (bytePieces paddr buf.length) buf { vm with mem := mem } =
      some { vm with mem := hostWrite mem ptr buf } := by
  induction buf generalizing paddr ptr mem with
  | nil => rfl
  | cons b buf ih =>
    obtain ⟨hmapped, hptr⟩ := h 0 (by rw [List.length_cons]; omega)
    simp only [BitVec.add_zero] at hmapped hptr
    have hok : SparseOk { vm with mem := mem } := ok.congr rfl rfl
    have hfirst := @writePiece_byte _ _ handler _ hok hmapped b
    rw [hptr mem] at hfirst
    rw [List.length_cons, bytePieces, writePieces, List.take_succ_cons, List.take_zero, hfirst]
    simp only [Option.map_some, Option.bind_some, List.drop_succ_cons, List.drop_zero]
    exact ih h.tail _

theorem pageNumber_add {i : Nat} (h : (pageOffset paddr).toNat + i < 4096) :
    pageNumber (paddr + BitVec.ofNat 64 i) = pageNumber paddr := by
  have hp := paddr.isLt
  rw [pageOffset, BitVec.toNat_setWidth] at h
  apply BitVec.eq_of_toNat_eq
  rw [toNat_pageNumber, toNat_pageNumber, BitVec.toNat_add, BitVec.toNat_ofNat]
  omega

theorem contiguous_page (whole : PagesWhole vm₀) (h : SameBoard vm₀ vm) {ptr : HostAddr}
    (hmapped : vm.mapped paddr) (hptr : vm.pagePtr paddr op = some (ptr, vm'))
    (hn : (pageOffset paddr).toNat + n ≤ 4096) : Contiguous vm' ptr paddr n op := by
  intro i hi
  obtain ⟨-, hpage⟩ := pagePtr_page whole h hmapped hptr
  have hnumber := @pageNumber_add paddr i (by omega)
  have hsub : paddr + BitVec.ofNat 64 i - paddr = BitVec.ofNat 64 i := by
    rw [BitVec.add_comm, BitVec.add_sub_cancel]
  exact ⟨(hpage _ hnumber vm'.mem).1, fun mem => by rw [(hpage _ hnumber mem).2, hsub]⟩

theorem readPieces_chunk (whole : PagesWhole vm₀) (h : SameBoard vm₀ vm)
    (hmapped : vm.mapped paddr) (hpos : 0 < n) (hn : (pageOffset paddr).toNat + n ≤ 4096) :
    readPieces handler (bytePieces paddr n) vm =
      (vm.pagePtr paddr .read).map fun (ptr, vm') => (hostRead vm'.mem ptr n, vm') := by
  obtain ⟨n, rfl⟩ : ∃ n', n = n' + 1 := ⟨n - 1, by omega⟩
  rw [bytePieces, readPieces, readPiece_byte h.sparse hmapped]
  cases hptr : vm.pagePtr paddr .read with
  | none => rfl
  | some res =>
    obtain ⟨ptr, vm'⟩ := res
    have hboard := (pagePtr_page whole h hmapped hptr).1
    have hrest := (contiguous_page whole h hmapped hptr hn).tail
    simp only [Option.map_some, Option.bind_some, readPieces_bytes hboard.sparse hrest, hostRead,
      List.singleton_append]

theorem writePieces_chunk (whole : PagesWhole vm₀) (h : SameBoard vm₀ vm) {buf : List Byte}
    (hmapped : vm.mapped paddr) (hpos : 0 < buf.length)
    (hn : (pageOffset paddr).toNat + buf.length ≤ 4096) :
    writePieces handler (bytePieces paddr buf.length) buf vm =
      (vm.pagePtr paddr .write).map fun (ptr, vm') =>
        { vm' with mem := hostWrite vm'.mem ptr buf } := by
  cases buf with
  | nil => cases hpos
  | cons b buf =>
    rw [List.length_cons] at hn
    rw [List.length_cons, bytePieces, writePieces, List.take_succ_cons, List.take_zero,
      writePiece_byte h.sparse hmapped]
    cases hptr : vm.pagePtr paddr .write with
    | none => rfl
    | some res =>
      obtain ⟨ptr, vm'⟩ := res
      have hboard := (pagePtr_page whole h hmapped hptr).1
      have hrest := (contiguous_page whole h hmapped hptr hn).tail
      simp only [Option.map_some, Option.bind_some, List.drop_succ_cons, List.drop_zero]
      exact writePieces_bytes hboard.sparse hrest _

def stepPieces (vm : Vm W) (paddr : BitVec 64) (len : Nat) : List Piece :=
  if vm.mapped paddr then bytePieces paddr (stepLen vm paddr len)
  else [(paddr, stepLen vm paddr len)]

def copyPieces (vm : Vm W) : Nat → BitVec 64 → Nat → List Piece
  | 0, _, _ => []
  | fuel + 1, paddr, len =>
    if len = 0 then []
    else stepPieces vm paddr len ++ copyPieces vm fuel
      (paddr + BitVec.ofNat 64 (stepLen vm paddr len)) (len - stepLen vm paddr len)

theorem readPieces_append (front back : List Piece) (vm : Vm W) :
    readPieces handler (front ++ back) vm =
      (readPieces handler front vm).bind fun (bytes, vm) =>
        (readPieces handler back vm).map fun (rest, vm) => (bytes ++ rest, vm) := by
  induction front generalizing vm with
  | nil => cases h : readPieces handler back vm <;> simp [readPieces, h]
  | cons p front ih =>
    simp only [List.cons_append, readPieces]
    cases readPiece handler vm p with
    | none => rfl
    | some res =>
      simp only [Option.bind_some, ih]
      cases readPieces handler front res.2 with
      | none => rfl
      | some res' =>
        simp only [Option.bind_some, Option.map_some, Option.map_map]
        congr 1
        funext rest
        simp

def span : List Piece → Nat
  | [] => 0
  | p :: pieces => p.2 + span pieces

theorem writePieces_append (front back : List Piece) (buf : List Byte) (vm : Vm W) :
    writePieces handler (front ++ back) buf vm =
      (writePieces handler front (buf.take (span front)) vm).bind
        (writePieces handler back (buf.drop (span front))) := by
  induction front generalizing vm buf with
  | nil => rfl
  | cons p front ih =>
    have htake : (buf.take (p.2 + span front)).take p.2 = buf.take p.2 := by
      rw [List.take_take, Nat.min_eq_left (by omega)]
    have hdrop : (buf.take (p.2 + span front)).drop p.2 = (buf.drop p.2).take (span front) := by
      rw [List.drop_take, Nat.add_sub_cancel_left]
    simp only [List.cons_append, writePieces, span, htake, hdrop]
    cases writePiece handler vm p (buf.take p.2) with
    | none => rfl
    | some vm' => simp only [Option.bind_some, ih, List.drop_drop]

@[simp] theorem span_bytePieces (paddr : BitVec 64) (n : Nat) : span (bytePieces paddr n) = n := by
  induction n generalizing paddr with
  | zero => rfl
  | succ n ih => rw [bytePieces, span, ih, Nat.add_comm]

@[simp] theorem span_stepPieces (vm : Vm W) (paddr : BitVec 64) (len : Nat) :
    span (stepPieces vm paddr len) = stepLen vm paddr len := by
  rw [stepPieces]
  split
  · exact span_bytePieces _ _
  · simp [span]

theorem stepLen_le (vm : Vm W) (paddr : BitVec 64) (len : Nat) : stepLen vm paddr len ≤ len := by
  rw [stepLen]
  split
  · exact pageChunk_le _ _
  · exact Nat.min_le_left _ _

theorem stepLen_pos {len : Nat} (h : 0 < len) : 0 < stepLen vm paddr len := by
  rw [stepLen]
  split
  · exact pageChunk_pos h
  · omega

theorem stepLen_congr (h : SameBoard vm₀ vm) (len : Nat) :
    stepLen vm paddr len = stepLen vm₀ paddr len := by rw [stepLen, stepLen, h.mapped]

theorem copyFromVm_step_eq (whole : PagesWhole vm₀) (h : SameBoard vm₀ vm) {fuel : Nat}
    {buf : List Byte} (hbuf : 0 < buf.length) (hfit : StepFits vm₀ paddr buf.length) :
    copyFromVm handler (fuel + 1) vm buf paddr =
      (readPieces handler (stepPieces vm₀ paddr buf.length) vm).bind fun (bytes, vm) =>
        (copyFromVm handler fuel vm (buf.drop (stepLen vm₀ paddr buf.length))
          (paddr + BitVec.ofNat 64 (stepLen vm₀ paddr buf.length))).map
            fun (rest, vm) => (bytes ++ rest, vm) := by
  have hne : buf ≠ [] := List.length_pos_iff.mp hbuf
  rw [copyFromVm, if_neg hne, ← stepLen_congr h, stepPieces, ← h.mapped]
  by_cases hmapped : vm.mapped paddr
  · have hchunk := @readPieces_chunk _ _ _ handler paddr _ whole h hmapped
      (@pageChunk_pos paddr _ hbuf) (pageOffset_add_chunk _ _)
    rw [getHptr_mapped h.sparse hmapped, if_pos hmapped, ← stepLen_congr h, stepLen,
      if_pos hmapped, hchunk]
    cases vm.pagePtr paddr .read <;> rfl
  · have hlen : (buf.take (min buf.length 4)).length = min buf.length 4 := by simp
    have hthree := (hfit.resolve_left (by rwa [← h.mapped])).1
    rw [getHptr_unmapped (Bool.eq_false_iff.mpr hmapped), if_neg hmapped, ← stepLen_congr h,
      stepLen, if_neg hmapped]
    simp only [unmappedFromVm, hlen, hthree, if_false, readPieces, readPiece]
    cases physmemCopyWordFromVm (min buf.length 4) handler vm paddr <;> simp

theorem copyToVm_step_eq (whole : PagesWhole vm₀) (h : SameBoard vm₀ vm) {fuel : Nat}
    {buf : List Byte} (hbuf : 0 < buf.length) (hfit : StepFits vm₀ paddr buf.length) :
    copyToVm handler (fuel + 1) vm buf paddr =
      (writePieces handler (stepPieces vm₀ paddr buf.length)
        (buf.take (stepLen vm₀ paddr buf.length)) vm).bind fun vm =>
          copyToVm handler fuel vm (buf.drop (stepLen vm₀ paddr buf.length))
            (paddr + BitVec.ofNat 64 (stepLen vm₀ paddr buf.length)) := by
  have hne : buf ≠ [] := List.length_pos_iff.mp hbuf
  have htake : (buf.take (stepLen vm₀ paddr buf.length)).length = stepLen vm₀ paddr buf.length :=
    List.length_take_of_le (stepLen_le _ _ _)
  rw [copyToVm, if_neg hne, stepPieces, ← h.mapped]
  by_cases hmapped : vm.mapped paddr
  · have hstep : stepLen vm₀ paddr buf.length = pageChunk paddr buf.length := by
      rw [← stepLen_congr h, stepLen, if_pos hmapped]
    rw [hstep] at htake ⊢
    have hchunk := @writePieces_chunk _ _ _ handler paddr whole h
      (buf.take (pageChunk paddr buf.length)) hmapped (by rw [htake]; exact pageChunk_pos hbuf)
      (by rw [htake]; exact pageOffset_add_chunk _ _)
    rw [htake] at hchunk
    rw [getHptr_mapped h.sparse hmapped, if_pos hmapped, hchunk]
    cases vm.pagePtr paddr .write <;> rfl
  · have hstep : stepLen vm₀ paddr buf.length = min buf.length 4 := by
      rw [← stepLen_congr h, stepLen, if_neg hmapped]
    have hthree := (hfit.resolve_left (by rwa [← h.mapped])).1
    rw [hstep] at htake ⊢
    rw [getHptr_unmapped (Bool.eq_false_iff.mpr hmapped), if_neg hmapped]
    simp only [unmappedToVm, htake, hthree, if_false, writePieces, writePiece, List.take_take,
      Nat.min_self]
    cases physmemCopyWordToVm (min buf.length 4) handler vm paddr
      (loadValue (buf.take (min buf.length 4))) <;> rfl

theorem getHptr_board (keeps : KeepsBoard handler) (h : SameBoard vm₀ vm) {res}
    (hget : physmemGetHptr handler vm paddr n op data = some res) : SameBoard vm₀ res.2.2 := by
  simp only [physmemGetHptr] at hget
  split at hget
  · cases hget
    exact h
  · rename_i dev hdev
    split at hget
    · rw [Option.map_eq_some_iff] at hget
      obtain ⟨⟨ptr, cow, vm'⟩, hsparse, rfl⟩ := hget
      exact sparse_board h hsparse
    · split at hget
      · cases hget
        exact h
      · split at hget
        · cases hget
          exact h
        · cases hget
          exact keeps _ _ _ _ _ _ _ h

theorem readPiece_board (keeps : KeepsBoard handler) (h : SameBoard vm₀ vm) {p : Piece}
    {bytes : List Byte} (hread : readPiece handler vm p = some (bytes, vm')) :
    SameBoard vm₀ vm' := by
  simp only [readPiece, physmemCopyWordFromVm, Option.map_eq_some_iff] at hread
  obtain ⟨_, ⟨⟨ptr, tmp, mid⟩, hget, rfl⟩, heq⟩ := hread
  cases heq
  have hmid := getHptr_board keeps h hget
  cases ptr <;> exact hmid

theorem readPieces_board (keeps : KeepsBoard handler) (h : SameBoard vm₀ vm) {pieces : List Piece}
    {bytes : List Byte} (hread : readPieces handler pieces vm = some (bytes, vm')) :
    SameBoard vm₀ vm' := by
  induction pieces generalizing vm bytes with
  | nil =>
    cases hread
    exact h
  | cons p pieces ih =>
    simp only [readPieces, Option.bind_eq_some_iff, Option.map_eq_some_iff] at hread
    obtain ⟨⟨front, mid⟩, hfront, ⟨rest, vm''⟩, hrest, heq⟩ := hread
    cases heq
    exact ih (readPiece_board keeps h hfront) hrest

theorem writePieces_board (keeps : KeepsBoard handler) (h : SameBoard vm₀ vm)
    {pieces : List Piece} {buf : List Byte}
    (hwrite : writePieces handler pieces buf vm = some vm') : SameBoard vm₀ vm' := by
  induction pieces generalizing vm buf with
  | nil =>
    cases hwrite
    exact h
  | cons p pieces ih =>
    simp only [writePieces, writePiece, physmemCopyWordToVm, Option.bind_eq_some_iff,
      Option.map_eq_some_iff] at hwrite
    obtain ⟨_, ⟨⟨ptr, tmp, mid⟩, hget, rfl⟩, hrest⟩ := hwrite
    refine ih ?_ hrest
    have hmid := getHptr_board keeps h hget
    cases ptr with
    | none => exact hmid
    | some ptr => exact hmid.write _

theorem copyFromVm_pieces (whole : PagesWhole vm₀) (keeps : KeepsBoard handler)
    (h : SameBoard vm₀ vm) {fuel : Nat} {buf : List Byte} (hfuel : buf.length ≤ fuel)
    (hfit : StepsFit vm₀ fuel paddr buf.length) :
    copyFromVm handler fuel vm buf paddr =
      readPieces handler (copyPieces vm₀ fuel paddr buf.length) vm := by
  induction fuel generalizing vm buf paddr with
  | zero =>
    rw [List.length_eq_zero_iff.mp (Nat.le_zero.mp hfuel)]
    rfl
  | succ fuel ih =>
    by_cases hz : buf.length = 0
    · rw [List.length_eq_zero_iff.mp hz]
      rfl
    have hpos : 0 < buf.length := Nat.pos_of_ne_zero hz
    have hstep := @stepLen_pos _ vm₀ paddr _ hpos
    have hlen := @List.length_drop _ (stepLen vm₀ paddr buf.length) buf
    obtain ⟨hfits, hrest⟩ := hfit.resolve_left hz
    rw [copyFromVm_step_eq whole h hpos hfits, copyPieces, if_neg hz, readPieces_append]
    cases hread : readPieces handler (stepPieces vm₀ paddr buf.length) vm with
    | none => rfl
    | some res =>
      simp only [Option.bind_some]
      rw [ih (readPieces_board keeps h hread) (by omega) (by rwa [hlen]), hlen]

theorem copyToVm_pieces (whole : PagesWhole vm₀) (keeps : KeepsBoard handler)
    (h : SameBoard vm₀ vm) {fuel : Nat} {buf : List Byte} (hfuel : buf.length ≤ fuel)
    (hfit : StepsFit vm₀ fuel paddr buf.length) :
    copyToVm handler fuel vm buf paddr =
      writePieces handler (copyPieces vm₀ fuel paddr buf.length) buf vm := by
  induction fuel generalizing vm buf paddr with
  | zero =>
    rw [List.length_eq_zero_iff.mp (Nat.le_zero.mp hfuel)]
    rfl
  | succ fuel ih =>
    by_cases hz : buf.length = 0
    · rw [List.length_eq_zero_iff.mp hz]
      rfl
    have hpos : 0 < buf.length := Nat.pos_of_ne_zero hz
    have hstep := @stepLen_pos _ vm₀ paddr _ hpos
    have hlen := @List.length_drop _ (stepLen vm₀ paddr buf.length) buf
    obtain ⟨hfits, hrest⟩ := hfit.resolve_left hz
    rw [copyToVm_step_eq whole h hpos hfits, copyPieces, if_neg hz, writePieces_append,
      span_stepPieces]
    cases hwrite : writePieces handler (stepPieces vm₀ paddr buf.length)
        (buf.take (stepLen vm₀ paddr buf.length)) vm with
    | none => rfl
    | some mid =>
      simp only [Option.bind_some]
      rw [ih (writePieces_board keeps h hwrite) (by omega) (by rwa [hlen]), hlen]

theorem Tiles.append {front back : List Piece} {len : Nat}
    (hf : Tiles vm paddr n front) (hb : Tiles vm (paddr + BitVec.ofNat 64 n) len back) :
    Tiles vm paddr (n + len) (front ++ back) := by
  induction front generalizing paddr n with
  | nil =>
    cases hf
    simpa using hb
  | cons p front ih =>
    obtain ⟨haddr, hwidth, hle, hin, hrest⟩ := hf
    refine ⟨haddr, hwidth, by omega, hin, ?_⟩
    have hsum : n - p.2 + len = n + len - p.2 := by omega
    have hadd : paddr + BitVec.ofNat 64 p.2 + BitVec.ofNat 64 (n - p.2) =
        paddr + BitVec.ofNat 64 n := by
      rw [BitVec.add_assoc, ← BitVec.ofNat_add, Nat.add_sub_cancel' hle]
    rw [← hsum]
    exact ih hrest (by rwa [hadd])

theorem tiles_bytePieces (vm : Vm W) (paddr : BitVec 64) (n : Nat) :
    Tiles vm paddr n (bytePieces paddr n) := by
  induction n generalizing paddr with
  | zero => rfl
  | succ n ih =>
    refine ⟨rfl, Or.inl rfl, by omega, ?_, ih _⟩
    intro i hi
    have hzero : i = 0 := by omega
    simp [hzero]

theorem tiles_copyPieces {fuel len : Nat} (hfuel : len ≤ fuel)
    (hfit : StepsFit vm₀ fuel paddr len) : Tiles vm₀ paddr len (copyPieces vm₀ fuel paddr len) := by
  induction fuel generalizing paddr len with
  | zero => exact Nat.le_zero.mp hfuel
  | succ fuel ih =>
    rw [copyPieces]
    by_cases hz : len = 0
    · rw [if_pos hz]
      exact hz
    have hpos := @stepLen_pos _ vm₀ paddr _ (Nat.pos_of_ne_zero hz)
    have hle := stepLen_le vm₀ paddr len
    obtain ⟨hfits, hrest⟩ := hfit.resolve_left hz
    have hsplit : stepLen vm₀ paddr len + (len - stepLen vm₀ paddr len) = len := by omega
    have hfront : Tiles vm₀ paddr (stepLen vm₀ paddr len) (stepPieces vm₀ paddr len) := by
      rw [stepPieces]
      split
      · exact tiles_bytePieces _ _ _
      · rename_i hmapped
        have hmin : stepLen vm₀ paddr len = min len 4 := by rw [stepLen, if_neg hmapped]
        obtain ⟨hthree, hin⟩ := hfits.resolve_left hmapped
        rw [hmin]
        exact ⟨rfl, by omega, Nat.le_refl _, hin, Nat.sub_self _⟩
    have happ := hfront.append (ih (by omega) hrest)
    rw [hsplit] at happ
    rwa [if_neg hz]

end Dynamips
