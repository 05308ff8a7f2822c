import Dynamips.SparseRam

/-! The operations on physical memory of memory.c, with which devices and the
hypervisor reach the RAM, against the flat memory that it holds. -/
set_option autoImplicit false

namespace Dynamips

open Mips64 (vmLoad)

def vmPageSize : Nat := 0x1000

/-- `paddr & VM_PAGE_IMASK` -/
def pageOffset (paddr : BitVec 64) : BitVec 12 := paddr.setWidth 12

/-- A handler of a device, called for the boot CPU: a host address, `*data` and
what it leaves. -/
abbrev DevHandler (W : Type) :=
  VDevice → BitVec 32 → Nat → MtsOp → BitVec 64 → Vm W → Option HostAddr × BitVec 64 × Vm W

variable {W : Type}

/-- `physmem_get_hptr`, with what `*data` is afterwards. -/
def physmemGetHptr (handler : DevHandler W) (vm : Vm W) (paddr : BitVec 64) (opSize : Nat)
    (opType : MtsOp) (data : BitVec 64) : Option (Option HostAddr × BitVec 64 × Vm W) :=
  match devLookup vm paddr false with
  | none => some (none, data, vm)
  | some dev =>
    if dev.has vdeviceFlagSparse then
      (devSparseGetHostAddr vm dev paddr opType).map fun (ptr, _, vm) =>
        (if ptr = 0 then none else some (ptr + (pageOffset paddr).setWidth 64), data, vm)
    else if dev.hostAddr ≠ 0 ∧ ¬ dev.has vdeviceFlagNoMtsMmap then
      some (some (dev.hostAddr + (paddr - dev.physAddr)), data, vm)
    else if opSize = 0 then some (none, data, vm)
    else some (handler dev ((paddr - dev.physAddr).setWidth 32) opSize opType data vm)

/-- `physmem_copy_u8_from_vm`, `physmem_copy_u16_from_vm` and
`physmem_copy_u32_from_vm` -/
def physmemCopyWordFromVm (size : Nat) (handler : DevHandler W) (vm : Vm W) (paddr : BitVec 64) :
    Option (BitVec 64 × Vm W) :=
  (physmemGetHptr handler vm paddr size .read 0).map fun (ptr, tmp, vm) =>
    match ptr with
    | some ptr => (vmLoad vm.mem ptr size, vm)
    | none => ((tmp.setWidth (8 * size)).setWidth 64, vm)

/-- `physmem_copy_u8_to_vm`, `physmem_copy_u16_to_vm` and `physmem_copy_u32_to_vm` -/
def physmemCopyWordToVm (size : Nat) (handler : DevHandler W) (vm : Vm W) (paddr : BitVec 64)
    (val : BitVec 64) : Option (Vm W) :=
  (physmemGetHptr handler vm paddr size .write val).map fun (ptr, _, vm) =>
    match ptr with
    | some ptr => { vm with mem := hostWrite vm.mem ptr (storeBytes val size) }
    | none => vm

/-- What goes into the buffer where there is no host address; three bytes are left
as they are. -/
def unmappedFromVm (handler : DevHandler W) (vm : Vm W) (paddr : BitVec 64) (buf : List Byte) :
    Option (List Byte × Vm W) :=
  if buf.length = 3 then some (buf, vm)
  else (physmemCopyWordFromVm buf.length handler vm paddr).map fun (val, vm) =>
    (storeBytes val buf.length, vm)

def unmappedToVm (handler : DevHandler W) (vm : Vm W) (paddr : BitVec 64) (buf : List Byte) :
    Option (Vm W) :=
  if buf.length = 3 then some vm
  else physmemCopyWordToVm buf.length handler vm paddr (loadValue buf)

/-- How much of `len` bytes is left in the page. -/
def pageChunk (paddr : BitVec 64) (len : Nat) : Nat :=
  min (vmPageSize - (pageOffset paddr).toNat) len

/-- The loop of `physmem_copy_from_vm`, which fills a buffer of the host. -/
def copyFromVm (handler : DevHandler W) : Nat → Vm W → List Byte → BitVec 64 →
    Option (List Byte × Vm W)
  | 0, vm, buf, _ => some (buf, vm)
  | fuel + 1, vm, buf, paddr =>
    if buf = [] then some ([], vm)
    else
      match physmemGetHptr handler vm paddr 0 .read 0 with
      | none => none
      | some (some ptr, _, vm) =>
        let r := pageChunk paddr buf.length
        (copyFromVm handler fuel vm (buf.drop r) (paddr + BitVec.ofNat 64 r)).map
          fun (rest, vm') => (hostRead vm.mem ptr r ++ rest, vm')
      | some (none, _, vm) =>
        let r := min buf.length 4
        match unmappedFromVm handler vm paddr (buf.take r) with
        | none => none
        | some (bytes, vm) =>
          (copyFromVm handler fuel vm (buf.drop r) (paddr + BitVec.ofNat 64 r)).map
            fun (rest, vm) => (bytes ++ rest, vm)

def physmemCopyFromVm (handler : DevHandler W) (vm : Vm W) (realBuffer : List Byte)
    (paddr : BitVec 64) : Option (List Byte × Vm W) :=
  copyFromVm handler realBuffer.length vm realBuffer paddr

/-- The loop of `physmem_copy_to_vm`. -/
def copyToVm (handler : DevHandler W) : Nat → Vm W → List Byte → BitVec 64 → Option (Vm W)
  | 0, vm, _, _ => some vm
  | fuel + 1, vm, buf, paddr =>
    if buf = [] then some vm
    else
      match physmemGetHptr handler vm paddr 0 .write 0 with
      | none => none
      | some (some ptr, _, vm) =>
        let r := pageChunk paddr buf.length
        copyToVm handler fuel { vm with mem := hostWrite vm.mem ptr (buf.take r) } (buf.drop r)
          (paddr + BitVec.ofNat 64 r)
      | some (none, _, vm) =>
        let r := min buf.length 4
        match unmappedToVm handler vm paddr (buf.take r) with
        | none => none
        | some vm => copyToVm handler fuel vm (buf.drop r) (paddr + BitVec.ofNat 64 r)

def physmemCopyToVm (handler : DevHandler W) (vm : Vm W) (realBuffer : List Byte)
    (paddr : BitVec 64) : Option (Vm W) :=
  copyToVm handler realBuffer.length vm realBuffer paddr

/-- The loop of `physmem_dma_transfer`. -/
def dmaTransfer (handler : DevHandler W) : Nat → Vm W → BitVec 64 → BitVec 64 → Nat → Option (Vm W)
  | 0, vm, _, _, _ => some vm
  | fuel + 1, vm, src, dst, len =>
    if len = 0 then some vm
    else
      match physmemGetHptr handler vm src 0 .read 0 with
      | none => none
      | some (sptr, _, vm) =>
        match physmemGetHptr handler vm dst 0 .write 0 with
        | none => none
        | some (dptr, _, vm) =>
          match sptr, dptr with
          | some sptr, some dptr =>
            let clen := min (pageChunk src len) (pageChunk dst len)
            dmaTransfer handler fuel
              { vm with mem := hostWrite vm.mem dptr (hostRead vm.mem sptr clen) }
              (src + BitVec.ofNat 64 clen) (dst + BitVec.ofNat 64 clen) (len - clen)
          | _, _ => some vm

def physmemDmaTransfer (handler : DevHandler W) (vm : Vm W) (src dst : BitVec 64) (len : Nat) :
    Option (Vm W) :=
  dmaTransfer handler len vm src dst len

def strnlen (bytes : List Byte) : Nat := (bytes.takeWhile (· ≠ 0)).length

/-- How many bytes of the device `physmem_strnlen` looks at. -/
def strnlenMax (dev : VDevice) (paddr : BitVec 64) (maxlen : Nat) : Nat :=
  min maxlen (dev.physLen.setWidth 64 - (paddr - dev.physAddr)).toNat

/-- `physmem_strnlen`, which takes the device to be in one piece at its host address. -/
def physmemStrnlen (vm : Vm W) (paddr : BitVec 64) (maxlen : Nat) : Nat :=
  match devLookup vm paddr true with
  | none => 0
  | some dev =>
    if dev.hostAddr ≠ 0 then
      strnlen (hostRead vm.mem (dev.hostAddr + (paddr - dev.physAddr))
        (strnlenMax dev paddr maxlen))
    else 0

variable {vm₀ vm vm' : Vm W} {handler : DevHandler W}

theorem physmemGetHptr_step (boot : Boot vm₀) (ok : RamOk vm₀ vm) {paddr data data' : BitVec 64}
    {opSize : Nat} {opType : MtsOp} {ptr : Option HostAddr} {slot : Slot}
    (hslot : vm.ramSlot paddr false = some slot)
    (h : physmemGetHptr handler vm paddr opSize opType data = some (ptr, data', vm')) :
    RamStep vm₀ vm vm' (fun slot' => opType = .write ∧ slot' = slot) vm.ram ∧
      ptr = some (vm'.addr slot (pageOffset paddr)) ∧
      (opType = .write → vm'.pages.own slot = true) := by
  obtain ⟨dev, hdev, hsp, hz, rfl⟩ := ramSlot_eq_some.mp hslot
  simp only [physmemGetHptr, hdev, hsp, if_true, Option.map_eq_some_iff, Prod.mk.injEq] at h
  obtain ⟨⟨host, cow, vm'⟩, hsparse, hptr, -, rfl⟩ := h
  obtain ⟨hstep, hhost, hown⟩ := devSparseGetHostAddr_step boot ok hz hsparse
  refine ⟨hstep, ?_, hown⟩
  have hpage : vm'.pages.page (dev.slot paddr) ≠ 0 := by
    cases hd : vm'.pages.own (dev.slot paddr) with
    | true =>
      obtain ⟨k, p, -, -, hp⟩ := hstep.ok.taken _ hd
      rw [← hp]
      intro hzero
      apply p.nonnull
      rw [← pageNumber_aligned, hzero]
      rfl
    | false =>
      rw [hstep.ok.keeps.shared _ hd]
      refine boot.nonnull dev ?_ hsp hz _
      rw [← ok.devList]
      exact devLookup_mem hdev
  have hne : host ≠ 0 := by
    intro hzero
    apply hpage
    rw [← pageNumber_hostCell (vm'.pages.page (dev.slot paddr)) 0, ← hhost, hzero]
    rfl
  rw [← hptr, if_neg hne, hhost, hostCell_add]
  rfl

theorem pageOffset_add_chunk (paddr : BitVec 64) (len : Nat) :
    (pageOffset paddr).toNat + pageChunk paddr len ≤ 4096 := by
  have hlt := (pageOffset paddr).isLt
  simp only [pageChunk, vmPageSize]
  omega

theorem pageChunk_pos {paddr : BitVec 64} {len : Nat} (h : 0 < len) : 0 < pageChunk paddr len := by
  have hlt := (pageOffset paddr).isLt
  simp only [pageChunk, vmPageSize]
  omega

theorem pageChunk_le (paddr : BitVec 64) (len : Nat) : pageChunk paddr len ≤ len :=
  Nat.min_le_right _ _

theorem RamStep.write {mid : Vm W} {written : Slot → Prop} {slot : Slot} {offset : BitVec 12}
    {bytes : List Byte} (h : RamStep vm₀ vm mid written vm.ram) (boot : Boot vm₀)
    (hown : mid.pages.own slot = true) (hlen : offset.toNat + bytes.length ≤ 4096) :
    RamStep vm₀ vm { mid with mem := hostWrite mid.mem (mid.addr slot offset) bytes } written
      (vm.ram.write (pageCells slot offset bytes.length) bytes) := by
  rw [← h.ram]
  exact h.trans (@hostWrite_step _ vm₀ mid written boot h.ok slot offset bytes hown hlen)
    fun _ hw => hw

theorem copyWordFromVm_step (boot : Boot vm₀) (ok : RamOk vm₀ vm) {size : Nat}
    {paddr val : BitVec 64} {slot : Slot} {written : Slot → Prop}
    (hslot : vm.ramSlot paddr false = some slot) (hsize : (pageOffset paddr).toNat + size ≤ 4096)
    (h : physmemCopyWordFromVm size handler vm paddr = some (val, vm')) :
    RamStep vm₀ vm vm' written vm.ram ∧
      val = loadValue (vm.ram.read (pageCells slot (pageOffset paddr) size)) := by
  simp only [physmemCopyWordFromVm, Option.map_eq_some_iff] at h
  obtain ⟨⟨ptr, tmp, mid⟩, hptr, h⟩ := h
  obtain ⟨hstep, rfl, -⟩ := physmemGetHptr_step boot ok hslot hptr
  cases h
  refine ⟨hstep.mono fun _ hw => (by cases hw.1), ?_⟩
  rw [vmLoad_eq, hostRead_page _ _ hsize, hstep.ram]

theorem copyWordToVm_step (boot : Boot vm₀) (ok : RamOk vm₀ vm) {size : Nat}
    {paddr val : BitVec 64} {slot : Slot} (hslot : vm.ramSlot paddr false = some slot)
    (hsize : (pageOffset paddr).toNat + size ≤ 4096)
    (h : physmemCopyWordToVm size handler vm paddr val = some vm') :
    RamStep vm₀ vm vm' (· = slot)
      (vm.ram.write (pageCells slot (pageOffset paddr) size) (storeBytes val size)) := by
  simp only [physmemCopyWordToVm, Option.map_eq_some_iff] at h
  obtain ⟨⟨ptr, tmp, mid⟩, hptr, h⟩ := h
  obtain ⟨hstep, rfl, hown⟩ := physmemGetHptr_step boot ok hslot hptr
  cases h
  have hlen : (pageOffset paddr).toNat + (storeBytes val size).length ≤ 4096 := by
    rwa [length_storeBytes]
  have hwrite := (hstep.mono fun _ hw => hw.2).write boot (hown rfl) hlen
  rwa [length_storeBytes] at hwrite

def slotsOf (cells : List Cell) (slot : Slot) : Prop := ∃ c ∈ cells, c.1 = slot

theorem slotsOf_append {front back : List Cell} {slot : Slot} (h : slotsOf back slot) :
    slotsOf (front ++ back) slot := by
  obtain ⟨c, hc, rfl⟩ := h
  exact ⟨c, List.mem_append_right _ hc, rfl⟩

theorem slotsOf_pageCells {slot : Slot} {offset : BitVec 12} {n : Nat} (back : List Cell)
    (hn : 0 < n) : slotsOf (pageCells slot offset n ++ back) slot := by
  obtain ⟨n, rfl⟩ : ∃ n', n = n' + 1 := ⟨n - 1, by omega⟩
  exact ⟨(slot, offset), by simp [pageCells], rfl⟩

theorem copyFromVm_step (boot : Boot vm₀) (whole : WholePages vm₀) (ok : RamOk vm₀ vm)
    {fuel : Nat} {buf bytes : List Byte} {paddr : BitVec 64} {cells : List Cell}
    {written : Slot → Prop} (hfuel : buf.length ≤ fuel)
    (hc : vm₀.cells paddr buf.length = some cells)
    (h : copyFromVm handler fuel vm buf paddr = some (bytes, vm')) :
    RamStep vm₀ vm vm' written vm.ram ∧ bytes = vm.ram.read cells := by
  induction fuel generalizing vm buf bytes paddr cells with
  | zero =>
    rw [List.length_eq_zero_iff.mp (Nat.le_zero.mp hfuel)] at hc h
    cases hc
    cases h
    exact ⟨ok.step, rfl⟩
  | succ fuel ih =>
    rw [copyFromVm] at h
    split at h
    · rename_i hnil
      rw [hnil] at hc
      cases hc
      cases h
      exact ⟨ok.step, rfl⟩
    rename_i hnil
    have hpos : 0 < buf.length := List.length_pos_iff.mpr hnil
    have hsplit : pageChunk paddr buf.length + (buf.length - pageChunk paddr buf.length) =
        buf.length := Nat.add_sub_cancel' (pageChunk_le _ _)
    rw [← hsplit] at hc
    obtain ⟨slot, back, hslot, hback, rfl⟩ :=
      cells_chunk whole hc (pageChunk_pos hpos) (pageOffset_add_chunk _ _)
    rw [← ramSlot_congr ok.devList] at hslot
    cases hptr : physmemGetHptr handler vm paddr 0 .read 0 with
    | none =>
      rw [hptr] at h
      cases h
    | some res =>
      obtain ⟨ptr, data, mid⟩ := res
      obtain ⟨hstep, rfl, -⟩ := physmemGetHptr_step boot ok hslot hptr
      simp only [hptr, Option.map_eq_some_iff] at h
      obtain ⟨⟨rest, vm''⟩, hrest, h⟩ := h
      cases h
      have hlen : (buf.drop (pageChunk paddr buf.length)).length =
          buf.length - pageChunk paddr buf.length := List.length_drop
      obtain ⟨hnext, rfl⟩ := ih hstep.ok
        (by rw [hlen]; have := @pageChunk_pos paddr _ hpos; omega) (by rw [hlen, hback]) hrest
      rw [hstep.ram] at hnext ⊢
      refine ⟨(hstep.mono fun _ hw => (by cases hw.1)).trans hnext fun _ hw => hw, ?_⟩
      rw [hostRead_page _ _ (pageOffset_add_chunk _ _), hstep.ram]
      exact List.map_append.symm

theorem copyToVm_step (boot : Boot vm₀) (whole : WholePages vm₀) (ok : RamOk vm₀ vm)
    {fuel : Nat} {buf : List Byte} {paddr : BitVec 64} {cells : List Cell}
    (hfuel : buf.length ≤ fuel) (hc : vm₀.cells paddr buf.length = some cells)
    (h : copyToVm handler fuel vm buf paddr = some vm') :
    RamStep vm₀ vm vm' (slotsOf cells) (vm.ram.write cells buf) := by
  induction fuel generalizing vm buf paddr cells with
  | zero =>
    rw [List.length_eq_zero_iff.mp (Nat.le_zero.mp hfuel)] at hc h ⊢
    cases hc
    cases h
    exact ok.step
  | succ fuel ih =>
    rw [copyToVm] at h
    split at h
    · rename_i hnil
      rw [hnil] at hc ⊢
      cases hc
      cases h
      exact ok.step
    rename_i hnil
    have hpos : 0 < buf.length := List.length_pos_iff.mpr hnil
    have hchunk := @pageChunk_pos paddr _ hpos
    have hsplit : pageChunk paddr buf.length + (buf.length - pageChunk paddr buf.length) =
        buf.length := Nat.add_sub_cancel' (pageChunk_le _ _)
    rw [← hsplit] at hc
    obtain ⟨slot, back, hslot, hback, rfl⟩ :=
      cells_chunk whole hc hchunk (pageOffset_add_chunk _ _)
    rw [← ramSlot_congr ok.devList] at hslot
    cases hptr : physmemGetHptr handler vm paddr 0 .write 0 with
    | none =>
      rw [hptr] at h
      cases h
    | some res =>
      obtain ⟨ptr, data, mid⟩ := res
      obtain ⟨hstep, rfl, hown⟩ := physmemGetHptr_step boot ok hslot hptr
      simp only [hptr] at h
      have htake : (buf.take (pageChunk paddr buf.length)).length = pageChunk paddr buf.length :=
        List.length_take_of_le (pageChunk_le _ _)
      have hlen : (buf.drop (pageChunk paddr buf.length)).length =
          buf.length - pageChunk paddr buf.length := List.length_drop
      have hmem := (hstep.mono fun _ hw => hw.2).write boot (hown rfl)
        (show (pageOffset paddr).toNat + (buf.take (pageChunk paddr buf.length)).length ≤ 4096 by
          rw [htake]
          exact pageOffset_add_chunk _ _)
      rw [htake] at hmem
      have hnext := ih hmem.ok (by rw [hlen]; omega) (by rw [hlen, hback]) h
      have hall := hmem.ram
      have hfront : (pageCells slot (pageOffset paddr) (pageChunk paddr buf.length)).length =
          (buf.take (pageChunk paddr buf.length)).length := by rw [length_pageCells, htake]
      rw [hall, ← Ram.write_append _ hfront, List.take_append_drop] at hnext
      refine (hmem.mono ?_).trans hnext fun _ hw => slotsOf_append hw
      rintro _ rfl
      exact slotsOf_pageCells back hchunk

theorem dmaTransfer_step (boot : Boot vm₀) (whole : WholePages vm₀) (ok : RamOk vm₀ vm)
    {fuel len : Nat} {src dst : BitVec 64} {srcCells dstCells : List Cell} (hfuel : len ≤ fuel)
    (hsrc : vm₀.cells src len = some srcCells) (hdst : vm₀.cells dst len = some dstCells)
    (hdisj : ∀ c ∈ srcCells, c ∉ dstCells) (h : dmaTransfer handler fuel vm src dst len = some vm') :
    RamStep vm₀ vm vm' (slotsOf dstCells) (vm.ram.write dstCells (vm.ram.read srcCells)) := by
  induction fuel generalizing vm src dst len srcCells dstCells with
  | zero =>
    rw [Nat.le_zero.mp hfuel] at hsrc hdst h
    cases hsrc
    cases hdst
    cases h
    exact ok.step
  | succ fuel ih =>
    rw [dmaTransfer] at h
    split at h
    · rename_i hz
      rw [hz] at hsrc hdst
      cases hsrc
      cases hdst
      cases h
      exact ok.step
    rename_i hz
    obtain ⟨clen, hclen⟩ : ∃ clen, clen = min (pageChunk src len) (pageChunk dst len) := ⟨_, rfl⟩
    have hpos : 0 < clen := by
      have hs := @pageChunk_pos src len (by omega)
      have hd := @pageChunk_pos dst len (by omega)
      omega
    have hs := pageOffset_add_chunk src len
    have hd := pageOffset_add_chunk dst len
    have hle := pageChunk_le src len
    have hsplit : clen + (len - clen) = len := by omega
    rw [← hsplit] at hsrc hdst
    obtain ⟨slot, back, hslot, hback, rfl⟩ :=
      cells_chunk whole hsrc hpos (show (pageOffset src).toNat + clen ≤ 4096 by omega)
    obtain ⟨slot', back', hslot', hback', rfl⟩ :=
      cells_chunk whole hdst hpos (show (pageOffset dst).toNat + clen ≤ 4096 by omega)
    rw [← ramSlot_congr ok.devList] at hslot
    cases hsptr : physmemGetHptr handler vm src 0 .read 0 with
    | none =>
      rw [hsptr] at h
      cases h
    | some res =>
      obtain ⟨sptr, data, mid⟩ := res
      obtain ⟨hread, rfl, -⟩ := physmemGetHptr_step boot ok hslot hsptr
      simp only [hsptr] at h
      rw [← ramSlot_congr hread.ok.devList] at hslot'
      cases hdptr : physmemGetHptr handler mid dst 0 .write 0 with
      | none =>
        rw [hdptr] at h
        cases h
      | some res =>
        obtain ⟨dptr, data', mid'⟩ := res
        obtain ⟨hwrite, rfl, hown⟩ := physmemGetHptr_step boot hread.ok hslot' hdptr
        simp only [hdptr, ← hclen] at h
        have hbytes : hostRead mid'.mem (mid.addr slot (pageOffset src)) clen =
            vm.ram.read (pageCells slot (pageOffset src) clen) := by
          have hold := hwrite.old_page hread.ok boot slot
          rw [hread.ram] at hold
          exact hostRead_of_page hold (by omega)
        have hlen : (hostRead mid'.mem (mid.addr slot (pageOffset src)) clen).length = clen :=
          length_hostRead _ _ _
        have hmem := ((hread.mono fun _ hw => (by cases hw.1)).trans (hread.ram ▸ hwrite)
          fun _ hw => hw.2).write boot (hown rfl)
          (show (pageOffset dst).toNat + (hostRead mid'.mem (mid.addr slot (pageOffset src))
            clen).length ≤ 4096 by rw [hlen]; omega)
        rw [hlen, hbytes] at hmem
        rw [hbytes] at h
        have hnext := ih hmem.ok (by omega) hback hback'
          (fun c hc hc' => hdisj c (List.mem_append_right _ hc) (List.mem_append_right _ hc')) h
        have hrest : (vm.ram.write (pageCells slot' (pageOffset dst) clen)
            (vm.ram.read (pageCells slot (pageOffset src) clen))).read back =
              vm.ram.read back :=
          Ram.read_write _ _ fun c hc hc' =>
            hdisj c (List.mem_append_right _ hc) (List.mem_append_left _ hc')
        have hread' : vm.ram.read (pageCells slot (pageOffset src) clen ++ back) =
            vm.ram.read (pageCells slot (pageOffset src) clen) ++ vm.ram.read back :=
          List.map_append
        have hfront : (pageCells slot' (pageOffset dst) clen).length =
            (vm.ram.read (pageCells slot (pageOffset src) clen)).length := by
          rw [Ram.read, List.length_map, length_pageCells, length_pageCells]
        rw [hmem.ram, hrest, ← Ram.write_append _ hfront, ← hread'] at hnext
        refine (hmem.mono ?_).trans hnext fun _ hw => slotsOf_append hw
        rintro _ rfl
        exact slotsOf_pageCells back' hpos

def VDevice.cells (dev : VDevice) (paddr : BitVec 64) : Nat → List Cell
  | 0 => []
  | n + 1 => (dev.slot paddr, pageOffset paddr) :: dev.cells (paddr + 1) n

theorem image_addr {dev : VDevice} {paddr : BitVec 64}
    (ha : dev.hostAddr &&& vmPageMask = dev.hostAddr) (hz : dev.hostAddr ≠ 0)
    (hbase : dev.physAddr.setWidth 12 = 0#12) (hlen : (paddr - dev.physAddr).toNat < 2 ^ 32) :
    hostCell (pageNumber (devSparseInit dev.hostAddr (dev.page paddr))) (pageOffset paddr) =
      dev.hostAddr + (paddr - dev.physAddr) := by
  have halign := toNat_aligned ha
  have hzero := congrArg BitVec.toNat hbase
  have hz' : (0#12).toNat = 0 := rfl
  rw [BitVec.toNat_setWidth, hz'] at hzero
  have hp := paddr.isLt
  have hd := dev.physAddr.isLt
  have hh := dev.hostAddr.isLt
  have hsub := hlen
  rw [BitVec.toNat_sub] at hsub
  apply BitVec.eq_of_toNat_eq
  rw [toNat_hostCell, toNat_pageNumber, devSparseInit, if_neg hz, VDevice.page, vmPageShift,
    pageOffset]
  simp only [BitVec.toNat_add, BitVec.toNat_setWidth, BitVec.toNat_shiftLeft,
    BitVec.toNat_ushiftRight, Nat.shiftRight_eq_div_pow, Nat.shiftLeft_eq, BitVec.toNat_sub]
  omega

theorem hostRead_image (boot : Boot vm₀) (whole : WholePages vm₀) (ok : RamOk vm₀ vm)
    {dev : VDevice} {paddr : BitVec 64} {n : Nat} (hdev : dev ∈ vm₀.devList)
    (hsp : dev.has vdeviceFlagSparse) (hz : dev.hostAddr ≠ 0)
    (hlen : (paddr - dev.physAddr).toNat + n < 2 ^ 32)
    (hshared : ∀ c ∈ dev.cells paddr n, vm.pages.own c.1 = false) :
    hostRead vm.mem (dev.hostAddr + (paddr - dev.physAddr)) n =
      vm.ram.read (dev.cells paddr n) := by
  induction n generalizing paddr with
  | zero => rfl
  | succ n ih =>
    obtain ⟨ha, hinit⟩ := boot.image dev hdev hsp
    have hone : (1 : BitVec 64).toNat = 1 := rfl
    have hnext : paddr + 1 - dev.physAddr = paddr - dev.physAddr + 1 := by bv_omega
    have hrest := @ih (paddr + 1) (by rw [hnext, BitVec.toNat_add, hone]; omega)
      fun c hc => hshared c (List.mem_cons_of_mem _ hc)
    have hfirst := hshared _ (List.mem_cons_self)
    rw [hnext, ← BitVec.add_assoc] at hrest
    rw [hostRead, hrest, VDevice.cells]
    refine congrArg₂ List.cons ?_ rfl
    have hpage : vm.pages.page (dev.slot paddr) =
        pageNumber (devSparseInit dev.hostAddr (dev.page paddr)) := by
      rw [ok.keeps.shared _ hfirst]
      simp only [Vm.pages, VDevice.slot, hinit]
    rw [← image_addr ha hz (whole dev hdev hsp hz).1 (by omega), ← hpage]
    rfl

theorem physmemStrnlen_ram (boot : Boot vm₀) (whole : WholePages vm₀) (ok : RamOk vm₀ vm)
    {dev : VDevice} {paddr : BitVec 64} {maxlen : Nat}
    (hdev : devLookup vm paddr true = some dev) (hsp : dev.has vdeviceFlagSparse)
    (hz : dev.hostAddr ≠ 0)
    (hshared : ∀ c ∈ dev.cells paddr (strnlenMax dev paddr maxlen), vm.pages.own c.1 = false) :
    physmemStrnlen vm paddr maxlen =
      strnlen (vm.ram.read (dev.cells paddr (strnlenMax dev paddr maxlen))) := by
  have hmem : dev ∈ vm₀.devList := ok.devList ▸ devLookup_mem hdev
  have hcovers := List.find?_some hdev
  have hlen : (paddr - dev.physAddr).toNat < dev.physLen.toNat := by
    simp only [VDevice.covers, Bool.and_eq_true, decide_eq_true_eq] at hcovers
    have hlt := hcovers.2.2
    rw [BitVec.lt_def, BitVec.toNat_setWidth] at hlt
    omega
  have hmax : (paddr - dev.physAddr).toNat + strnlenMax dev paddr maxlen < 2 ^ 32 := by
    have hl := dev.physLen.isLt
    have hle : strnlenMax dev paddr maxlen ≤
        (dev.physLen.setWidth 64 - (paddr - dev.physAddr)).toNat := Nat.min_le_right _ _
    rw [BitVec.toNat_sub, BitVec.toNat_setWidth] at hle
    omega
  simp only [physmemStrnlen, hdev, hz, ne_eq, not_false_eq_true, if_true]
  rw [hostRead_image boot whole ok hmem hsp hz hmax hshared]

end Dynamips
