import Dynamips.Lib.Slots
import Mathlib.Data.BitVec
import Mathlib.Data.Finset.Range
import Mathlib.Data.List.Nodup

/-! The hashed page table of a PowerPC MMU: the functions that fill it from the
emulator and the walk of `ppc32_slow_lookup` (ppc32_mem.c). -/
set_option autoImplicit false

namespace Dynamips.Ppc32

def PPC32_MIN_PAGE_SHIFT : Nat := 12

def PPC32_MIN_PAGE_SIZE : BitVec 32 := 0x1000

def PPC32_SD_VSID_MASK : BitVec 32 := 0x00FFFFFF

def PPC32_SDR1_HTMEXT_MASK : BitVec 32 := 0x00001FFF

def PPC32_PTE_SIZE : Nat := 8

def PPC32_PTEU_V : BitVec 32 := 0x80000000

def PPC32_PTEU_VSID_SHIFT : Nat := 7

def PPC32_PTEU_H : BitVec 32 := 0x00000040

def PPC32_PTEL_RPN_MASK : BitVec 32 := 0xFFFFF000

def PPC32_PTEL_XPN_MASK : BitVec 32 := 0x00000C00

def PPC32_PTEL_XPN_SHIFT : Nat := 9

def PPC32_PTEL_WIMG_SHIFT : Nat := 3

def PPC32_PTEL_X_MASK : BitVec 32 := 0x00000004

def PPC32_PTEL_X_SHIFT : Nat := 2

abbrev Pte := BitVec 32 × BitVec 32

/-- The PTE at each byte offset from `sdr1_hptr`. -/
abbrev PageTable := Nat → Pte

def initPageTable (sdr1 : BitVec 32) (table : PageTable) : PageTable := fun offset =>
  if offset < ((1 + (sdr1 &&& PPC32_SDR1_HTMEXT_MASK)) <<< 16).toNat then (0, 0)
  else table offset

/-- The first hash value, which the map function and the walk both compute. -/
def pageHash (vsid vaddr : BitVec 32) : BitVec 32 :=
  (((vaddr >>> PPC32_MIN_PAGE_SHIFT) &&& 0xFFFF) ^^^ vsid) &&& 0x7FFFFF

def secondaryHash (hash : BitVec 32) : BitVec 32 := ~~~hash &&& 0x7FFFFF

def ptegOffset (sdr1 hash : BitVec 32) : BitVec 32 :=
  let tmp := (hash >>> 10) &&& (sdr1 &&& PPC32_SDR1_HTMEXT_MASK)
  ((hash &&& 0x3FF) <<< 6) ||| (tmp <<< 16)

/-- `pte_haddr` through the eight PTEs of a PTEG. -/
def pteHaddrs (sdr1 hash : BitVec 32) : List Nat :=
  (List.range 8).map fun i => (ptegOffset sdr1 hash).toNat + i * PPC32_PTE_SIZE

/-- The arguments of `ppc32_map_page`. -/
structure Mapping where
  vsid : BitVec 32
  vaddr : BitVec 32
  paddr : BitVec 64
  wimg : BitVec 32
  pp : BitVec 32

def pteUpper (vsid vaddr h : BitVec 32) : BitVec 32 :=
  (PPC32_PTEU_V ||| (vsid <<< PPC32_PTEU_VSID_SHIFT) ||| h) ||| ((vaddr >>> 22) &&& 0x3F)

def pteAttributes (m : Mapping) : BitVec 32 := (m.wimg <<< PPC32_PTEL_WIMG_SHIFT) + m.pp

def pteAddress (paddr : BitVec 64) : BitVec 32 :=
  (paddr.setWidth 32 &&& PPC32_PTEL_RPN_MASK) |||
    ((paddr >>> (32 - PPC32_PTEL_X_SHIFT)).setWidth 32 &&& PPC32_PTEL_X_MASK) |||
    ((paddr >>> (33 - PPC32_PTEL_XPN_SHIFT)).setWidth 32 &&& PPC32_PTEL_XPN_MASK)

def pteLower (m : Mapping) : BitVec 32 := pteAddress m.paddr ||| pteAttributes m

def writePte (table : PageTable) (offset : Nat) (m : Mapping) (h : BitVec 32) : PageTable :=
  Function.update table offset (pteUpper m.vsid m.vaddr h, pteLower m)

def isFree (table : PageTable) (offset : Nat) : Bool := (table offset).1 &&& PPC32_PTEU_V = 0

/-- `ppc32_map_page`, with no table for its result -1, which leaves the table as it is. -/
def mapPage (sdr1 : BitVec 32) (table : PageTable) (m : Mapping) : Option PageTable :=
  let hash := pageHash m.vsid m.vaddr
  match (pteHaddrs sdr1 hash).find? (isFree table) with
  | some offset => some (writePte table offset m 0)
  | none =>
    match (pteHaddrs sdr1 (secondaryHash hash)).find? (isFree table) with
    | some offset => some (writePte table offset m PPC32_PTEU_H)
    | none => none

def Mapping.next (m : Mapping) : Mapping :=
  { m with vaddr := m.vaddr + PPC32_MIN_PAGE_SIZE, paddr := m.paddr + 0x1000 }

@[simp] theorem Mapping.next_vsid (m : Mapping) : m.next.vsid = m.vsid := by
  simp only [Mapping.next]

/-- `ppc32_map_zone`, with its result and the table that it leaves; nothing where
the loop takes more than `fuel` turns. -/
def mapZone (sdr1 : BitVec 32) : Nat → PageTable → Mapping → BitVec 32 → Option (Int × PageTable)
  | 0, _, _, _ => none
  | fuel + 1, table, m, size =>
    if size > 0 then
      match mapPage sdr1 table m with
      | none => some (-1, table)
      | some table => mapZone sdr1 fuel table m.next (size - PPC32_MIN_PAGE_SIZE)
    else some (0, table)

/-- The physical address at `pte_lookup_done`. -/
def ptePaddr (pte2 : BitVec 32) : BitVec 64 :=
  (pte2 &&& PPC32_PTEL_RPN_MASK).setWidth 64 |||
    ((pte2 &&& PPC32_PTEL_XPN_MASK).setWidth 64 <<< (33 - PPC32_PTEL_XPN_SHIFT)) |||
    ((pte2 &&& PPC32_PTEL_X_MASK).setWidth 64 <<< (32 - PPC32_PTEL_X_SHIFT))

def segmentVsid (sr : BitVec 4 → BitVec 32) (vaddr : BitVec 32) : BitVec 32 :=
  sr ((vaddr >>> 28).setWidth 4) &&& PPC32_SD_VSID_MASK

/-- The walk of `ppc32_slow_lookup` from the test of SDR1 on, with the physical
page that it finds. -/
def walk (sdr1 : BitVec 32) (table : PageTable) (sr : BitVec 4 → BitVec 32) (vaddr : BitVec 32) :
    Option (BitVec 64) :=
  if sdr1 = 0 then none
  else
    let vsid := segmentVsid sr vaddr
    let hash := pageHash vsid vaddr
    let pteKey := 0x80000000#32 ||| (vsid <<< 7) ||| ((vaddr >>> 22) &&& 0x3F)
    match (pteHaddrs sdr1 hash).find? fun offset => (table offset).1 = pteKey with
    | some offset => some (ptePaddr (table offset).2)
    | none =>
      let hash := secondaryHash hash
      let pteKey := 0x80000040#32 ||| (vsid <<< 7) ||| ((vaddr >>> 22) &&& 0x3F)
      match (pteHaddrs sdr1 hash).find? fun offset => (table offset).1 = pteKey with
      | some offset => some (ptePaddr (table offset).2)
      | none => none

/-- A page of the virtual address space that the segment registers select from. -/
structure VirtualPage where
  vsid : BitVec 24
  index : BitVec 16
deriving DecidableEq

def virtualPage (vsid vaddr : BitVec 32) : VirtualPage :=
  ⟨vsid.setWidth 24, (vaddr >>> PPC32_MIN_PAGE_SHIFT).setWidth 16⟩

def VirtualPage.hash (p : VirtualPage) : BitVec 32 :=
  (p.index.setWidth 32 ^^^ p.vsid.setWidth 32) &&& 0x7FFFFF

def VirtualPage.upper (p : VirtualPage) (h : BitVec 32) : BitVec 32 :=
  (PPC32_PTEU_V ||| (p.vsid.setWidth 32 <<< PPC32_PTEU_VSID_SHIFT) ||| h) |||
    (p.index.setWidth 32 >>> 10)

/-- The PTEs that can hold a page, with the upper word that it has in each. -/
def pageSlots (sdr1 : BitVec 32) (p : VirtualPage) : List (Nat × BitVec 32) :=
  (pteHaddrs sdr1 p.hash).map (fun offset => (offset, p.upper 0)) ++
    (pteHaddrs sdr1 (secondaryHash p.hash)).map fun offset => (offset, p.upper PPC32_PTEU_H)

theorem setWidth_vsid {vsid : BitVec 32} (h : vsid.toNat < 2 ^ 24) :
    (vsid.setWidth 24).setWidth 32 = vsid := by
  apply BitVec.eq_of_toNat_eq
  rw [BitVec.toNat_setWidth, BitVec.toNat_setWidth]
  omega

theorem pageHash_eq {vsid : BitVec 32} (vaddr : BitVec 32) (h : vsid.toNat < 2 ^ 24) :
    pageHash vsid vaddr = (virtualPage vsid vaddr).hash := by
  have hindex : (vaddr >>> PPC32_MIN_PAGE_SHIFT) &&& 0xFFFF =
      ((vaddr >>> PPC32_MIN_PAGE_SHIFT).setWidth 16).setWidth 32 := by
    apply BitVec.eq_of_toNat_eq
    rw [BitVec.toNat_and, BitVec.toNat_setWidth, BitVec.toNat_setWidth]
    have hand := Nat.and_two_pow_sub_one_eq_mod (vaddr >>> PPC32_MIN_PAGE_SHIFT).toNat 16
    have hmask : (0xFFFF : BitVec 32).toNat = 2 ^ 16 - 1 := rfl
    rw [hmask, hand]
    omega
  simp only [pageHash, virtualPage, VirtualPage.hash, hindex, setWidth_vsid h]

theorem pteUpper_eq {vsid : BitVec 32} (vaddr h : BitVec 32) (hv : vsid.toNat < 2 ^ 24) :
    pteUpper vsid vaddr h = (virtualPage vsid vaddr).upper h := by
  have hindex : (vaddr >>> 22) &&& (0x3F : BitVec 32) =
      ((vaddr >>> PPC32_MIN_PAGE_SHIFT).setWidth 16).setWidth 32 >>> 10 := by
    apply BitVec.eq_of_toNat_eq
    have hand := Nat.and_two_pow_sub_one_eq_mod (vaddr >>> 22).toNat 6
    have hmask : (0x3F : BitVec 32).toNat = 2 ^ 6 - 1 := rfl
    rw [BitVec.toNat_and, hmask, hand]
    simp only [BitVec.toNat_ushiftRight, BitVec.toNat_setWidth, Nat.shiftRight_eq_div_pow,
      PPC32_MIN_PAGE_SHIFT]
    omega
  simp only [pteUpper, virtualPage, VirtualPage.upper, hindex, setWidth_vsid hv]

theorem ptegOffset_toNat (sdr1 hash : BitVec 32) :
    (ptegOffset sdr1 hash).toNat = (hash.toNat % 1024) * 64 +
      ((hash >>> 10) &&& (sdr1 &&& PPC32_SDR1_HTMEXT_MASK)).toNat * 65536 := by
  have hlow : (hash &&& 0x3FF).toNat = hash.toNat % 1024 := by
    rw [BitVec.toNat_and]
    exact Nat.and_two_pow_sub_one_eq_mod hash.toNat 10
  have htmp : ((hash >>> 10) &&& (sdr1 &&& PPC32_SDR1_HTMEXT_MASK)).toNat ≤ 0x1FFF := by
    rw [BitVec.toNat_and, BitVec.toNat_and]
    exact le_trans Nat.and_le_right Nat.and_le_right
  simp only [ptegOffset, BitVec.toNat_or, BitVec.toNat_shiftLeft, hlow]
  generalize ((hash >>> 10) &&& (sdr1 &&& PPC32_SDR1_HTMEXT_MASK)).toNat = tmp at htmp ⊢
  have hlt : (hash.toNat % 1024) <<< 6 < 2 ^ 16 := by
    rw [Nat.shiftLeft_eq]
    omega
  have hlt' : tmp <<< 16 < 2 ^ 32 := by
    rw [Nat.shiftLeft_eq]
    omega
  rw [Nat.mod_eq_of_lt (by omega), Nat.mod_eq_of_lt hlt', Nat.or_comm,
    ← Nat.shiftLeft_add_eq_or_of_lt hlt, Nat.shiftLeft_eq, Nat.shiftLeft_eq]
  omega

theorem mem_pteHaddrs {sdr1 hash : BitVec 32} {a : Nat} :
    a ∈ pteHaddrs sdr1 hash ↔ ∃ i < 8, a = (ptegOffset sdr1 hash).toNat + i * 8 := by
  simp only [pteHaddrs, List.mem_map, List.mem_range, PPC32_PTE_SIZE, eq_comm]

theorem mem_pageSlots {sdr1 : BitVec 32} {p : VirtualPage} {s : Nat × BitVec 32} :
    s ∈ pageSlots sdr1 p ↔ s.1 ∈ pteHaddrs sdr1 p.hash ∧ s.2 = p.upper 0 ∨
      s.1 ∈ pteHaddrs sdr1 (secondaryHash p.hash) ∧ s.2 = p.upper PPC32_PTEU_H := by
  obtain ⟨a, tag⟩ := s
  simp only [pageSlots, List.mem_append, List.mem_map, Prod.mk.injEq]
  simp [eq_comm]

theorem hash_low_of_mem {sdr1 hash hash' : BitVec 32} {a : Nat} (h : a ∈ pteHaddrs sdr1 hash)
    (h' : a ∈ pteHaddrs sdr1 hash') {j : Nat} (hj : j < 10) :
    hash.getLsbD j = hash'.getLsbD j := by
  have hmod : hash.toNat % 2 ^ 10 = hash'.toNat % 2 ^ 10 := by
    obtain ⟨i, hi, rfl⟩ := mem_pteHaddrs.mp h
    obtain ⟨i', hi', heq⟩ := mem_pteHaddrs.mp h'
    rw [ptegOffset_toNat, ptegOffset_toNat] at heq
    omega
  have hbit := congrArg (fun n => n.testBit j) hmod
  simp only [Nat.testBit_mod_two_pow, hj, decide_true, Bool.true_and] at hbit
  exact hbit

theorem hash_getLsbD (p : VirtualPage) {j : Nat} (hj : j < 10) :
    p.hash.getLsbD j = (p.index.getLsbD j ^^ p.vsid.getLsbD j) := by
  have hmask : (0x7FFFFF : BitVec 32).getLsbD j = true := by
    revert j
    decide
  have hlt : j < 32 := by omega
  simp only [VirtualPage.hash, BitVec.getLsbD_and, BitVec.getLsbD_xor, BitVec.getLsbD_setWidth,
    hmask, hlt, decide_true, Bool.true_and, Bool.and_true]

theorem secondaryHash_getLsbD (hash : BitVec 32) {j : Nat} (hj : j < 10) :
    (secondaryHash hash).getLsbD j = !hash.getLsbD j := by
  have hmask : (0x7FFFFF : BitVec 32).getLsbD j = true := by
    revert j
    decide
  have hlt : j < 32 := by omega
  simp only [secondaryHash, BitVec.getLsbD_and, BitVec.getLsbD_not, hmask, hlt, decide_true,
    Bool.true_and, Bool.and_true]

theorem upper_getLsbD_vsid (p : VirtualPage) {h : BitVec 32} (hh : h = 0 ∨ h = PPC32_PTEU_H)
    {j : Nat} (hj : j < 24) : (p.upper h).getLsbD (j + 7) = p.vsid.getLsbD j := by
  have hv : PPC32_PTEU_V.getLsbD (j + 7) = false := by
    revert j
    decide
  have hb : h.getLsbD (j + 7) = false := by
    rcases hh with rfl | rfl
    · simp
    · revert j
      decide
  have hindex : p.index.getLsbD (10 + (j + 7)) = false := BitVec.getLsbD_of_ge _ _ (by omega)
  have hlt : j + 7 < 32 := by omega
  have hge : ¬ j + 7 < 7 := by omega
  simp only [VirtualPage.upper, BitVec.getLsbD_or, BitVec.getLsbD_shiftLeft,
    BitVec.getLsbD_ushiftRight, BitVec.getLsbD_setWidth, PPC32_PTEU_VSID_SHIFT, hv, hb, hindex,
    hlt, hge, Nat.add_sub_cancel, show j < 32 by omega, decide_true, decide_false, Bool.not_false,
    Bool.true_and, Bool.false_or, Bool.or_false, Bool.and_false]

theorem upper_getLsbD_h (p : VirtualPage) (h : BitVec 32) :
    (p.upper h).getLsbD 6 = h.getLsbD 6 := by
  simp [VirtualPage.upper, PPC32_PTEU_V, PPC32_PTEU_VSID_SHIFT]

theorem upper_getLsbD_index (p : VirtualPage) {h : BitVec 32} (hh : h = 0 ∨ h = PPC32_PTEU_H)
    {j : Nat} (hj : j < 6) : (p.upper h).getLsbD j = p.index.getLsbD (10 + j) := by
  have hv : PPC32_PTEU_V.getLsbD j = false := by
    revert j
    decide
  have hb : h.getLsbD j = false := by
    rcases hh with rfl | rfl
    · simp
    · revert j
      decide
  have hlt : j < 7 := by omega
  have hlt' : 10 + j < 32 := by omega
  simp only [VirtualPage.upper, BitVec.getLsbD_or, BitVec.getLsbD_shiftLeft,
    BitVec.getLsbD_ushiftRight, BitVec.getLsbD_setWidth, PPC32_PTEU_VSID_SHIFT, hv, hb,
    hlt, hlt', decide_true, Bool.not_true, Bool.and_false, Bool.false_and, Bool.false_or,
    Bool.true_and]

theorem upper_getLsbD_valid (p : VirtualPage) (h : BitVec 32) :
    (p.upper h).getLsbD 31 = true := by
  simp [VirtualPage.upper, PPC32_PTEU_V]

theorem page_of_upper {p p' : VirtualPage} {h : BitVec 32}
    (hh : h = 0 ∨ h = PPC32_PTEU_H) (hu : p.upper h = p'.upper h)
    (hlow : ∀ j < 10, p.hash.getLsbD j = p'.hash.getLsbD j) : p = p' := by
  have hvsid : p.vsid = p'.vsid := by
    apply BitVec.eq_of_getLsbD_eq
    intro j hj
    rw [← upper_getLsbD_vsid p hh hj, ← upper_getLsbD_vsid p' hh hj, hu]
  have hindex : p.index = p'.index := by
    apply BitVec.eq_of_getLsbD_eq
    intro j hj
    by_cases hj' : j < 10
    · have hbit := hlow j hj'
      rw [hash_getLsbD p hj', hash_getLsbD p' hj', hvsid] at hbit
      simpa using hbit
    · obtain ⟨k, rfl⟩ : ∃ k, j = 10 + k := ⟨j - 10, by omega⟩
      have hk : k < 6 := by omega
      rw [← upper_getLsbD_index p hh hk, ← upper_getLsbD_index p' hh hk, hu]
  cases p
  cases p'
  simp only at hvsid hindex
  rw [hvsid, hindex]

theorem page_of_mem {sdr1 : BitVec 32} {p p' : VirtualPage} {s : Nat × BitVec 32}
    (h : s ∈ pageSlots sdr1 p) (h' : s ∈ pageSlots sdr1 p') : p = p' := by
  have hside : ∀ q q' : VirtualPage, q.upper 0 ≠ q'.upper PPC32_PTEU_H := by
    intro q q' heq
    have hbit := congrArg (fun u => BitVec.getLsbD u 6) heq
    simp only [upper_getLsbD_h] at hbit
    revert hbit
    decide
  rcases mem_pageSlots.mp h with ⟨ha, hu⟩ | ⟨ha, hu⟩
  · rcases mem_pageSlots.mp h' with ⟨ha', hu'⟩ | ⟨ha', hu'⟩
    · exact page_of_upper (.inl rfl) (hu.symm.trans hu') fun j hj => hash_low_of_mem ha ha' hj
    · exact absurd (hu.symm.trans hu') (hside p p')
  · rcases mem_pageSlots.mp h' with ⟨ha', hu'⟩ | ⟨ha', hu'⟩
    · exact absurd (hu'.symm.trans hu) (hside p' p)
    · refine page_of_upper (.inr rfl) (hu.symm.trans hu') ?_
      intro j hj
      have hlow := hash_low_of_mem ha ha' hj
      rw [secondaryHash_getLsbD _ hj, secondaryHash_getLsbD _ hj] at hlow
      simpa using hlow

def pteScheme (sdr1 : BitVec 32) : Slots.Scheme VirtualPage Nat (BitVec 32) where
  slots := pageSlots sdr1
  valid := fun upper => !decide (upper &&& PPC32_PTEU_V = 0)
  valid_of_mem := by
    intro p s hs
    have hv : s.2.getLsbD 31 = true := by
      rcases mem_pageSlots.mp hs with ⟨-, hu⟩ | ⟨-, hu⟩
      · rw [hu, upper_getLsbD_valid]
      · rw [hu, upper_getLsbD_valid]
    rw [Bool.not_eq_true', decide_eq_false_iff_not]
    intro hzero
    have hbit := congrArg (fun u => BitVec.getLsbD u 31) hzero
    simp only [BitVec.getLsbD_and, hv] at hbit
    revert hbit
    decide
  key_of_mem := by
    intro p p' s hs hs'
    exact page_of_mem hs hs'

def Mapping.page (m : Mapping) : VirtualPage := virtualPage m.vsid m.vaddr

theorem insert_eq (sdr1 : BitVec 32) (table : PageTable) (p : VirtualPage) (lower : BitVec 32) :
    Slots.insert (pteScheme sdr1) table (p, lower) =
      match (pteHaddrs sdr1 p.hash).find? (isFree table) with
      | some offset => some (Function.update table offset (p.upper 0, lower))
      | none =>
        match (pteHaddrs sdr1 (secondaryHash p.hash)).find? (isFree table) with
        | some offset => some (Function.update table offset (p.upper PPC32_PTEU_H, lower))
        | none => none := by
  have hfree : ∀ u : BitVec 32, (fun s : Nat × BitVec 32 => !(pteScheme sdr1).valid (table s.1).1) ∘
      (fun offset => (offset, u)) = isFree table := by
    intro u
    funext offset
    simp [pteScheme, isFree]
  unfold Slots.insert
  simp only [pteScheme, pageSlots, List.find?_append, List.find?_map] at hfree ⊢
  rw [hfree, hfree]
  cases (pteHaddrs sdr1 p.hash).find? (isFree table) with
  | some offset => rfl
  | none =>
    cases (pteHaddrs sdr1 (secondaryHash p.hash)).find? (isFree table) with
    | some offset => rfl
    | none => rfl

theorem mapPage_eq (sdr1 : BitVec 32) (table : PageTable) {m : Mapping}
    (h : m.vsid.toNat < 2 ^ 24) :
    mapPage sdr1 table m = Slots.insert (pteScheme sdr1) table (m.page, pteLower m) := by
  rw [insert_eq]
  simp only [mapPage, writePte, pageHash_eq _ h, pteUpper_eq _ _ h, Mapping.page]

theorem segmentVsid_lt (sr : BitVec 4 → BitVec 32) (vaddr : BitVec 32) :
    (segmentVsid sr vaddr).toNat < 2 ^ 24 := by
  rw [segmentVsid, BitVec.toNat_and]
  exact Nat.lt_of_le_of_lt Nat.and_le_right (by decide)

theorem pteKey_eq (vsid vaddr : BitVec 32) :
    0x80000000#32 ||| (vsid <<< 7) ||| ((vaddr >>> 22) &&& 0x3F) = pteUpper vsid vaddr 0 := by
  have hzero : (0 : BitVec 32) = 0#32 := rfl
  rw [pteUpper, hzero, BitVec.or_zero]
  rfl

theorem pteKey_secondary_eq (vsid vaddr : BitVec 32) :
    0x80000040#32 ||| (vsid <<< 7) ||| ((vaddr >>> 22) &&& 0x3F) =
      pteUpper vsid vaddr PPC32_PTEU_H := by
  have hbits : (0x80000040#32 : BitVec 32) = PPC32_PTEU_V ||| PPC32_PTEU_H := by decide
  rw [pteUpper, hbits, BitVec.or_assoc PPC32_PTEU_V, BitVec.or_comm PPC32_PTEU_H,
    ← BitVec.or_assoc]
  rfl

theorem walk_eq {sdr1 : BitVec 32} (hs : sdr1 ≠ 0) (table : PageTable) (sr : BitVec 4 → BitVec 32)
    (vaddr : BitVec 32) :
    walk sdr1 table sr vaddr = (Slots.lookup (pteScheme sdr1) table
      (virtualPage (segmentVsid sr vaddr) vaddr)).map ptePaddr := by
  have hlt := segmentVsid_lt sr vaddr
  have hdone : ∀ u : BitVec 32, (fun s : Nat × BitVec 32 => decide ((table s.1).1 = s.2)) ∘
      (fun offset => (offset, u)) = fun offset => decide ((table offset).1 = u) := by
    intro u
    rfl
  simp only [walk, if_neg hs, pteKey_eq, pteKey_secondary_eq, pageHash_eq _ hlt,
    pteUpper_eq _ _ hlt, Slots.lookup, pteScheme, pageSlots, List.find?_append, List.find?_map,
    hdone]
  generalize (pteHaddrs sdr1 (virtualPage (segmentVsid sr vaddr) vaddr).hash).find? _ = primary
  cases primary with
  | some offset => rfl
  | none =>
    generalize (pteHaddrs sdr1 (secondaryHash _)).find? _ = secondary
    cases secondary with
    | some offset => rfl
    | none => rfl

theorem walk_zero (table : PageTable) (sr : BitVec 4 → BitVec 32) (vaddr : BitVec 32) :
    walk 0 table sr vaddr = none := if_pos rfl

theorem rpnMask_getLsbD (j : Nat) :
    PPC32_PTEL_RPN_MASK.getLsbD j = decide (12 ≤ j ∧ j < 32) := by
  by_cases hj : j < 32
  · revert j
    decide
  · rw [BitVec.getLsbD_of_ge _ _ (by omega)]
    simp [hj]

theorem xpnMask_getLsbD (j : Nat) :
    PPC32_PTEL_XPN_MASK.getLsbD j = decide (j = 10 ∨ j = 11) := by
  by_cases hj : j < 32
  · revert j
    decide
  · rw [BitVec.getLsbD_of_ge _ _ (by omega)]
    simp
    omega

theorem xMask_getLsbD (j : Nat) : PPC32_PTEL_X_MASK.getLsbD j = decide (j = 2) := by
  by_cases hj : j < 32
  · revert j
    decide
  · rw [BitVec.getLsbD_of_ge _ _ (by omega)]
    simp
    omega

theorem ptePaddr_getLsbD (w : BitVec 32) (j : Nat) :
    (ptePaddr w).getLsbD j = (decide (12 ≤ j ∧ j < 32) && w.getLsbD j ||
      decide (j = 34 ∨ j = 35) && w.getLsbD (j - 24) || decide (j = 32) && w.getLsbD (j - 30)) := by
  simp only [ptePaddr, PPC32_PTEL_XPN_SHIFT, PPC32_PTEL_X_SHIFT, BitVec.getLsbD_or,
    BitVec.getLsbD_shiftLeft, BitVec.getLsbD_setWidth, BitVec.getLsbD_and, rpnMask_getLsbD,
    xpnMask_getLsbD, xMask_getLsbD]
  grind

theorem pteAddress_getLsbD (paddr : BitVec 64) (j : Nat) :
    (pteAddress paddr).getLsbD j = (decide (12 ≤ j ∧ j < 32) && paddr.getLsbD j ||
      decide (j = 10 ∨ j = 11) && paddr.getLsbD (j + 24) ||
      decide (j = 2) && paddr.getLsbD (j + 30)) := by
  simp only [pteAddress, PPC32_PTEL_XPN_SHIFT, PPC32_PTEL_X_SHIFT, BitVec.getLsbD_or,
    BitVec.getLsbD_ushiftRight, BitVec.getLsbD_setWidth, BitVec.getLsbD_and, rpnMask_getLsbD,
    xpnMask_getLsbD, xMask_getLsbD]
  grind

/-- The attributes set no bit of the address in a PTE that the address leaves clear. -/
def Mapping.AttributesFit (m : Mapping) : Prop :=
  (pteAttributes m &&& ~~~pteAddress m.paddr) &&&
    (PPC32_PTEL_RPN_MASK ||| PPC32_PTEL_XPN_MASK ||| PPC32_PTEL_X_MASK) = 0

instance (m : Mapping) : Decidable m.AttributesFit :=
  inferInstanceAs (Decidable (_ = (0 : BitVec 32)))

theorem attributesFit_iff (m : Mapping) : m.AttributesFit ↔
    ∀ j, (12 ≤ j ∧ j < 32) ∨ (j = 10 ∨ j = 11) ∨ j = 2 →
      (pteAttributes m).getLsbD j = true → (pteAddress m.paddr).getLsbD j = true := by
  constructor
  · intro h j hj hattr
    have hbit := congrArg (fun u => BitVec.getLsbD u j) h
    simp only [BitVec.getLsbD_and, BitVec.getLsbD_or, BitVec.getLsbD_not, rpnMask_getLsbD,
      xpnMask_getLsbD, xMask_getLsbD, hattr] at hbit
    grind
  · intro h
    apply BitVec.eq_of_getLsbD_eq
    intro j hj
    have hfit := h j
    simp only [BitVec.getLsbD_and, BitVec.getLsbD_or, BitVec.getLsbD_not, rpnMask_getLsbD,
      xpnMask_getLsbD, xMask_getLsbD]
    grind

theorem getLsbD_of_lt_page {paddr : BitVec 64} (h : paddr.toNat % 4096 = 0) {j : Nat}
    (hj : j < 12) : paddr.getLsbD j = false := by
  have hbit := Nat.testBit_mod_two_pow paddr.toNat 12 j
  rw [h] at hbit
  simp only [Nat.zero_testBit, hj, decide_true, Bool.true_and] at hbit
  exact hbit.symm

theorem ptePaddr_pteLower_iff {m : Mapping} (ha : m.paddr.toNat % 4096 = 0)
    (hlt : m.paddr.toNat < 2 ^ 36) :
    ptePaddr (pteLower m) = m.paddr ↔ m.paddr.getLsbD 33 = false ∧ m.AttributesFit := by
  have hlow : ∀ j < 12, m.paddr.getLsbD j = false := fun j hj => getLsbD_of_lt_page ha hj
  have hhigh : ∀ j, 36 ≤ j → m.paddr.getLsbD j = false := by
    intro j hj
    exact Nat.testBit_lt_two_pow (Nat.lt_of_lt_of_le hlt (Nat.pow_le_pow_right (by omega) hj))
  rw [attributesFit_iff]
  constructor
  · intro h
    have hbit : ∀ j, (ptePaddr (pteLower m)).getLsbD j = m.paddr.getLsbD j := by
      intro j
      rw [h]
    constructor
    · rw [← hbit, ptePaddr_getLsbD]
      simp
    · intro j hj hattr
      have h0 := hbit j
      have h24 := hbit (j + 24)
      have h30 := hbit (j + 30)
      rw [ptePaddr_getLsbD] at h0 h24 h30
      simp only [pteLower, BitVec.getLsbD_or] at h0 h24 h30
      rw [pteAddress_getLsbD]
      grind
  · rintro ⟨h33, hfit⟩
    apply BitVec.eq_of_getLsbD_eq
    intro j hj
    have h0 := hfit j
    have h24 := hfit (j - 24)
    have h30 := hfit (j - 30)
    rw [pteAddress_getLsbD] at h0 h24 h30
    rw [ptePaddr_getLsbD]
    simp only [pteLower, BitVec.getLsbD_or, pteAddress_getLsbD]
    grind

/-- `n` pages from the one of `m` on. -/
def pagesFrom (m : Mapping) : Nat → List Mapping
  | 0 => []
  | n + 1 => m :: pagesFrom m.next n

def ZoneReturns (sdr1 : BitVec 32) (table : PageTable) (m : Mapping) (size : BitVec 32)
    (result : Int × PageTable) : Prop :=
  ∃ fuel, mapZone sdr1 fuel table m size = some result

inductive MapCall where
  | page (m : Mapping)
  | zone (m : Mapping) (size : BitVec 32)

def MapCall.pages : MapCall → List Mapping
  | .page m => [m]
  | .zone m size => pagesFrom m (size.toNat / 4096)

/-- The call returns 0 and leaves `table'`. -/
def MapCall.Maps (sdr1 : BitVec 32) (table : PageTable) : MapCall → PageTable → Prop
  | .page m, table' => mapPage sdr1 table m = some table'
  | .zone m size, table' => ZoneReturns sdr1 table m size (0, table')

def AllMap (sdr1 : BitVec 32) : PageTable → List MapCall → PageTable → Prop
  | table, [], table' => table' = table
  | table, call :: calls, table' =>
    ∃ mid, call.Maps sdr1 table mid ∧ AllMap sdr1 mid calls table'

def mapPages (sdr1 : BitVec 32) (table : PageTable) (pages : List Mapping) : Option PageTable :=
  pages.foldlM (mapPage sdr1) table

theorem mapPages_cons {sdr1 : BitVec 32} {table : PageTable} {m : Mapping} {pages : List Mapping} :
    mapPages sdr1 table (m :: pages) =
      (mapPage sdr1 table m).bind fun table => mapPages sdr1 table pages := List.foldlM_cons

theorem size_sub {size : BitVec 32} (h : size.toNat % 4096 = 0) (hpos : size > 0) :
    (size - PPC32_MIN_PAGE_SIZE).toNat + 4096 = size.toNat := by
  have hpage : PPC32_MIN_PAGE_SIZE.toNat = 4096 := rfl
  have hlt : 0 < size.toNat := hpos
  rw [BitVec.toNat_sub, hpage]
  omega

theorem mapZone_zero {sdr1 : BitVec 32} {fuel : Nat} {table table' : PageTable} {m : Mapping}
    {size : BitVec 32} (h : mapZone sdr1 fuel table m size = some (0, table')) :
    size.toNat % 4096 = 0 ∧
      mapPages sdr1 table (pagesFrom m (size.toNat / 4096)) = some table' := by
  induction fuel generalizing table m size with
  | zero => cases h
  | succ fuel ih =>
    simp only [mapZone] at h
    split at h
    · rename_i hpos
      cases hm : mapPage sdr1 table m with
      | none =>
        rw [hm] at h
        simp at h
      | some mid =>
        rw [hm] at h
        obtain ⟨hmod, hrest⟩ := ih h
        have hmod' : size.toNat % 4096 = 0 := by
          have hpage : PPC32_MIN_PAGE_SIZE.toNat = 4096 := rfl
          rw [BitVec.toNat_sub, hpage] at hmod
          omega
        have hsub := size_sub hmod' hpos
        have hcount : size.toNat / 4096 = (size - PPC32_MIN_PAGE_SIZE).toNat / 4096 + 1 := by omega
        refine ⟨hmod', ?_⟩
        rw [hcount, pagesFrom, mapPages_cons, hm]
        exact hrest
    · rename_i hpos
      have hzero : size.toNat = 0 := by
        have hle : ¬ 0 < size.toNat := hpos
        omega
      simp only [Option.some.injEq, Prod.mk.injEq, true_and] at h
      rw [hzero, h]
      exact ⟨rfl, rfl⟩

theorem zoneReturns_of_mapPages {sdr1 : BitVec 32} {table table' : PageTable} {m : Mapping}
    {size : BitVec 32} {n : Nat} (hsize : size.toNat = n * 4096)
    (h : mapPages sdr1 table (pagesFrom m n) = some table') :
    ZoneReturns sdr1 table m size (0, table') := by
  induction n generalizing table m size with
  | zero =>
    have hpos : ¬ size > 0 := by
      intro hpos
      have hlt : 0 < size.toNat := hpos
      omega
    have htable : table = table' := by
      simpa [pagesFrom, mapPages] using h
    exact ⟨1, by rw [mapZone, if_neg hpos, htable]⟩
  | succ n ih =>
    have hpos : size > 0 := by
      have hlt : 0 < size.toNat := by omega
      exact hlt
    have hsub := size_sub (by omega) hpos
    rw [pagesFrom, mapPages_cons] at h
    obtain ⟨mid, hm, hrest⟩ := Option.bind_eq_some_iff.mp h
    have hcount : (size - PPC32_MIN_PAGE_SIZE).toNat = n * 4096 := by omega
    obtain ⟨fuel, hfuel⟩ := ih hcount hrest
    refine ⟨fuel + 1, ?_⟩
    rw [mapZone, if_pos hpos, hm]
    exact hfuel

theorem mapPages_append {sdr1 : BitVec 32} {table : PageTable} {pages pages' : List Mapping} :
    mapPages sdr1 table (pages ++ pages') =
      (mapPages sdr1 table pages).bind fun table => mapPages sdr1 table pages' :=
  List.foldlM_append

theorem mapPages_of_allMap {sdr1 : BitVec 32} {table table' : PageTable} {calls : List MapCall}
    (h : AllMap sdr1 table calls table') :
    mapPages sdr1 table (calls.flatMap MapCall.pages) = some table' := by
  induction calls generalizing table with
  | nil =>
    rw [h]
    rfl
  | cons call calls ih =>
    obtain ⟨mid, hcall, hrest⟩ := h
    have hmid : mapPages sdr1 table call.pages = some mid := by
      cases call with
      | page m =>
        have hm : mapPage sdr1 table m = some mid := hcall
        simp [MapCall.pages, mapPages, hm]
      | zone m size =>
        obtain ⟨fuel, hfuel⟩ := hcall
        exact (mapZone_zero hfuel).2
    rw [List.flatMap_cons, mapPages_append, hmid]
    exact ih hrest

def Mapping.entry (m : Mapping) : VirtualPage × BitVec 32 := (m.page, pteLower m)

theorem mapPages_eq {sdr1 : BitVec 32} {table : PageTable} {pages : List Mapping}
    (h : ∀ m ∈ pages, m.vsid.toNat < 2 ^ 24) :
    mapPages sdr1 table pages =
      (pages.map Mapping.entry).foldlM (Slots.insert (pteScheme sdr1)) table := by
  induction pages generalizing table with
  | nil => rfl
  | cons m pages ih =>
    rw [mapPages_cons, mapPage_eq sdr1 table (h m (by simp)), List.map_cons, List.foldlM_cons]
    refine congrArg _ (funext fun mid => ?_)
    exact ih fun m' hm' => h m' (List.mem_cons_of_mem m hm')

theorem pteHaddr_lt {sdr1 hash : BitVec 32} {a : Nat} (h : a ∈ pteHaddrs sdr1 hash) :
    a < ((1 + (sdr1 &&& PPC32_SDR1_HTMEXT_MASK)) <<< 16).toNat := by
  obtain ⟨i, hi, rfl⟩ := mem_pteHaddrs.mp h
  have htmp : ((hash >>> 10) &&& (sdr1 &&& PPC32_SDR1_HTMEXT_MASK)).toNat ≤
      (sdr1 &&& PPC32_SDR1_HTMEXT_MASK).toNat := by
    rw [BitVec.toNat_and]
    exact Nat.and_le_right
  have hmask : (sdr1 &&& PPC32_SDR1_HTMEXT_MASK).toNat ≤ 0x1FFF := by
    rw [BitVec.toNat_and]
    exact Nat.and_le_right
  have hone : (1 : BitVec 32).toNat = 1 := rfl
  rw [ptegOffset_toNat, BitVec.toNat_shiftLeft, BitVec.toNat_add, Nat.shiftLeft_eq, hone]
  omega

theorem holds_initPageTable (sdr1 : BitVec 32) (table : PageTable) :
    Slots.Holds (pteScheme sdr1) (initPageTable sdr1 table) [] := by
  apply Slots.holds_nil
  intro p s hs
  have hlt : s.1 < ((1 + (sdr1 &&& PPC32_SDR1_HTMEXT_MASK)) <<< 16).toNat := by
    rcases mem_pageSlots.mp hs with ⟨ha, -⟩ | ⟨ha, -⟩
    · exact pteHaddr_lt ha
    · exact pteHaddr_lt ha
  rw [initPageTable, if_pos hlt]
  rfl

/-- The pages that the calls map are distinct, with 24-bit segments and page-aligned
36-bit physical addresses. -/
structure Distinct (pages : List Mapping) : Prop where
  vsid : ∀ m ∈ pages, m.vsid.toNat < 2 ^ 24
  aligned : ∀ m ∈ pages, m.paddr.toNat % 4096 = 0
  paddr : ∀ m ∈ pages, m.paddr.toNat < 2 ^ 36
  page : (pages.map Mapping.page).Nodup

def mappingOf (pages : List Mapping) (sr : BitVec 4 → BitVec 32) (vaddr : BitVec 32) :
    Option Mapping :=
  pages.find? fun m => decide (m.page = virtualPage (segmentVsid sr vaddr) vaddr)

/-- The walk finds each page where it was mapped and no other page. -/
def WalkFinds (sdr1 : BitVec 32) (table : PageTable) (pages : List Mapping) : Prop :=
  ∀ (sr : BitVec 4 → BitVec 32) (vaddr : BitVec 32),
    walk sdr1 table sr vaddr = (mappingOf pages sr vaddr).map Mapping.paddr

theorem walk_of_mapPages {sdr1 : BitVec 32} {table table' : PageTable} {pages : List Mapping}
    (hd : Distinct pages) (hs : sdr1 ≠ 0)
    (h : mapPages sdr1 (initPageTable sdr1 table) pages = some table')
    (sr : BitVec 4 → BitVec 32) (vaddr : BitVec 32) :
    walk sdr1 table' sr vaddr = (mappingOf pages sr vaddr).map fun m => ptePaddr (pteLower m) := by
  rw [mapPages_eq hd.vsid] at h
  have hholds := Slots.holds_inserts _ (holds_initPageTable sdr1 table) h
  rw [List.nil_append] at hholds
  have hkeys : ∀ e ∈ pages.map Mapping.entry, ∀ e' ∈ pages.map Mapping.entry,
      e.1 = e'.1 → e = e' := by
    intro e he e' he' hp
    obtain ⟨m, hm, rfl⟩ := List.mem_map.mp he
    obtain ⟨m', hm', rfl⟩ := List.mem_map.mp he'
    rw [List.inj_on_of_nodup_map hd.page hm hm' hp]
  rw [walk_eq hs, Slots.lookup_of_holds hholds hkeys, List.find?_map, Option.map_map,
    Option.map_map]
  rfl

def Reachable (sdr1 : BitVec 32) (pages : List Mapping) : Prop :=
  (pages ≠ [] → sdr1 ≠ 0) ∧ ∀ m ∈ pages, m.paddr.getLsbD 33 = false ∧ m.AttributesFit

instance (sdr1 : BitVec 32) (pages : List Mapping) : Decidable (Reachable sdr1 pages) :=
  inferInstanceAs (Decidable (_ ∧ _))

theorem mappingOf_self {pages : List Mapping} (hd : Distinct pages) {m : Mapping} (hm : m ∈ pages) :
    mappingOf pages (fun _ => m.vsid) m.vaddr = some m := by
  have hvsid : segmentVsid (fun _ => m.vsid) m.vaddr = m.vsid := by
    apply BitVec.eq_of_toNat_eq
    have hlt := hd.vsid m hm
    have hmask : PPC32_SD_VSID_MASK.toNat = 2 ^ 24 - 1 := rfl
    rw [segmentVsid, BitVec.toNat_and, hmask, Nat.and_two_pow_sub_one_eq_mod]
    omega
  unfold mappingOf
  rw [hvsid]
  cases hfind : pages.find? fun m' => decide (m'.page = virtualPage m.vsid m.vaddr) with
  | none =>
    rw [List.find?_eq_none] at hfind
    exact absurd (decide_eq_true rfl) (hfind m hm)
  | some m' =>
    have hpage : m'.page = virtualPage m.vsid m.vaddr := by simpa using List.find?_some hfind
    rw [List.inj_on_of_nodup_map hd.page (List.mem_of_find?_eq_some hfind) hm hpage]

theorem walkFinds_iff {sdr1 : BitVec 32} {table table' : PageTable} {pages : List Mapping}
    (hd : Distinct pages) (h : mapPages sdr1 (initPageTable sdr1 table) pages = some table') :
    WalkFinds sdr1 table' pages ↔ Reachable sdr1 pages := by
  constructor
  · intro hfinds
    have hs : pages ≠ [] → sdr1 ≠ 0 := by
      intro hne hzero
      obtain ⟨m, hm⟩ := List.exists_mem_of_ne_nil pages hne
      have hfind := hfinds (fun _ => m.vsid) m.vaddr
      rw [mappingOf_self hd hm, hzero, walk_zero] at hfind
      cases hfind
    refine ⟨hs, ?_⟩
    intro m hm
    have hfind := hfinds (fun _ => m.vsid) m.vaddr
    rw [walk_of_mapPages hd (hs (List.ne_nil_of_mem hm)) h, mappingOf_self hd hm] at hfind
    exact (ptePaddr_pteLower_iff (hd.aligned m hm) (hd.paddr m hm)).mp (Option.some.inj hfind)
  · rintro ⟨hs, hpages⟩ sr vaddr
    by_cases hne : pages = []
    · subst hne
      have hnone : mappingOf [] sr vaddr = none := rfl
      rw [hnone]
      by_cases hzero : sdr1 = 0
      · rw [hzero, walk_zero]
        rfl
      · rw [walk_of_mapPages hd hzero h, hnone]
        rfl
    · rw [walk_of_mapPages hd (hs hne) h]
      cases hfind : mappingOf pages sr vaddr with
      | none => rfl
      | some m =>
        have hm := List.mem_of_find?_eq_some hfind
        have haddr := (ptePaddr_pteLower_iff (hd.aligned m hm) (hd.paddr m hm)).mpr (hpages m hm)
        exact congrArg some haddr

def pteOffsets : Finset Nat := Finset.range (2 ^ 32)

def freePtes (sdr1 : BitVec 32) (table : PageTable) : Nat :=
  (Slots.freeSlots (pteScheme sdr1) pteOffsets table).card

theorem freePtes_lt {sdr1 : BitVec 32} {table table' : PageTable} {m : Mapping}
    (hv : m.vsid.toNat < 2 ^ 24) (h : mapPage sdr1 table m = some table') :
    freePtes sdr1 table' < freePtes sdr1 table := by
  rw [mapPage_eq sdr1 table hv] at h
  refine Slots.card_freeSlots_lt ?_ h
  intro s hs
  have hlt := ((1 + (sdr1 &&& PPC32_SDR1_HTMEXT_MASK)) <<< 16).isLt
  rcases mem_pageSlots.mp hs with ⟨ha, -⟩ | ⟨ha, -⟩
  · exact Finset.mem_range.mpr (Nat.lt_trans (pteHaddr_lt ha) hlt)
  · exact Finset.mem_range.mpr (Nat.lt_trans (pteHaddr_lt ha) hlt)

theorem zone_terminates (sdr1 : BitVec 32) (table : PageTable) (m : Mapping) (size : BitVec 32)
    (hv : m.vsid.toNat < 2 ^ 24) : ∃ result, ZoneReturns sdr1 table m size result := by
  induction hfree : freePtes sdr1 table using Nat.strong_induction_on
    generalizing table m size with
  | _ free ih =>
    by_cases hpos : size > 0
    · cases hm : mapPage sdr1 table m with
      | none =>
        refine ⟨(-1, table), 1, ?_⟩
        rw [mapZone, if_pos hpos, hm]
      | some mid =>
        have hlt := freePtes_lt hv hm
        rw [hfree] at hlt
        have hv' : m.next.vsid.toNat < 2 ^ 24 := by
          rw [Mapping.next_vsid]
          exact hv
        obtain ⟨result, fuel, hfuel⟩ := ih _ hlt mid m.next (size - PPC32_MIN_PAGE_SIZE) hv' rfl
        refine ⟨result, fuel + 1, ?_⟩
        rw [mapZone, if_pos hpos, hm]
        exact hfuel
    · refine ⟨(0, table), 1, ?_⟩
      rw [mapZone, if_neg hpos]

/-- The pages that meet the zone of `size` bytes at the address of `m`. -/
def zonePages (m : Mapping) (size : BitVec 32) : List Mapping :=
  if size = 0 then [] else pagesFrom m ((m.vaddr.toNat % 4096 + size.toNat + 4095) / 4096)

/-- The zone call returns 0 with exactly the pages of the zone mapped. -/
def MapsZone (sdr1 : BitVec 32) (table : PageTable) (m : Mapping) (size : BitVec 32) : Prop :=
  ∀ table', ZoneReturns sdr1 table m size (0, table') ↔
    mapPages sdr1 table (zonePages m size) = some table'

def WholePages (m : Mapping) (size : BitVec 32) : Prop :=
  size = 0 ∨ m.vaddr.toNat % 4096 = 0 ∧ size.toNat % 4096 = 0

theorem pagesFrom_succ (m : Mapping) (n : Nat) :
    ∃ last, last.vsid = m.vsid ∧ pagesFrom m (n + 1) = pagesFrom m n ++ [last] := by
  induction n generalizing m with
  | zero => exact ⟨m, rfl, rfl⟩
  | succ n ih =>
    obtain ⟨last, hv, hlast⟩ := ih m.next
    refine ⟨last, by rw [hv, Mapping.next_vsid], ?_⟩
    rw [pagesFrom, hlast]
    rfl

instance (m : Mapping) (size : BitVec 32) : Decidable (WholePages m size) :=
  inferInstanceAs (Decidable (_ ∨ _))

theorem mapsZone_of_wholePages (sdr1 : BitVec 32) (table : PageTable) {m : Mapping}
    {size : BitVec 32} (h : WholePages m size) : MapsZone sdr1 table m size := by
  have hpages : size.toNat % 4096 = 0 ∧ zonePages m size = pagesFrom m (size.toNat / 4096) := by
    rcases h with rfl | ⟨hvaddr, hsize⟩
    · exact ⟨rfl, rfl⟩
    · refine ⟨hsize, ?_⟩
      unfold zonePages
      split
      · rename_i hzero
        rw [hzero]
        rfl
      · have hcount : (m.vaddr.toNat % 4096 + size.toNat + 4095) / 4096 = size.toNat / 4096 := by
          omega
        rw [hcount]
  intro table'
  rw [hpages.2]
  constructor
  · rintro ⟨fuel, hfuel⟩
    exact (mapZone_zero hfuel).2
  · intro hmap
    exact zoneReturns_of_mapPages (by omega) hmap

theorem not_mapsZone {sdr1 : BitVec 32} {table : PageTable} {m : Mapping} {size : BitVec 32}
    (hv : m.vsid.toNat < 2 ^ 24) (h : ¬ WholePages m size)
    (hfits : mapPages sdr1 table (zonePages m size) ≠ none) : ¬ MapsZone sdr1 table m size := by
  intro hmaps
  obtain ⟨table', htable⟩ := Option.ne_none_iff_exists'.mp hfits
  obtain ⟨fuel, hfuel⟩ := (hmaps table').mpr htable
  obtain ⟨hmod, hmap⟩ := mapZone_zero hfuel
  rw [WholePages, not_or, not_and] at h
  have hcut : m.vaddr.toNat % 4096 ≠ 0 := fun hzero => h.2 hzero hmod
  have hcount : (m.vaddr.toNat % 4096 + size.toNat + 4095) / 4096 = size.toNat / 4096 + 1 := by
    omega
  obtain ⟨last, hlast, hpages⟩ := pagesFrom_succ m (size.toNat / 4096)
  rw [zonePages, if_neg h.1, hcount, hpages, mapPages_append, hmap] at htable
  have hpage : mapPage sdr1 table' last = some table' := by
    simpa [mapPages] using htable
  have hlt := freePtes_lt (by rw [hlast]; exact hv) hpage
  omega

/-- Page table calls and the walk agree as long as no page needs bit 33 of its
physical address, attributes stay out of the address, and zones are whole pages. -/
theorem pageTable_ok_iff (sdr1 : BitVec 32) (table : PageTable) :
    (∀ calls table', Distinct (calls.flatMap MapCall.pages) →
      AllMap sdr1 (initPageTable sdr1 table) calls table' →
        (WalkFinds sdr1 table' (calls.flatMap MapCall.pages) ↔
          Reachable sdr1 (calls.flatMap MapCall.pages))) ∧
    ∀ m size, m.vsid.toNat < 2 ^ 24 →
      (∃ result, ZoneReturns sdr1 table m size result) ∧
        (WholePages m size → MapsZone sdr1 table m size) ∧
        (mapPages sdr1 table (zonePages m size) ≠ none → MapsZone sdr1 table m size →
          WholePages m size) := by
  constructor
  · intro calls table' hd hcalls
    exact walkFinds_iff hd (mapPages_of_allMap hcalls)
  · intro m size hv
    refine ⟨zone_terminates sdr1 table m size hv, mapsZone_of_wholePages sdr1 table, ?_⟩
    intro hfits hmaps
    by_contra hwhole
    exact not_mapsZone hv hwhole hfits hmaps

/-- A page of the flash memory of a c7200, above four gigabytes where `high` has bits. -/
def flashPage (high : BitVec 4) : Mapping :=
  ⟨0x000D0000, 0xD8000000, (high ++ (0xD8000000 : BitVec 32)).setWidth 64, 0, 2⟩

def flashTable : PageTable := initPageTable 0x0FE0001F fun _ => (0, 0)

theorem pageTable_ok_iff_flash :
    (∃ table, mapPage 0x0FE0001F flashTable (flashPage 1) = some table ∧
      WalkFinds 0x0FE0001F table [flashPage 1]) ∧ WholePages (flashPage 0) 0x2000 := by
  have hd : Distinct ([MapCall.page (flashPage 1)].flatMap MapCall.pages) :=
    ⟨by decide, by decide, by decide, by decide⟩
  have hzone := (pageTable_ok_iff 0x0FE0001F flashTable).2 (flashPage 0) 0x2000 (by decide)
  constructor
  · obtain ⟨table, htable⟩ := Option.isSome_iff_exists.mp
      (show (mapPage 0x0FE0001F flashTable (flashPage 1)).isSome by decide)
    have hcalls : AllMap 0x0FE0001F flashTable [.page (flashPage 1)] table := ⟨table, htable, rfl⟩
    exact ⟨table, htable, ((pageTable_ok_iff _ fun _ => (0, 0)).1 _ _ hd hcalls).mpr (by decide)⟩
  · exact hzone.2.2 (by decide) (hzone.2.1 (by decide))

/-- The walk loses bit 33 of an address, and half a page is never mapped. -/
theorem not_pageTable_ok :
    Distinct [flashPage 2] ∧
    (∃ table, mapPage 0x0FE0001F flashTable (flashPage 2) = some table ∧
      walk 0x0FE0001F table (fun _ => 0x000D0000) 0xD8000000 = some 0xD8000000 ∧
      (flashPage 2).paddr = 0x2D8000000) ∧
    ¬ MapsZone 0x0FE0001F flashTable (flashPage 0) 0x800 := by
  refine ⟨⟨by decide, by decide, by decide, by decide⟩, ?_, ?_⟩
  · have hwalk : (mapPage 0x0FE0001F flashTable (flashPage 2)).map (fun table =>
        walk 0x0FE0001F table (fun _ => 0x000D0000) 0xD8000000) = some (some 0xD8000000) := by
      decide
    obtain ⟨table, htable, hfind⟩ := Option.map_eq_some_iff.mp hwalk
    exact ⟨table, htable, hfind, by decide⟩
  · exact not_mapsZone (by decide) (by decide) (by decide)

end Dynamips.Ppc32
