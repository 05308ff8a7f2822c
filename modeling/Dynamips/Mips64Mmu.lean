import Dynamips.Mips64Mem

/-! The translation that the virtual TLB is a cache of: a function of the page
and of a part of the state. -/
set_option autoImplicit false

namespace Dynamips.Mips64

variable {W : Type} {cpu cpu' : Cpu W}

def pageXlate (cpu : Cpu W) (vaddr : BitVec 64) : Option (BitVec 64 × Bool) :=
  match mtsXlate cpu vaddr with
  | .ok map => some (map.paddr, map.cached)
  | .error _ => none

def AddrMode.pageMask (mode : AddrMode) : BitVec 64 :=
  match mode with
  | .mode32 => 0xfffff000
  | .mode64 => mipsMinPageMask

/-- The address of the page with a given tag; 32-bit addresses are sign-extended. -/
def AddrMode.addr (mode : AddrMode) (gvpa : BitVec 64) : BitVec 64 :=
  match mode with
  | .mode32 => signExtend gvpa 32
  | .mode64 => gvpa

def AddrMode.page (mode : AddrMode) (vaddr : BitVec 64) : BitVec 64 := mode.addr (mode.tag vaddr)

def mts32Zone (vaddr : BitVec 64) : BitVec 64 := (vaddr >>> 29) &&& 0x7

def isKseg01 (vaddr : BitVec 64) : Prop := mts32Zone vaddr = 0x4 ∨ mts32Zone vaddr = 0x5

def Mapped (mode : AddrMode) (vaddr : BitVec 64) : Prop :=
  match mode with
  | .mode32 => ¬ isKseg01 vaddr
  | .mode64 =>
    let zone := vaddr >>> 40
    let subZone := (vaddr >>> 29) &&& 0x7FF
    zone = 0x000000 ∨ zone = 0x400000 ∨ zone = 0xc00000 ∨
      zone = 0xffffff ∧ (subZone = 0x7fe ∨ subZone = 0x7ff)

def Canonical (mode : AddrMode) (vaddr : BitVec 64) : Prop :=
  mode = .mode32 → isKseg01 vaddr → vaddr >>> 32 = 0xffffffff

instance (vaddr : BitVec 64) : Decidable (isKseg01 vaddr) := inferInstanceAs (Decidable (_ ∨ _))

instance (mode : AddrMode) (vaddr : BitVec 64) : Decidable (Canonical mode vaddr) :=
  inferInstanceAs (Decidable (_ → _ → _))

/-- The masks of the entries have no other bits than `MIPS_TLB_PAGE_MASK`. -/
def MasksOk (cpu : Cpu W) : Prop :=
  ∀ i, (cpu.cp0.tlb i).mask &&& mipsTlbPageMask = (cpu.cp0.tlb i).mask

theorem and_congr_mask {v w pm m : BitVec 64} (h : v &&& pm = w &&& pm) (hm : m &&& pm = m) :
    v &&& m = w &&& m := by
  have hsplit : ∀ x : BitVec 64, x &&& m = (x &&& pm) &&& m := by
    intro x
    rw [BitVec.and_assoc, BitVec.and_comm pm m, hm]
  rw [hsplit v, hsplit w, h]

theorem shift_congr_mask {v w : BitVec 64} {k : Nat} :
    v &&& (BitVec.allOnes 64 <<< k) = w &&& (BitVec.allOnes 64 <<< k) ↔ v >>> k = w >>> k := by
  constructor
  · intro h
    apply BitVec.eq_of_getLsbD_eq
    intro i hi
    have hbit := congrArg (BitVec.getLsbD · (k + i)) h
    simp only [BitVec.getLsbD_and, BitVec.getLsbD_shiftLeft, BitVec.getLsbD_allOnes] at hbit
    simp only [BitVec.getLsbD_ushiftRight]
    by_cases hk : k + i < 64
    · simpa [hk, hi, show ¬ k + i < k by omega] using hbit
    · rw [BitVec.getLsbD_of_ge _ _ (by omega), BitVec.getLsbD_of_ge _ _ (by omega)]
  · intro h
    apply BitVec.eq_of_getLsbD_eq
    intro i hi
    have hbit := congrArg (BitVec.getLsbD · (i - k)) h
    simp only [BitVec.getLsbD_ushiftRight] at hbit
    simp only [BitVec.getLsbD_and, BitVec.getLsbD_shiftLeft]
    by_cases hk : i < k
    · simp [hk]
    · rw [show k + (i - k) = i by omega] at hbit
      rw [hbit]

theorem setWidth_eq_and (x : BitVec 64) : (x.setWidth 32).setWidth 64 = x &&& 0xffffffff := by
  have hpow : (0xffffffff : BitVec 64) = (BitVec.allOnes 32).setWidth 64 := by decide
  rw [hpow]
  apply BitVec.eq_of_getLsbD_eq
  intro i hi
  simp only [BitVec.getLsbD_setWidth, BitVec.getLsbD_and, BitVec.getLsbD_allOnes]
  by_cases h : i < 32 <;> simp [h, hi]

theorem tag_eq_and (mode : AddrMode) (vaddr : BitVec 64) :
    mode.tag vaddr = vaddr &&& mode.pageMask := by
  cases mode with
  | mode64 => rfl
  | mode32 =>
    have hm : (0xffffffff : BitVec 64) &&& mipsMinPageMask = 0xfffff000 := by decide
    simp only [AddrMode.tag, AddrMode.trunc, setWidth_eq_and, BitVec.and_assoc, hm]
    rfl

theorem getLsbD_signExtend32 (x : BitVec 64) {i : Nat} (hi : i < 64) :
    (signExtend x 32).getLsbD i = x.getLsbD (min i 31) := by
  simp only [signExtend, BitVec.getLsbD_sshiftRight, BitVec.getLsbD_shiftLeft,
    BitVec.msb_eq_getLsbD_last]
  by_cases h : i < 32
  · have hmin : min i 31 = i := by omega
    have h64 : ¬ 64 ≤ i := by omega
    simp [hmin, h64, show 32 + i < 64 by omega]
  · have hmin : min i 31 = 31 := by omega
    have h64 : ¬ 64 ≤ i := by omega
    simp [hmin, h64, show ¬ 32 + i < 64 by omega]

theorem addr_and (mode : AddrMode) (gvpa : BitVec 64) {m : BitVec 64}
    (hm : mode = .mode32 → m &&& 0xffffffff = m) : mode.addr gvpa &&& m = gvpa &&& m := by
  cases mode with
  | mode64 => rfl
  | mode32 =>
    apply and_congr_mask _ (hm rfl)
    rw [← setWidth_eq_and, ← setWidth_eq_and]
    apply congrArg (BitVec.setWidth 64)
    apply BitVec.eq_of_getLsbD_eq
    intro i hi
    have hmin : min i 31 = i := by omega
    simp only [AddrMode.addr, BitVec.getLsbD_setWidth,
      getLsbD_signExtend32 _ (show i < 64 by omega), hmin]

theorem page_and (mode : AddrMode) (vaddr : BitVec 64) {m : BitVec 64}
    (hm : m &&& mode.pageMask = m) : mode.page vaddr &&& m = vaddr &&& m := by
  have hlow : mode = .mode32 → m &&& 0xffffffff = m := by
    intro h
    have hsub : (0xfffff000 : BitVec 64) &&& 0xffffffff = 0xfffff000 := by decide
    subst h
    rw [← hm, BitVec.and_assoc, AddrMode.pageMask, hsub]
  rw [AddrMode.page, addr_and mode _ hlow, tag_eq_and, BitVec.and_assoc,
    BitVec.and_comm mode.pageMask, hm]

theorem mts32Zone_page (vaddr : BitVec 64) :
    mts32Zone (AddrMode.mode32.page vaddr) = mts32Zone vaddr := by
  have hzone : ∀ x, mts32Zone x = (x &&& 0xe0000000) >>> 29 := by
    intro x
    rw [BitVec.ushiftRight_and_distrib]
    rfl
  rw [hzone, hzone, page_and _ _ (by decide)]

theorem getLsbD_of_isKseg01 {vaddr : BitVec 64} (h : isKseg01 vaddr) : vaddr.getLsbD 31 = true := by
  have hbit : ∀ zone : BitVec 64, zone.getLsbD 2 = true → mts32Zone vaddr = zone →
      vaddr.getLsbD 31 = true := by
    intro zone hz heq
    have hb := congrArg (BitVec.getLsbD · 2) heq
    rw [← hb] at hz
    simpa [mts32Zone] using hz
  cases h with
  | inl h => exact hbit 0x4 (by decide) h
  | inr h => exact hbit 0x5 (by decide) h

theorem signExtend32_upper {x : BitVec 64} (h : x.getLsbD 31 = true) :
    signExtend x 32 >>> 32 = 0xffffffff := by
  have hpow : (0xffffffff : BitVec 64) = (BitVec.allOnes 32).setWidth 64 := by decide
  rw [hpow]
  apply BitVec.eq_of_getLsbD_eq
  intro i hi
  simp only [BitVec.getLsbD_ushiftRight, BitVec.getLsbD_setWidth, BitVec.getLsbD_allOnes]
  by_cases hlt : i < 32
  · have hmin : min (32 + i) 31 = 31 := by omega
    simp [getLsbD_signExtend32 x (show 32 + i < 64 by omega), hmin, h, hlt, hi]
  · rw [BitVec.getLsbD_of_ge _ _ (by omega)]
    simp [hlt]

theorem page_and_kseg01 {vaddr : BitVec 64} (hk : isKseg01 vaddr)
    (hc : Canonical .mode32 vaddr) :
    AddrMode.mode32.page vaddr &&& mipsMinPageMask = vaddr &&& mipsMinPageMask := by
  have hmask : mipsMinPageMask = (0xfffff000 : BitVec 64) ||| (BitVec.allOnes 64 <<< 32) := by decide
  have hlow := page_and .mode32 vaddr (m := 0xfffff000) (by decide)
  have h31 : (AddrMode.mode32.tag vaddr).getLsbD 31 = true := by
    have hbit : (AddrMode.pageMask .mode32).getLsbD 31 = true := by decide
    rw [tag_eq_and, BitVec.getLsbD_and, getLsbD_of_isKseg01 hk, hbit]
    rfl
  have hup := shift_congr_mask.mpr ((signExtend32_upper h31).trans (hc rfl hk).symm)
  rw [hmask, BitVec.and_or_distrib_left, BitVec.and_or_distrib_left, hlow]
  exact congrArg _ hup

theorem covers_congr {mode : AddrMode} {v w : BitVec 64} (entry : TlbEntry)
    (h : v &&& mode.pageMask = w &&& mode.pageMask) :
    entry.covers mode v = entry.covers mode w := by
  have hm : mode.vpn2Mask &&& mode.pageMask = mode.vpn2Mask := by cases mode <;> decide
  rw [TlbEntry.covers, TlbEntry.covers, and_congr_mask h hm]

theorem setWidth_and_low (x : BitVec 32) : x.setWidth 64 &&& 0xffffffff = x.setWidth 64 := by
  rw [← setWidth_eq_and]
  simp

theorem and_low_eq_zero (x : BitVec 32) {k : Nat} (hk : k ≤ 32) :
    x &&& BitVec.ofNat 32 (2 ^ k - 1) = 0 ↔ x.toNat % 2 ^ k = 0 := by
  have hpow : 2 ^ k ≤ 2 ^ 32 := Nat.pow_le_pow_right (by decide) hk
  have hpos : 0 < 2 ^ k := Nat.two_pow_pos k
  have hlt : (2 ^ k - 1) % 2 ^ 32 = 2 ^ k - 1 := Nat.mod_eq_of_lt (by omega)
  rw [← BitVec.toNat_inj, BitVec.toNat_and, BitVec.toNat_ofNat, hlt,
    Nat.and_two_pow_sub_one_eq_mod]
  rfl

theorem pageSize_and (entry : TlbEntry) (h : entry.mask &&& mipsTlbPageMask = entry.mask) :
    entry.pageSize.setWidth 64 &&& 0xfffff000 = entry.pageSize.setWidth 64 := by
  have hmask : (entry.mask.setWidth 32).toNat % 2 ^ 13 = 0 := by
    have hz : mipsTlbPageMask.setWidth 32 &&& BitVec.ofNat 32 (2 ^ 13 - 1) = 0 := by decide
    rw [← and_low_eq_zero _ (by decide), ← h, BitVec.setWidth_and, BitVec.and_assoc, hz]
    exact BitVec.and_zero
  have hsize : entry.pageSize &&& BitVec.ofNat 32 (2 ^ 12 - 1) = 0 := by
    have h2000 : (0x2000 : BitVec 32).toNat = 2 ^ 13 := by decide
    rw [and_low_eq_zero _ (by decide)]
    simp only [TlbEntry.pageSize, getPageSize, BitVec.toNat_ushiftRight, BitVec.toNat_add, h2000,
      Nat.shiftRight_eq_div_pow]
    omega
  have hsplit : (0xffffffff : BitVec 64) =
      (BitVec.ofNat 32 (2 ^ 12 - 1)).setWidth 64 ||| (0xfffff000 : BitVec 64) := by decide
  have hzero : (0 : BitVec 32).setWidth 64 = 0#64 := rfl
  have hall := setWidth_and_low entry.pageSize
  rw [hsplit, BitVec.and_or_distrib_left, ← BitVec.setWidth_and, hsize, hzero,
    BitVec.zero_or] at hall
  exact hall

theorem tlbPage_congr {v w : BitVec 64} (hm : MasksOk cpu)
    (h : v &&& cpu.addrMode.pageMask = w &&& cpu.addrMode.pageMask) :
    (cp0TlbLookup cpu v).map (fun map => (map.paddr, map.cached)) =
      (cp0TlbLookup cpu w).map (fun map => (map.paddr, map.cached)) := by
  have hlow : (0xfffff000 : BitVec 64) &&& cpu.addrMode.pageMask = 0xfffff000 := by
    cases cpu.addrMode <;> decide
  have hmatch : tlbMatch cpu v = tlbMatch cpu w := by
    simp only [tlbMatch, fun i => covers_congr (cpu.cp0.tlb i) h]
  have h32 := and_congr_mask h hlow
  have hlo : ∀ i, (cpu.cp0.tlb i).lo v = (cpu.cp0.tlb i).lo w := by
    intro i
    rw [TlbEntry.lo, TlbEntry.lo, and_congr_mask h32 (pageSize_and _ (hm i))]
  have hoff : ∀ size : BitVec 32, v &&& mipsMinPageMask &&& size.setWidth 64 =
      w &&& mipsMinPageMask &&& size.setWidth 64 := by
    intro size
    have hsize : mipsMinPageMask &&& size.setWidth 64 &&& 0xfffff000 =
        mipsMinPageMask &&& size.setWidth 64 := by
      have hlow : (0xfffff000 : BitVec 64) = 0xffffffff &&& mipsMinPageMask := by decide
      rw [hlow, BitVec.and_assoc, ← BitVec.and_assoc _ _ mipsMinPageMask, setWidth_and_low,
        BitVec.and_comm _ mipsMinPageMask, ← BitVec.and_assoc, BitVec.and_self]
    rw [BitVec.and_assoc, BitVec.and_assoc, and_congr_mask h32 hsize]
  simp only [cp0TlbLookup, hmatch, hlo]
  cases tlbMatch cpu w with
  | none => rfl
  | some i =>
    simp only [Option.bind_eq_bind, Option.bind_some]
    split
    · simp only [tlbMap, hoff, Option.map_some]
    · rfl

theorem pageXlate_tlb {v : BitVec 64} (h : mtsXlate cpu v = tlbXlate cpu v) :
    pageXlate cpu v = (cp0TlbLookup cpu v).map (fun map => (map.paddr, map.cached)) := by
  rw [pageXlate, h, tlbXlate]
  cases cp0TlbLookup cpu v <;> rfl

theorem mtsXlate_mapped {v : BitVec 64} (h : Mapped cpu.addrMode v) :
    mtsXlate cpu v = tlbXlate cpu v := by
  cases hmode : cpu.addrMode with
  | mode32 =>
    rw [hmode] at h
    obtain ⟨h4, h5⟩ := not_or.mp h
    simp only [mts32Zone] at h4 h5
    simp only [mtsXlate, hmode, mts32Xlate, h4, h5, if_false]
  | mode64 =>
    rw [hmode] at h
    simp only [mtsXlate, hmode, mts64Xlate, List.mem_cons, List.not_mem_nil, or_false]
    obtain hz | hz | hz | ⟨hz, hs | hs⟩ := h
    · simp [hz]
    · simp [hz]
    · simp [hz]
    · simp only [hz, hs]
      rfl
    · simp only [hz, hs]
      rfl

theorem mtsXlate_direct {v : BitVec 64} (h : ¬ Mapped cpu.addrMode v)
    (hmode : cpu'.addrMode = cpu.addrMode) : mtsXlate cpu' v = mtsXlate cpu v := by
  cases hm : cpu.addrMode with
  | mode32 =>
    rw [hm] at h
    simp only [mtsXlate, hmode, hm, mts32Xlate]
    obtain hk | hk := not_not.mp h
    · simp only [mts32Zone] at hk
      simp only [hk, if_true]
    · simp only [mts32Zone] at hk
      have hne : (0x5 : BitVec 64) ≠ 0x4 := by decide
      simp only [hk, hne, if_true, if_false]
  | mode64 =>
    rw [hm] at h
    simp only [Mapped, not_or, not_and] at h
    obtain ⟨h0, h4, hc, hf⟩ := h
    simp only [mtsXlate, hmode, hm, mts64Xlate, List.mem_cons, List.not_mem_nil, h0, h4, hc,
      or_false, if_false]
    split
    · rename_i hz
      obtain ⟨he, hfe⟩ := hf hz
      simp only [he, hfe, or_false, if_false]
    · rfl

theorem mapped_page (mode : AddrMode) (v : BitVec 64) : Mapped mode (mode.page v) ↔ Mapped mode v := by
  cases mode with
  | mode32 => simp only [Mapped, isKseg01, mts32Zone_page]
  | mode64 =>
    have h40 := shift_congr_mask.mp (page_and .mode64 v (m := BitVec.allOnes 64 <<< 40) (by decide))
    have h29 := shift_congr_mask.mp (page_and .mode64 v (m := BitVec.allOnes 64 <<< 29) (by decide))
    simp only [Mapped, h40, h29]

theorem pageXlate_page {v : BitVec 64} (hm : MasksOk cpu) (hc : Canonical cpu.addrMode v) :
    pageXlate cpu (cpu.addrMode.page v) = pageXlate cpu v := by
  by_cases hmap : Mapped cpu.addrMode v
  · have hpage := (mapped_page _ _).mpr hmap
    rw [pageXlate_tlb (mtsXlate_mapped hmap), pageXlate_tlb (mtsXlate_mapped hpage)]
    exact tlbPage_congr hm (page_and _ _ BitVec.and_self)
  cases hmode : cpu.addrMode with
  | mode32 =>
    rw [hmode] at hmap hc
    have hk := not_not.mp hmap
    have hz := mts32Zone_page v
    have hp := page_and_kseg01 hk hc
    simp only [mts32Zone] at hz
    simp only [pageXlate, mtsXlate, hmode, mts32Xlate, hz, hp, directMap]
    obtain hk | hk := hk
    · simp only [mts32Zone] at hk
      simp only [hk, if_true]
    · simp only [mts32Zone] at hk
      have hne : (0x5 : BitVec 64) ≠ 0x4 := by decide
      simp only [hk, hne, if_true, if_false]
  | mode64 =>
    have h40 := shift_congr_mask.mp (page_and .mode64 v (m := BitVec.allOnes 64 <<< 40) (by decide))
    have h29 := shift_congr_mask.mp (page_and .mode64 v (m := BitVec.allOnes 64 <<< 29) (by decide))
    have h59 := shift_congr_mask.mp (page_and .mode64 v (m := BitVec.allOnes 64 <<< 59) (by decide))
    have hp := page_and .mode64 v (m := mipsMinPageMask) (by decide)
    have hx := page_and .mode64 v (m := 0xfffffffff &&& mipsMinPageMask) (by decide)
    rw [hmode] at hmap
    simp only [Mapped, not_or, not_and] at hmap
    obtain ⟨h0, h4, hc, hf⟩ := hmap
    simp only [pageXlate, mtsXlate, hmode, mts64Xlate, h40, h29, h59, hp, BitVec.and_assoc, hx,
      List.mem_cons, List.not_mem_nil, h0, h4, hc, or_false, if_false, directMap]
    by_cases hz : v >>> 40 = 0xffffff
    · obtain ⟨he, hfe⟩ := hf hz
      simp only [hz, if_true, he, hfe, or_false, if_false]
      split_ifs <;> rfl
    · simp only [hz, if_false]
      split_ifs <;> rfl

structure XlateState where
  tlb : Fin 64 → TlbEntry
  tlbEntries : Nat
  asid : BitVec 64
  addrMode : AddrMode
  addrBusMask : BitVec 64

def Cpu.xlateState (cpu : Cpu W) : XlateState :=
  { tlb := cpu.cp0.tlb
    tlbEntries := cpu.cp0.tlbEntries
    asid := cpu.asid
    addrMode := cpu.addrMode
    addrBusMask := cpu.addrBusMask }

theorem addrMode_congr (h : cpu'.xlateState = cpu.xlateState) : cpu'.addrMode = cpu.addrMode :=
  congrArg XlateState.addrMode h

theorem masksOk_congr (h : cpu'.xlateState = cpu.xlateState) : MasksOk cpu' ↔ MasksOk cpu := by
  have htlb : cpu'.cp0.tlb = cpu.cp0.tlb := congrArg XlateState.tlb h
  rw [MasksOk, MasksOk, htlb]

theorem pageXlate_congr (h : cpu'.xlateState = cpu.xlateState) (v : BitVec 64) :
    pageXlate cpu' v = pageXlate cpu v := by
  have hmode := addrMode_congr h
  by_cases hmap : Mapped cpu.addrMode v
  · have htlb : cpu'.cp0.tlb = cpu.cp0.tlb := congrArg XlateState.tlb h
    have hn : cpu'.cp0.tlbEntries = cpu.cp0.tlbEntries := congrArg XlateState.tlbEntries h
    have hasid : cpu'.asid = cpu.asid := congrArg XlateState.asid h
    have hbus : cpu'.addrBusMask = cpu.addrBusMask := congrArg XlateState.addrBusMask h
    rw [pageXlate_tlb (mtsXlate_mapped hmap), pageXlate_tlb (mtsXlate_mapped (hmode ▸ hmap))]
    simp only [cp0TlbLookup, tlbMatch, htlb, hn, hasid, hbus, hmode]
  · rw [pageXlate, pageXlate, mtsXlate_direct hmap hmode]

end Dynamips.Mips64
