import Dynamips.Lib.Runs
import Dynamips.Mips64Run
import Dynamips.Ppc32Mem

/-! The virtual TLB of a PowerPC CPU against the slow lookup behind it, over runs
of accesses, exceptions and instructions. -/
set_option autoImplicit false

namespace Dynamips.Ppc32

open Mips64 (bits vmStore)
open Runs

variable {W : Type} {env : Env W} {cpu cpu' : Cpu W} {cid : Cid} {vaddr page : BitVec 32}

def pageOf (vaddr : BitVec 32) : BitVec 32 := vaddr &&& PPC32_MIN_PAGE_MASK

theorem pageMask_getLsbD (j : Nat) :
    PPC32_MIN_PAGE_MASK.getLsbD j = decide (12 ≤ j ∧ j < 32) := rpnMask_getLsbD j

theorem pageOf_getLsbD (vaddr : BitVec 32) (j : Nat) :
    (pageOf vaddr).getLsbD j = (decide (12 ≤ j) && vaddr.getLsbD j) := by
  rw [pageOf, BitVec.getLsbD_and, pageMask_getLsbD]
  by_cases hj : j < 32
  · simp [hj, Bool.and_comm]
  · rw [BitVec.getLsbD_of_ge vaddr j (by omega)]
    simp

@[simp] theorem pageOf_pageOf (vaddr : BitVec 32) : pageOf (pageOf vaddr) = pageOf vaddr := by
  rw [pageOf, pageOf, BitVec.and_assoc, BitVec.and_self]

theorem mtsHash_getLsbD (vaddr : BitVec 32) {j : Nat} (hj : j < 14) :
    (mtsHash vaddr).getLsbD j = vaddr.getLsbD (12 + j) := by
  simp only [mtsHash, BitVec.getLsbD_setWidth, BitVec.getLsbD_ushiftRight, hj, decide_true,
    Bool.true_and]

@[simp] theorem mtsHash_pageOf (vaddr : BitVec 32) : mtsHash (pageOf vaddr) = mtsHash vaddr := by
  apply BitVec.eq_of_getLsbD_eq
  intro j hj
  rw [mtsHash_getLsbD _ hj, mtsHash_getLsbD _ hj, pageOf_getLsbD]
  simp

def Cpu.Holds (cpu : Cpu W) (cid : Cid) (page : BitVec 32) : Prop :=
  (cpu.mtsCache cid (mtsHash page)).gvpa = page ∧ pageOf page = page

/-- The address is translated into the physical page at `paddr`, and the device
there is that of the page. -/
def LiesIn (cpu : Cpu W) (cid : Cid) (vaddr : BitVec 32) (paddr : BitVec 64) : Prop :=
  ∃ map, xlate cpu vaddr cid = some map ∧ map.paddr = paddr ∧
    devLookup cpu.vm (paddr + map.offset.setWidth 64) false = devLookup cpu.vm paddr false

/-- The entry has the host page of its page, and is marked where the host page is shared. -/
def MtsEntry.Right (cpu : Cpu W) (cid : Cid) (page : BitVec 32) (entry : MtsEntry) : Prop :=
  ∃ paddr cow, (∀ vaddr, pageOf vaddr = page → LiesIn cpu cid vaddr paddr) ∧
    cpu.vm.hostOf paddr false = some (entry.hpa, cow) ∧
    (entry.flags &&& MTS_FLAG_COW ≠ 0 ↔ cow = true)

def Coherent (cpu : Cpu W) : Prop :=
  ∀ cid page, cpu.Holds cid page → (cpu.mtsCache cid (mtsHash page)).Right cpu cid page

theorem coherent_empty (h : ∀ cid b, cpu.mtsCache cid b = MtsEntry.invalid) : Coherent cpu := by
  intro cid page hpage
  obtain ⟨hgvpa, haligned⟩ := hpage
  rw [h] at hgvpa
  rw [← hgvpa] at haligned
  have hodd : pageOf MtsEntry.invalid.gvpa ≠ MtsEntry.invalid.gvpa := by decide
  exact absurd haligned hodd

theorem coherent_invalidate (cpu : Cpu W) : Coherent (memInvalidateCache cpu) :=
  coherent_empty fun _ _ => rfl

theorem fastHit_eq_some {opType : MtsOp} {entry : MtsEntry} :
    fastHit cpu vaddr cid opType = some entry ↔
      cpu.mtsCache cid (mtsHash vaddr) = entry ∧ entry.gvpa = pageOf vaddr ∧
        ¬ (opType = .write ∧ entry.flags &&& MTS_FLAG_COW ≠ 0) := by
  simp only [fastHit]
  constructor
  · intro h
    split at h
    · cases h
    · rename_i hn
      cases h
      obtain ⟨htag, hcow⟩ := not_or.mp hn
      exact ⟨rfl, (not_not.mp htag).symm, hcow⟩
  · intro ⟨he, htag, hcow⟩
    subst he
    rw [pageOf] at htag
    rw [if_neg (not_or.mpr ⟨not_not.mpr htag.symm, hcow⟩)]

theorem holds_of_hit {opType : MtsOp} {entry : MtsEntry}
    (h : fastHit cpu vaddr cid opType = some entry) : cpu.Holds cid (pageOf vaddr) := by
  obtain ⟨he, htag, -⟩ := fastHit_eq_some.mp h
  refine ⟨?_, pageOf_pageOf vaddr⟩
  rw [mtsHash_pageOf, he, htag]

def HitAgrees (env : Env W) (cpu : Cpu W) (vaddr : BitVec 32) (cid : Cid) (opType : MtsOp) : Prop :=
  ∀ entry, fastHit cpu vaddr cid opType = some entry →
    ∃ entry' cpu', slowLookup env cpu vaddr cid opType = some (.ok entry', cpu') ∧
      entry'.flags &&& MTS_FLAG_DEV = 0 ∧ entry'.hpa = entry.hpa

theorem flags_not_dev (cow exec : Bool) : ((if cow = true then MTS_FLAG_COW else 0) |||
    if exec = true then MTS_FLAG_EXEC else 0) &&& MTS_FLAG_DEV = 0 := by
  cases cow <;> cases exec <;> rfl

theorem flags_cow (cow exec : Bool) : ((if cow = true then MTS_FLAG_COW else 0) |||
    if exec = true then MTS_FLAG_EXEC else 0) &&& MTS_FLAG_COW ≠ 0 ↔ cow = true := by
  cases cow <;> cases exec <;> decide

theorem memMap_of_hostOf {opType : MtsOp} {map : MtsMap} {host : HostAddr} {cow : Bool}
    (cid : Cid) (bucket : BitVec 14)
    (hdev : devLookup cpu.vm (map.paddr + map.offset.setWidth 64) false =
      devLookup cpu.vm map.paddr false)
    (hhost : cpu.vm.hostOf map.paddr false = some (host, cow))
    (hcow : opType = .write → cow = false) :
    ∃ entry cpu', memMap env cpu opType map cid bucket = some (some entry, cpu') ∧
      entry.flags &&& MTS_FLAG_DEV = 0 ∧ entry.hpa = host := by
  cases hlookup : devLookup cpu.vm map.paddr false with
  | none =>
    simp only [Vm.hostOf, hlookup] at hhost
    cases hhost
  | some dev =>
    by_cases hsp : dev.has vdeviceFlagSparse
    · have hsparse := devSparseGetHostAddr_of_hostOf hlookup hsp hhost hcow
      simp only [memMap, hdev, hlookup, hsp, hsparse, if_true]
      exact ⟨_, _, rfl, flags_not_dev cow _, rfl⟩
    · simp only [Vm.hostOf, hlookup, hsp, if_false, Bool.false_eq_true] at hhost
      split at hhost
      · cases hhost
      · rename_i hdirect
        cases hhost
        simp only [memMap, hdev, hlookup, hsp, hdirect, if_false, Bool.false_eq_true]
        refine ⟨_, _, rfl, ?_, rfl⟩
        simp only [mtsEntry, execFlag]
        split <;> rfl

theorem hit_host (h : Coherent cpu) {opType : MtsOp} {entry : MtsEntry}
    (hhit : fastHit cpu vaddr cid opType = some entry) :
    ∃ map cow, xlate cpu vaddr cid = some map ∧
      devLookup cpu.vm (map.paddr + map.offset.setWidth 64) false =
        devLookup cpu.vm map.paddr false ∧
      cpu.vm.hostOf map.paddr false = some (entry.hpa, cow) ∧ (opType = .write → cow = false) := by
  obtain ⟨he, -, hcow⟩ := fastHit_eq_some.mp hhit
  obtain ⟨paddr, cow, hlies, hhost, hflag⟩ := h cid _ (holds_of_hit hhit)
  rw [mtsHash_pageOf, he] at hhost hflag
  obtain ⟨map, hmap, rfl, hdev⟩ := hlies vaddr rfl
  refine ⟨map, cow, hmap, hdev, hhost, fun hw => ?_⟩
  rw [← Bool.not_eq_true, ← hflag]
  exact fun hf => hcow ⟨hw, hf⟩

theorem hit_agrees (h : Coherent cpu) (vaddr : BitVec 32) (cid : Cid) (opType : MtsOp) :
    HitAgrees env cpu vaddr cid opType := by
  intro entry hhit
  obtain ⟨map, cow, hmap, hdev, hhost, hwrite⟩ := hit_host h hhit
  obtain ⟨entry', cpu', hentry, hnodev, hhpa⟩ :=
    @memMap_of_hostOf W env cpu opType map _ cow cid (mtsHash vaddr) hdev hhost hwrite
  refine ⟨entry', cpu', ?_, hnodev, hhpa⟩
  simp only [slowLookup, hmap, hentry]

def XlateKept (cpu cpu' : Cpu W) : Prop :=
  ∀ cid page, cpu.Holds cid page → ∀ vaddr, pageOf vaddr = page →
    xlate cpu' vaddr cid = xlate cpu vaddr cid

def HostsKept (cpu : Cpu W) (vm : Vm W) : Prop :=
  ∀ cid page, cpu.Holds cid page → ∀ vaddr, pageOf vaddr = page → ∀ map,
    xlate cpu vaddr cid = some map →
      devLookup vm (map.paddr + map.offset.setWidth 64) false =
        devLookup cpu.vm (map.paddr + map.offset.setWidth 64) false ∧
      devLookup vm map.paddr false = devLookup cpu.vm map.paddr false ∧
      ∀ host, cpu.vm.hostOf map.paddr false = some host → vm.hostOf map.paddr false = some host

theorem LiesIn.congr {paddr : BitVec 64} (h : LiesIn cpu cid vaddr paddr)
    (hx : xlate cpu' vaddr cid = xlate cpu vaddr cid) (hd : cpu'.vm.devList = cpu.vm.devList) :
    LiesIn cpu' cid vaddr paddr := by
  obtain ⟨map, hmap, hp, hdev⟩ := h
  refine ⟨map, hx.trans hmap, hp, ?_⟩
  rw [devLookup_congr hd, devLookup_congr hd, hdev]

def MtsEntry.Same (entry entry' : MtsEntry) : Prop :=
  entry'.gvpa = entry.gvpa ∧ entry'.hpa = entry.hpa ∧
    (entry'.flags &&& MTS_FLAG_COW ≠ 0 ↔ entry.flags &&& MTS_FLAG_COW ≠ 0)

theorem MtsEntry.Same.refl (entry : MtsEntry) : entry.Same entry := ⟨rfl, rfl, Iff.rfl⟩

theorem Coherent.of_kept (h : Coherent cpu)
    (hc : ∀ cid b, (cpu.mtsCache cid b).Same (cpu'.mtsCache cid b))
    (hx : XlateKept cpu cpu') (hk : HostsKept cpu cpu'.vm) : Coherent cpu' := by
  intro cid page hpage
  obtain ⟨hgvpa, hhpa, hcow⟩ := hc cid (mtsHash page)
  have hold : cpu.Holds cid page := ⟨hgvpa.symm.trans hpage.1, hpage.2⟩
  obtain ⟨paddr, cow, hlies, hhost, hflag⟩ := h cid page hold
  refine ⟨paddr, cow, ?_, ?_, hcow.trans hflag⟩
  · intro vaddr hv
    obtain ⟨map, hmap, hp, hdev⟩ := hlies vaddr hv
    obtain ⟨hoff, hbase, -⟩ := hk cid page hold vaddr hv map hmap
    rw [hp] at hoff hbase
    exact ⟨map, (hx cid page hold vaddr hv).trans hmap, hp, by rw [hoff, hbase, hdev]⟩
  · obtain ⟨map, hmap, hp, -⟩ := hlies page hpage.2
    obtain ⟨-, -, hkeep⟩ := hk cid page hold page hpage.2 map hmap
    rw [hp] at hkeep
    rw [hhpa]
    exact hkeep _ hhost

theorem hostsKept_refl (cpu : Cpu W) : HostsKept cpu cpu.vm :=
  fun _ _ _ _ _ _ _ => ⟨rfl, rfl, fun _ h => h⟩

structure XlateState where
  msr : BitVec 32
  bat : Cid → BitVec 3 → BatReg
  sr : BitVec 4 → BitVec 32
  sdr1 : BitVec 32
  sdr1Hptr : HostAddr
  ppc405Pid : BitVec 32
  ppc405Tlb : BitVec 6 → Tlb405Entry
  is405 : Bool
  mem : HostAddr → Byte

def Cpu.xlateState (cpu : Cpu W) : XlateState :=
  { msr := cpu.msr
    bat := cpu.bat
    sr := cpu.sr
    sdr1 := cpu.sdr1
    sdr1Hptr := cpu.sdr1Hptr
    ppc405Pid := cpu.ppc405Pid
    ppc405Tlb := cpu.ppc405Tlb
    is405 := cpu.is405
    mem := cpu.vm.mem }

theorem xlate_congr (h : cpu'.xlateState = cpu.xlateState) (vaddr : BitVec 32) (cid : Cid) :
    xlate cpu' vaddr cid = xlate cpu vaddr cid := by
  have hmsr : cpu'.msr = cpu.msr := congrArg XlateState.msr h
  have hbat : cpu'.bat = cpu.bat := congrArg XlateState.bat h
  have hsr : cpu'.sr = cpu.sr := congrArg XlateState.sr h
  have hsdr1 : cpu'.sdr1 = cpu.sdr1 := congrArg XlateState.sdr1 h
  have hptr : cpu'.sdr1Hptr = cpu.sdr1Hptr := congrArg XlateState.sdr1Hptr h
  have hpid : cpu'.ppc405Pid = cpu.ppc405Pid := congrArg XlateState.ppc405Pid h
  have htlb : cpu'.ppc405Tlb = cpu.ppc405Tlb := congrArg XlateState.ppc405Tlb h
  have hfam : cpu'.is405 = cpu.is405 := congrArg XlateState.is405 h
  have hmem : cpu'.vm.mem = cpu.vm.mem := congrArg XlateState.mem h
  have htable : cpu'.pageTable = cpu.pageTable := by
    funext offset
    simp only [Cpu.pageTable, hptr, hmem]
  simp only [xlate, xlate32, xlate405, hmsr, hbat, hsr, hsdr1, hpid, htlb, hfam, htable]

theorem Coherent.congr (h : Coherent cpu) (hx : cpu'.xlateState = cpu.xlateState)
    (hc : cpu'.mtsCache = cpu.mtsCache) (hv : cpu'.vm = cpu.vm) : Coherent cpu' := by
  refine h.of_kept (fun cid b => ?_) (fun _ _ _ vaddr _ => xlate_congr hx vaddr _) ?_
  · rw [hc]
    exact MtsEntry.Same.refl _
  · rw [hv]
    exact hostsKept_refl cpu

theorem tlb405Mask_mem (entry : Tlb405Entry) : tlb405Mask entry ∈ ppc405TlbMasks := by
  have hlt : ((entry.tlbHi &&& PPC405_TLBHI_SIZE_MASK) >>> PPC405_TLBHI_SIZE_SHIFT).toNat < 8 := by
    have hle : (entry.tlbHi &&& PPC405_TLBHI_SIZE_MASK).toNat ≤ 0x380 := by
      rw [BitVec.toNat_and]
      exact Nat.and_le_right
    simp only [BitVec.toNat_ushiftRight, Nat.shiftRight_eq_div_pow, PPC405_TLBHI_SIZE_SHIFT]
    omega
  have hall : ∀ n < 8, ppc405TlbMasks.getD n 0 ∈ ppc405TlbMasks := by decide
  exact hall _ hlt

theorem tlb405Mask_getLsbD (entry : Tlb405Entry) {j : Nat} (hj : 24 ≤ j) (hlt : j < 32) :
    (tlb405Mask entry).getLsbD j = true := by
  have hall : ∀ mask ∈ ppc405TlbMasks, mask >>> 24 = 0xFF := by simp [ppc405TlbMasks]
  have hbyte : ∀ k < 8, (0xFF : BitVec 32).getLsbD k = true := by decide
  obtain ⟨k, rfl⟩ := Nat.exists_eq_add_of_le hj
  rw [← hbyte k (by omega), ← hall _ (tlb405Mask_mem entry), BitVec.getLsbD_ushiftRight]

theorem and_tlb405Mask {entry : Tlb405Entry}
    (ha : pageOf (vaddr &&& tlb405Mask entry) = vaddr &&& tlb405Mask entry)
    (hb : mtsHash (vaddr &&& tlb405Mask entry) = mtsHash vaddr) :
    vaddr &&& tlb405Mask entry = pageOf vaddr := by
  apply BitVec.eq_of_getLsbD_eq
  intro j hj
  rw [pageOf_getLsbD]
  by_cases hlow : 12 ≤ j
  · by_cases hmid : j < 24
    · have hbit := congrArg (fun b => BitVec.getLsbD b (j - 12)) hb
      rw [mtsHash_getLsbD _ (by omega), mtsHash_getLsbD _ (by omega),
        Nat.add_sub_cancel' hlow] at hbit
      simp [hbit, hlow]
    · rw [BitVec.getLsbD_and, tlb405Mask_getLsbD entry (by omega) hj]
      simp [hlow]
  · rw [← ha, pageOf_getLsbD]
    simp [hlow]

theorem xlate_vaddr {map : MtsMap} (h : xlate cpu vaddr cid = some map)
    (ha : pageOf (map.vaddr.setWidth 32) = map.vaddr.setWidth 32)
    (hb : mtsHash (map.vaddr.setWidth 32) = mtsHash vaddr) :
    map.vaddr.setWidth 32 = pageOf vaddr := by
  have hwidth : ∀ v : BitVec 32, (v.setWidth 64).setWidth 32 = v := by
    intro v
    rw [BitVec.setWidth_setWidth_of_le _ (by omega)]
    simp
  have hreal : (realMap vaddr).vaddr.setWidth 32 = pageOf vaddr := hwidth _
  simp only [xlate] at h
  split at h
  · simp only [xlate405] at h
    split at h
    · cases h
      exact hreal
    · obtain ⟨i, -, hmatch⟩ := List.exists_of_findSome?_eq_some h
      simp only [tlb405Match] at hmatch
      split at hmatch
      · cases hmatch
      · split at hmatch
        · cases hmatch
          simp only [hwidth] at ha hb ⊢
          exact and_tlb405Mask ha hb
        · cases hmatch
  · simp only [xlate32] at h
    split at h
    · cases h
      exact hreal
    · split at h
      · rename_i map' hbat
        cases h
        obtain ⟨i, -, hmatch⟩ := List.exists_of_findSome?_eq_some hbat
        simp only [batMatch] at hmatch
        split at hmatch
        · cases hmatch
        · split at hmatch
          · cases hmatch
            exact hwidth _
          · cases hmatch
      · obtain ⟨paddr, -, rfl⟩ := Option.map_eq_some_iff.mp h
        exact hwidth _

structure Access where
  vaddr : BitVec 32
  cid : Cid
  lookup : Bool
  opSize : Nat
  opType : MtsOp
  data : BitVec 64

def Access.result (env : Env W) (cpu : Cpu W) (a : Access) : AccessResult W :=
  memAccess env cpu a.vaddr a.cid a.lookup a.opSize a.opType a.data

/-- What a memory operation does with the host address of its access. -/
def storeAt (cpu : Cpu W) (haddr : HostAddr) (opSize : Nat) (data : BitVec 64) : Cpu W :=
  { cpu with vm := { cpu.vm with mem := vmStore cpu.vm.mem haddr opSize data } }

def Access.after (env : Env W) (cpu : Cpu W) (a : Access) : Option (Cpu W) :=
  match a.result env cpu with
  | .host haddr data cpu =>
    some (if a.opType = .write then storeAt cpu haddr a.opSize data else cpu)
  | .data _ cpu => some cpu
  | .loopEnter cpu => some cpu
  | .abort => none

def Cacheable (dev : VDevice) : Prop :=
  dev.has vdeviceFlagSparse ∨ ¬ (dev.hostAddr = 0 ∨ dev.has vdeviceFlagNoMtsMmap)

def deviceReply (env : Env W) (cpu : Cpu W) (a : Access) : Option (DevReply W) :=
  match slowLookup env cpu a.vaddr a.cid a.opType with
  | some (.ok entry, cpu) =>
    if entry.flags &&& MTS_FLAG_DEV ≠ 0 then
      (cpu.vm.devArray (entry.gppa.setWidth 6)).map fun dev =>
        env.handler dev (entry.hpa.setWidth 32) a.opSize a.opType a.data cpu.vm
    else none
  | _ => none

structure AccessOk (env : Env W) (cpu : Cpu W) (a : Access) : Prop where
  whole : ∀ map dev, xlate cpu a.vaddr a.cid = some map →
    devLookup cpu.vm (map.paddr + map.offset.setWidth 64) false = some dev → Cacheable dev →
      ∀ vaddr, pageOf vaddr = pageOf a.vaddr → LiesIn cpu a.cid vaddr map.paddr
  alone : ∀ map, xlate cpu a.vaddr a.cid = some map → cpu.vm.unshares map.paddr false a.opType →
    ∀ cid page, ¬ (cid = a.cid ∧ page = pageOf a.vaddr) → cpu.Holds cid page → ∀ map',
      xlate cpu page cid = some map' → cpu.vm.slotOf map'.paddr false ≠ cpu.vm.slotOf map.paddr false
  copy : ∀ map dev ptr cow vm, xlate cpu a.vaddr a.cid = some map →
    devLookup cpu.vm map.paddr false = some dev → dev.has vdeviceFlagSparse →
      devSparseGetHostAddr cpu.vm dev map.paddr a.opType = some (ptr, cow, vm) →
        ∀ cid page, cpu.Holds cid page ∨ (cid = a.cid ∧ page = pageOf a.vaddr) → ∀ vaddr,
          pageOf vaddr = page → xlate { cpu with vm := vm } vaddr cid = xlate cpu vaddr cid
  store : ∀ haddr data cpu', a.result env cpu = .host haddr data cpu' → a.opType = .write →
    XlateKept cpu' (storeAt cpu' haddr a.opSize data)
  dsi : xlate cpu a.vaddr a.cid = none → a.lookup = false → a.cid = .dcache →
    XlateKept cpu { cpu with msr := excMsr cpu.msr }
  device : ∀ reply, deviceReply env cpu a = some reply → reply.rebuild = true ∨
    XlateKept cpu { cpu with vm := reply.vm } ∧ HostsKept cpu reply.vm

theorem MtsEntry.Right.mono {entry : MtsEntry} (h : entry.Right cpu cid page)
    (ha : pageOf page = page)
    (hx : ∀ vaddr, pageOf vaddr = page → xlate cpu' vaddr cid = xlate cpu vaddr cid)
    (hd : cpu'.vm.devList = cpu.vm.devList)
    (hk : ∀ map, xlate cpu page cid = some map → ∀ host, cpu.vm.hostOf map.paddr false = some host →
      cpu'.vm.hostOf map.paddr false = some host) : entry.Right cpu' cid page := by
  obtain ⟨paddr, cow, hlies, hhost, hflag⟩ := h
  refine ⟨paddr, cow, fun vaddr hv => (hlies vaddr hv).congr (hx vaddr hv) hd, ?_, hflag⟩
  obtain ⟨map, hmap, rfl, -⟩ := hlies page ha
  exact hk map hmap _ hhost

theorem Coherent.fill {entry : MtsEntry} (h : Coherent cpu) (hc : cpu'.mtsCache = cpu.mtsCache)
    (hnew : pageOf entry.gvpa = entry.gvpa → mtsHash entry.gvpa = mtsHash vaddr →
      entry.gvpa = pageOf vaddr)
    (hright : entry.Right cpu' cid (pageOf vaddr))
    (hothers : ∀ cid' page, ¬ (cid' = cid ∧ mtsHash page = mtsHash vaddr) → cpu.Holds cid' page →
      ∀ e, MtsEntry.Right cpu cid' page e → MtsEntry.Right cpu' cid' page e) :
    Coherent (cpu'.setMts cid (mtsHash vaddr) entry) := by
  intro cid' page hpage
  by_cases hslot : cid' = cid ∧ mtsHash page = mtsHash vaddr
  · obtain ⟨rfl, hhash⟩ := hslot
    have hentry : (cpu'.setMts cid' (mtsHash vaddr) entry).mtsCache cid' (mtsHash page) = entry := by
      simp only [Cpu.setMts, hhash, Function.update_self]
    obtain ⟨hgvpa, ha⟩ := hpage
    rw [hentry] at hgvpa ⊢
    rw [← hgvpa] at ha hhash ⊢
    rw [hnew ha hhash]
    exact hright
  · have hentry : (cpu'.setMts cid (mtsHash vaddr) entry).mtsCache cid' (mtsHash page) =
        cpu.mtsCache cid' (mtsHash page) := by
      simp only [Cpu.setMts, ← hc]
      by_cases hcid : cid' = cid
      · subst hcid
        rw [Function.update_self, Function.update_of_ne fun hhash => hslot ⟨rfl, hhash⟩]
      · rw [Function.update_of_ne hcid]
    have hheld : cpu.Holds cid' page := ⟨hentry ▸ hpage.1, hpage.2⟩
    rw [hentry]
    exact hothers cid' page hslot hheld _ (h cid' page hheld)

theorem memMap_cases {opType : MtsOp} {map : MtsMap} {bucket : BitVec 14} {entry : Option MtsEntry}
    (hbase : ∀ dev, devLookup cpu.vm (map.paddr + map.offset.setWidth 64) false = some dev →
      Cacheable dev → devLookup cpu.vm map.paddr false = some dev)
    (h : memMap env cpu opType map cid bucket = some (entry, cpu')) :
    (cpu' = cpu ∧ ∀ e, entry = some e → e.flags &&& MTS_FLAG_DEV ≠ 0) ∨
    ∃ dev vm hpa cow, devLookup cpu.vm (map.paddr + map.offset.setWidth 64) false = some dev ∧
      Cacheable dev ∧ vm.devList = cpu.vm.devList ∧
      vm.hostOf map.paddr false = some (hpa, cow) ∧
      (∀ p host, cpu.vm.hostOf p false = some host → (cpu.vm.unshares map.paddr false opType →
        cpu.vm.slotOf p false ≠ cpu.vm.slotOf map.paddr false) → vm.hostOf p false = some host) ∧
      (vm = cpu.vm ∨ dev.has vdeviceFlagSparse ∧ ∃ ptr c,
        devSparseGetHostAddr cpu.vm dev map.paddr opType = some (ptr, c, vm)) ∧
      entry = some (mtsEntry map hpa ((if cow then MTS_FLAG_COW else 0) ||| execFlag cpu map)) ∧
      cpu' = { cpu with vm := vm }.setMts cid bucket
        (mtsEntry map hpa ((if cow then MTS_FLAG_COW else 0) ||| execFlag cpu map)) := by
  simp only [memMap] at h
  split at h
  · cases h
    exact Or.inl ⟨rfl, fun e he => by cases he⟩
  rename_i dev hdev
  split at h
  · rename_i hsp
    right
    split at h
    · cases h
    rename_i ptr cow vm hsparse
    cases h
    obtain ⟨hlist, hhost, hothers⟩ :=
      devSparseGetHostAddr_hostOf (hbase dev hdev (Or.inl hsp)) hsp hsparse
    exact ⟨dev, vm, ptr, cow, hdev, Or.inl hsp, hlist, hhost, fun p host => hothers p false host,
      Or.inr ⟨hsp, ptr, cow, hsparse⟩, rfl, rfl⟩
  · rename_i hsp
    split at h
    · rename_i hdirect
      cases h
      left
      refine ⟨rfl, fun e he => ?_⟩
      cases he
      change MTS_FLAG_DEV &&& MTS_FLAG_DEV ≠ 0
      decide
    · rename_i hdirect
      cases h
      right
      have hhost : cpu.vm.hostOf map.paddr false =
          some (dev.hostAddr + (map.paddr - dev.physAddr), false) := by
        simp only [Vm.hostOf, hbase dev hdev (Or.inr hdirect), hsp, hdirect, if_false,
          Bool.false_eq_true]
      have hflags : (if false = true then MTS_FLAG_COW else 0) ||| execFlag cpu map =
          execFlag cpu map := BitVec.zero_or
      refine ⟨dev, cpu.vm, _, false, hdev, Or.inr hdirect, rfl, hhost, fun _ _ hh _ => hh,
        Or.inl rfl, ?_, ?_⟩
      · rw [hflags]
      · rw [hflags]

theorem memMap_coherent {a : Access} {map : MtsMap} {entry : Option MtsEntry} (h : Coherent cpu)
    (ok : AccessOk env cpu a) (hmap : xlate cpu a.vaddr a.cid = some map)
    (hm : memMap env cpu a.opType map a.cid (mtsHash a.vaddr) = some (entry, cpu')) :
    Coherent cpu' ∧ ∀ e, entry = some e → if e.flags &&& MTS_FLAG_DEV = 0 then
      cpu'.mtsCache a.cid (mtsHash a.vaddr) = e else cpu' = cpu := by
  have hbase : ∀ dev, devLookup cpu.vm (map.paddr + map.offset.setWidth 64) false = some dev →
      Cacheable dev → devLookup cpu.vm map.paddr false = some dev := by
    intro dev hdev hcache
    obtain ⟨map', hmap', -, hlies⟩ := ok.whole map dev hmap hdev hcache a.vaddr rfl
    rw [hmap] at hmap'
    cases hmap'
    rw [← hlies, hdev]
  obtain ⟨rfl, hdev⟩ | ⟨dev, vm, hpa, cow, hdev, hcache, hlist, hhost, hothers, hcopy, rfl, rfl⟩ :=
    memMap_cases hbase hm
  · exact ⟨h, fun e he => by rw [if_neg (hdev e he)]⟩
  refine ⟨?_, ?_⟩
  · have hx : ∀ cid page, cpu.Holds cid page ∨ (cid = a.cid ∧ page = pageOf a.vaddr) → ∀ vaddr,
        pageOf vaddr = page → xlate { cpu with vm := vm } vaddr cid = xlate cpu vaddr cid := by
      obtain rfl | ⟨hsp, ptr, c, hsparse⟩ := hcopy
      · intro cid page _ vaddr _
        rfl
      · exact ok.copy map dev ptr c vm hmap (hbase dev hdev hcache) hsp hsparse
    refine h.fill rfl (fun ha hb => xlate_vaddr hmap ha hb) ?_ ?_
    · refine ⟨map.paddr, cow, fun vaddr hv => ?_, hhost, ?_⟩
      · exact (ok.whole map dev hmap hdev hcache vaddr hv).congr (hx _ _ (Or.inr ⟨rfl, rfl⟩) vaddr hv)
          hlist
      · exact flags_cow cow _
    · intro cid page hne hheld e he
      refine he.mono hheld.2 (hx cid page (Or.inl hheld)) hlist fun map' hmap' host hh => ?_
      refine hothers _ host hh fun hunshares => ok.alone map hmap hunshares cid page ?_ hheld map' hmap'
      rintro ⟨rfl, rfl⟩
      exact hne ⟨rfl, mtsHash_pageOf a.vaddr⟩
  · intro e he
    cases he
    have hflags : (mtsEntry map hpa ((if cow then MTS_FLAG_COW else 0) |||
        execFlag cpu map)).flags &&& MTS_FLAG_DEV = 0 := flags_not_dev cow _
    rw [if_pos hflags]
    simp only [Cpu.setMts, Function.update_self]

theorem slowLookup_error {a : Access}
    (hs : slowLookup env cpu a.vaddr a.cid a.opType = some (.error .t, cpu')) :
    cpu' = cpu ∧ xlate cpu a.vaddr a.cid = none := by
  simp only [slowLookup] at hs
  split at hs
  · rename_i hx
    cases hs
    exact ⟨rfl, hx⟩
  · split at hs <;> cases hs

theorem slowLookup_coherent {a : Access} {res : Except MtsAcc MtsEntry} (h : Coherent cpu)
    (ok : AccessOk env cpu a) (hs : slowLookup env cpu a.vaddr a.cid a.opType = some (res, cpu')) :
    Coherent cpu' ∧ ∀ e, res = .ok e → if e.flags &&& MTS_FLAG_DEV = 0 then
      cpu'.mtsCache a.cid (mtsHash a.vaddr) = e else cpu' = cpu := by
  simp only [slowLookup] at hs
  split at hs
  · cases hs
    exact ⟨h, fun e he => by cases he⟩
  · rename_i map hmap
    split at hs
    · cases hs
    · rename_i entry mid hm
      cases hs
      obtain ⟨hco, hst⟩ := memMap_coherent h ok hmap hm
      refine ⟨hco, fun e he => ?_⟩
      cases he
      exact hst _ rfl
    · rename_i mid hm
      cases hs
      exact ⟨(memMap_coherent h ok hmap hm).1, fun e he => by cases he⟩

theorem rawAccess_coherent {opType : MtsOp} {entry : MtsEntry} {data data' : BitVec 64}
    {haddr : HostAddr} (h : Coherent cpu) (he : cpu.mtsCache cid (mtsHash vaddr) = entry)
    (hr : rawAccess cpu vaddr cid opType entry data = .host haddr data' cpu') : Coherent cpu' := by
  simp only [rawAccess] at hr
  split at hr
  · cases hr
    refine h.of_kept (fun cid' b => ?_) (fun _ _ _ _ _ => rfl) (hostsKept_refl cpu)
    simp only [Cpu.setMts]
    by_cases hcid : cid' = cid
    · subst hcid
      rw [Function.update_self]
      by_cases hb : b = mtsHash vaddr
      · subst hb
        rw [Function.update_self, he]
        refine ⟨rfl, rfl, ?_⟩
        have hflags : entry.flags &&& ~~~MTS_FLAG_EXEC &&& MTS_FLAG_COW =
            entry.flags &&& MTS_FLAG_COW := by
          rw [BitVec.and_assoc]
          rfl
        rw [hflags]
      · rw [Function.update_of_ne hb]
        exact MtsEntry.Same.refl _
    · rw [Function.update_of_ne hcid]
      exact MtsEntry.Same.refl _
  · cases hr
    exact h

theorem storeAt_coherent {haddr : HostAddr} {opSize : Nat} {data : BitVec 64} (h : Coherent cpu)
    (hx : XlateKept cpu (storeAt cpu haddr opSize data)) :
    Coherent (storeAt cpu haddr opSize data) := by
  refine h.of_kept (fun _ _ => MtsEntry.Same.refl _) hx ?_
  intro cid page _ vaddr _ map _
  exact ⟨rfl, rfl, fun host hh => hh⟩

theorem triggerException_coherent (excVector : BitVec 32) (h : Coherent cpu)
    (hx : XlateKept cpu { cpu with msr := excMsr cpu.msr }) :
    Coherent (triggerException cpu excVector) := by
  refine h.of_kept (fun _ _ => MtsEntry.Same.refl _) ?_ (hostsKept_refl cpu)
  intro cid page hpage vaddr hv
  rw [← hx cid page hpage vaddr hv]
  exact xlate_congr rfl vaddr cid

theorem afterReply_coherent {reply : DevReply W} (h : Coherent cpu)
    (ok : reply.rebuild = true ∨
      XlateKept cpu { cpu with vm := reply.vm } ∧ HostsKept cpu reply.vm) :
    Coherent (cpu.afterReply reply) := by
  simp only [Cpu.afterReply]
  split
  · exact coherent_invalidate _
  · rename_i hr
    obtain ⟨hx, hk⟩ := ok.resolve_left hr
    exact h.of_kept (fun _ _ => MtsEntry.Same.refl _) hx hk

def AccessResult.state : AccessResult W → Option (Cpu W)
  | .host _ _ cpu => some cpu
  | .data _ cpu => some cpu
  | .loopEnter cpu => some cpu
  | .abort => none

theorem devAccessFast_coherent {devId : BitVec 6} {offset : BitVec 32} {opSize : Nat}
    {opType : MtsOp} {data : BitVec 64} (h : Coherent cpu)
    (ok : ∀ dev, cpu.vm.devArray devId = some dev → ∀ reply,
      reply = env.handler dev offset opSize opType data cpu.vm → reply.rebuild = true ∨
        XlateKept cpu { cpu with vm := reply.vm } ∧ HostsKept cpu reply.vm)
    (hd : (devAccessFast env cpu devId offset opSize opType data).state = some cpu') :
    Coherent cpu' := by
  simp only [devAccessFast] at hd
  split at hd
  · cases hd
    exact h
  · rename_i dev hdev
    have hnext := afterReply_coherent h (ok dev hdev _ rfl)
    split at hd
    · cases hd
      exact hnext
    · cases hd
      exact hnext

theorem accessSpecial_coherent {mask : MtsAcc} {lookup : Bool} {opType : MtsOp} {data : BitVec 64}
    (h : Coherent cpu) (ok : mask = .t → lookup = false → cid = .dcache →
      XlateKept cpu { cpu with msr := excMsr cpu.msr })
    (hs : (accessSpecial cpu vaddr cid mask lookup opType data).state = some cpu') :
    Coherent cpu' := by
  cases mask with
  | u =>
    cases hs
    exact h
  | t =>
    simp only [accessSpecial] at hs
    split at hs
    · rename_i hdsi
      simp only [Bool.and_eq_true, Bool.not_eq_true', decide_eq_true_eq] at hdsi
      cases hs
      refine triggerException_coherent _ (h.congr rfl rfl rfl) ?_
      intro cid' page hpage vaddr' hv
      exact ok rfl hdsi.1 hdsi.2 cid' page hpage vaddr' hv
    · cases hs
      exact h

theorem result_coherent {a : Access} (h : Coherent cpu) (ok : AccessOk env cpu a)
    (hr : (a.result env cpu).state = some cpu') : Coherent cpu' := by
  have hraw : ∀ mid entry, Coherent mid → mid.mtsCache a.cid (mtsHash a.vaddr) = entry →
      (rawAccess mid a.vaddr a.cid a.opType entry a.data).state = some cpu' → Coherent cpu' := by
    intro mid entry hmid he hres
    cases hraw : rawAccess mid a.vaddr a.cid a.opType entry a.data with
    | host haddr data after =>
      rw [hraw] at hres
      cases hres
      exact rawAccess_coherent hmid he hraw
    | data data after =>
      simp only [rawAccess] at hraw
      split at hraw <;> cases hraw
    | loopEnter after =>
      simp only [rawAccess] at hraw
      split at hraw <;> cases hraw
    | abort =>
      simp only [rawAccess] at hraw
      split at hraw <;> cases hraw
  simp only [Access.result, memAccess] at hr
  split at hr
  · rename_i entry hhit
    exact hraw cpu entry h (fastHit_eq_some.mp hhit).1 hr
  · split at hr
    · cases hr
    · rename_i mask mid hs
      have hmid := (slowLookup_coherent h ok hs).1
      refine accessSpecial_coherent hmid (fun hmask hlookup hcid => ?_) hr
      rw [hmask] at hs
      obtain ⟨rfl, hx⟩ := slowLookup_error hs
      exact ok.dsi hx hlookup hcid
    · rename_i entry mid hs
      obtain ⟨hmid, hst⟩ := slowLookup_coherent h ok hs
      split at hr
      · rename_i hdev
        have hentry := hst entry rfl
        rw [if_neg hdev] at hentry
        subst hentry
        refine devAccessFast_coherent h (fun dev hdevice reply hreply => ?_) hr
        refine ok.device reply ?_
        simp only [deviceReply, hs, if_pos hdev, hdevice, hreply, Option.map_some]
      · rename_i hdev
        have hentry := hst entry rfl
        rw [if_pos (not_not.mp hdev)] at hentry
        exact hraw mid entry hmid hentry hr

theorem after_coherent {a : Access} (h : Coherent cpu) (ok : AccessOk env cpu a)
    (ha : a.after env cpu = some cpu') : Coherent cpu' := by
  simp only [Access.after] at ha
  cases hr : a.result env cpu with
  | host haddr data mid =>
    have hmid : Coherent mid := result_coherent h ok (by rw [hr]; rfl)
    rw [hr, Option.some.injEq] at ha
    subst ha
    split
    · rename_i hw
      exact storeAt_coherent hmid (ok.store haddr _ mid hr hw)
    · exact hmid
  | data data mid =>
    rw [hr] at ha
    exact result_coherent h ok (by rw [hr]; exact ha)
  | loopEnter mid =>
    rw [hr] at ha
    exact result_coherent h ok (by rw [hr]; exact ha)
  | abort =>
    rw [hr] at ha
    cases ha

inductive SystemInsn where
  | mtmsr
  | rfi
  | mtsr
  | mtspr
  | tlbia
  | tlbie
  | tlbre
  | tlbwe

def SystemInsn.exec (op : SystemInsn) (cpu : Cpu W) (insn : Insn) : Cpu W :=
  match op with
  | .mtmsr => execMTMSR cpu insn
  | .rfi => execRFI cpu insn
  | .mtsr => execMTSR cpu insn
  | .mtspr => execMTSPR cpu insn
  | .tlbia => execTLBIA cpu insn
  | .tlbie => execTLBIE cpu insn
  | .tlbre => execTLBRE cpu insn
  | .tlbwe => execTLBWE cpu insn

/-- What can happen to the CPU. Every other instruction is made of accesses, of
exceptions, whose handlers may find bits set in SRR1, and of changes to the
registers that no translation reads. Code gets compiled, devices and threads act
from outside. -/
inductive CpuEvent (W : Type) where
  | access (a : Access)
  | insn (op : SystemInsn) (insn : Insn)
  | exception (excVector cause : BitVec 32)
  | registers (regs : Regs) (ia : BitVec 32)
  | compile (execPage : BitVec 32 → Bool)
  | outside (vm : Vm W) (irqPending irqCheck rebuild : Bool)

/-- The state after an event; none where an assertion aborts. -/
def cpuStep (env : Env W) (cpu : Cpu W) (e : CpuEvent W) : Option (Cpu W) :=
  match e with
  | .access a => a.after env cpu
  | .insn op insn => some (op.exec cpu insn)
  | .exception excVector cause =>
    let cpu := triggerException cpu excVector
    some { cpu with srr1 := cpu.srr1 ||| cause }
  | .registers regs ia => some { cpu with toRegs := regs, ia := ia }
  | .compile execPage => some { cpu with execPage := execPage }
  | .outside vm irqPending irqCheck rebuild =>
    some (cpu.afterReply ⟨none, 0, vm, irqPending, irqCheck, rebuild⟩)

def StepOk (env : Env W) (cpu : Cpu W) (e : CpuEvent W) : Prop :=
  match e with
  | .access a => AccessOk env cpu a
  | .insn op insn =>
    match op with
    | .mtmsr => XlateKept cpu { cpu with msr := cpu.gpr (regD insn) }
    | .rfi => XlateKept cpu { cpu with msr := rfiMsr cpu.msr cpu.srr1 }
    | .mtspr => (sprOf insn).toNat = PPC405_SPR_PID →
      XlateKept cpu { cpu with ppc405Pid := cpu.gpr (regD insn) }
    | .tlbre => bits insn 11 15 ≠ 1 →
      XlateKept cpu { cpu with ppc405Pid := (cpu.ppc405Tlb (tlb405Index cpu insn)).tid }
    | .tlbwe => XlateKept cpu { cpu with
        ppc405Tlb := Function.update cpu.ppc405Tlb (tlb405Index cpu insn) (tlbweEntry cpu insn) }
    | .mtsr | .tlbia | .tlbie => True
  | .exception _ _ => XlateKept cpu { cpu with msr := excMsr cpu.msr }
  | .registers _ _ | .compile _ => True
  | .outside vm _ _ rebuild =>
    rebuild = true ∨ XlateKept cpu { cpu with vm := vm } ∧ HostsKept cpu vm

theorem Coherent.of_xlateKept (h : Coherent cpu) {mid : Cpu W} (hx : XlateKept cpu mid)
    (hs : cpu'.xlateState = mid.xlateState) (hc : cpu'.mtsCache = cpu.mtsCache)
    (hv : cpu'.vm = cpu.vm) : Coherent cpu' := by
  refine h.of_kept (fun cid b => ?_) (fun cid page hpage vaddr hv => ?_) ?_
  · rw [hc]
    exact MtsEntry.Same.refl _
  · rw [xlate_congr hs, hx cid page hpage vaddr hv]
  · rw [hv]
    exact hostsKept_refl cpu

theorem setSpr_coherent {spr : Nat} {val : BitVec 32} (h : Coherent cpu)
    (ok : spr = PPC405_SPR_PID → XlateKept cpu { cpu with ppc405Pid := val }) :
    Coherent (setSpr cpu spr val) := by
  unfold setSpr
  split
  case h_3 => exact coherent_invalidate _
  case h_12 => exact h.of_xlateKept (ok rfl) rfl rfl rfl
  all_goals exact h.congr rfl rfl rfl

theorem insn_coherent {op : SystemInsn} {insn : Insn} (h : Coherent cpu)
    (ok : StepOk env cpu (.insn op insn)) : Coherent (op.exec cpu insn) := by
  cases op with
  | mtmsr => exact h.of_xlateKept ok rfl rfl rfl
  | rfi => exact h.of_xlateKept ok rfl rfl rfl
  | mtsr => exact coherent_invalidate _
  | mtspr =>
    simp only [SystemInsn.exec, execMTSPR]
    split
    · exact coherent_invalidate _
    · exact setSpr_coherent h ok
  | tlbia => exact coherent_invalidate _
  | tlbie => exact coherent_invalidate _
  | tlbre =>
    simp only [SystemInsn.exec, execTLBRE]
    split
    · exact h.congr rfl rfl rfl
    · rename_i hws
      exact h.of_xlateKept (ok hws) rfl rfl rfl
  | tlbwe => exact h.of_xlateKept ok rfl rfl rfl

theorem step_coherent {e : CpuEvent W} (h : Coherent cpu) (ok : StepOk env cpu e)
    (hs : cpuStep env cpu e = some cpu') : Coherent cpu' := by
  cases e with
  | access a => exact after_coherent h ok hs
  | insn op insn =>
    cases hs
    exact insn_coherent h ok
  | exception excVector cause =>
    cases hs
    exact (triggerException_coherent excVector h ok).congr rfl rfl rfl
  | registers regs ia =>
    cases hs
    exact h.congr rfl rfl rfl
  | compile execPage =>
    cases hs
    exact h.congr rfl rfl rfl
  | outside vm irqPending irqCheck rebuild =>
    cases hs
    exact afterReply_coherent h ok

/-- Every hit designates the host page that the slow lookup would select. -/
def HitsAgree (env : Env W) (cpu : Cpu W) : Prop :=
  ∀ vaddr cid opType, HitAgrees env cpu vaddr cid opType

/-- In a run from empty caches whose steps leave the translations of the cached
pages alone or empty the caches, every hit agrees with the slow lookup. -/
theorem mts_hits_agree {env : Env W} {s t : Cpu W} {trace : List (Cpu W × CpuEvent W)}
    (hrun : Run (fun cpu e cpu' => cpuStep env cpu e = some cpu') s trace t)
    (hempty : ∀ cid b, s.mtsCache cid b = MtsEntry.invalid)
    (hok : AllSteps (StepOk env) trace) : Always (HitsAgree env) trace t := by
  have hall : Always Coherent trace t :=
    hrun.invariant (fun _ _ _ => step_coherent) (coherent_empty hempty) hok
  have hhits : ∀ cpu, Coherent cpu → HitsAgree env cpu :=
    fun cpu h vaddr cid opType => hit_agrees h vaddr cid opType
  exact ⟨hhits t hall.1, fun x hx => hhits x.1 (hall.2 x hx)⟩

theorem xlate_real (h : translationOff cpu.msr cid = true) (vaddr : BitVec 32) :
    xlate cpu vaddr cid = some (realMap vaddr) := by
  simp only [xlate, xlate405, xlate32, h, if_true, ite_self]

theorem accessOk_real {a : Access} (hoff : translationOff cpu.msr a.cid = true)
    (hload : a.opType = .read) (hdev : deviceReply env cpu a = none)
    (hpage : ∀ vaddr, pageOf vaddr = pageOf a.vaddr →
      devLookup cpu.vm ((realMap vaddr).paddr + (realMap vaddr).offset.setWidth 64) false =
        devLookup cpu.vm (realMap vaddr).paddr false)
    (hcopy : ∀ dev ∈ cpu.vm.devList, ¬ dev.has vdeviceFlagSparse) : AccessOk env cpu a where
  whole := by
    intro map dev hmap _ _ vaddr hv
    rw [xlate_real hoff] at hmap
    cases hmap
    have hbase : (realMap vaddr).paddr = (realMap a.vaddr).paddr := by
      have heq := congrArg (fun p => BitVec.setWidth 64 p) hv
      exact heq
    refine ⟨realMap vaddr, xlate_real hoff vaddr, hbase, ?_⟩
    rw [← hbase]
    exact hpage vaddr hv
  alone := by
    intro map _ hunshares
    rw [hload] at hunshares
    cases hunshares.1
  copy := by
    intro map dev _ _ _ _ hlookup hsp
    exact absurd hsp (hcopy dev (devLookup_mem hlookup))
  store := by
    intro _ _ _ _ hw
    rw [hload] at hw
    cases hw
  dsi := by
    intro hx
    rw [xlate_real hoff] at hx
    cases hx
  device := by
    intro reply hr
    rw [hdev] at hr
    cases hr

def bootRam : VDevice := { Mips64.ramDevice with physLen := 0x40000 }

def bootBoard : Vm Unit :=
  { Mips64.ramBoard [] with
    devList := [bootRam]
    devArray := fun id => if id = 0 then some bootRam else none
    remap_host := by
      simp [bootRam, Mips64.ramDevice, VDevice.has, vdeviceFlagCaching, vdeviceFlagSparse] }

/-- A CPU of that board in real mode. Its data BAT maps address 0 to 0x20000, and
`r3` holds the MSR to move to. -/
def bootCpu (msr : BitVec 32) : Cpu Unit where
  gpr reg := if reg.toNat = 3 then msr else 0
  xer := 0
  xerCa := false
  crFields _ := 0
  ia := 0xFFF00100
  msr := 0
  srr0 := 0
  srr1 := 0
  dsisr := 0
  dar := 0
  dec := 0
  timerIrqArmed := false
  sprg _ := 0
  hid0 := 0
  hid1 := 0
  irqPending := false
  irqCheck := false
  bat cid _ := if cid = .dcache then ⟨0x00000002, 0x00020002⟩ else ⟨0, 0⟩
  sr _ := 0
  sdr1 := 0
  sdr1Hptr := 0
  ppc405Pid := 0
  ppc405Tlb _ := ⟨0, 0, 0⟩
  is405 := false
  mtsCache _ _ := MtsEntry.invalid
  execPage _ := false
  vm := bootBoard

def quietEnv : Env Unit where
  handler _ _ _ _ data vm := ⟨none, data, vm, false, false, false⟩
  altEntry := MtsEntry.invalid

/-- `lwz` from address 0x1000 -/
def loadAccess : Access := ⟨0x1000, .dcache, false, 4, .read, 0⟩

/-- `mtmsr r3` -/
def mtmsrInsn : Insn := 0x7c600124

theorem run_two {s mid t : Cpu W} (e e' : CpuEvent W) (h1 : cpuStep env s e = some mid)
    (h2 : cpuStep env mid e' = some t) :
    Run (fun cpu e cpu' => cpuStep env cpu e = some cpu') s [(s, e), (mid, e')] t :=
  Run.cons h1 (Run.cons h2 Run.start)

theorem bootBoard_lookup {p : BitVec 64} (h : p.toNat < 0x40000) :
    devLookup bootBoard p false = some bootRam := by
  have hbase : bootRam.physAddr ≤ p := Nat.zero_le p.toNat
  have hlen : p - bootRam.physAddr < bootRam.physLen.setWidth 64 := by
    have hzero : bootRam.physAddr = 0#64 := rfl
    rw [hzero, BitVec.sub_zero]
    exact h
  have hcovers : bootRam.covers p = true := by
    simp only [VDevice.covers, hbase, hlen, decide_true, Bool.and_self]
  have hlist : bootBoard.devList = [bootRam] := rfl
  simp [devLookup, hlist, hcovers]

theorem bootBoard_whole {vaddr : BitVec 32} (hv : pageOf vaddr = pageOf loadAccess.vaddr) :
    devLookup bootBoard ((realMap vaddr).paddr + (realMap vaddr).offset.setWidth 64) false =
      devLookup bootBoard (realMap vaddr).paddr false := by
  have hpage : (realMap vaddr).paddr = 0x1000 := by
    have heq := congrArg (fun p => BitVec.setWidth 64 p) hv
    exact heq
  have hoff : ((realMap vaddr).offset.setWidth 64).toNat ≤ 0xFFF := by
    have hand : (vaddr &&& PPC32_MIN_PAGE_IMASK).toNat ≤ 0xFFF := by
      rw [BitVec.toNat_and]
      exact Nat.and_le_right
    have hfield : (realMap vaddr).offset = vaddr &&& PPC32_MIN_PAGE_IMASK := rfl
    rw [hfield, BitVec.toNat_setWidth]
    omega
  have hbase : (0x1000 : BitVec 64).toNat = 0x1000 := rfl
  rw [hpage, bootBoard_lookup, bootBoard_lookup]
  · rw [hbase]
    omega
  · rw [BitVec.toNat_add, hbase]
    omega

/-- The MSR is set to enable interrupts only. -/
theorem mts_hits_agree_boot : ∃ mid t, (fastHit t 0x1000 .dcache .read).isSome ∧
    Run (fun cpu e cpu' => cpuStep quietEnv cpu e = some cpu') (bootCpu 0x8000)
      [(bootCpu 0x8000, .access loadAccess), (mid, .insn .mtmsr mtmsrInsn)] t ∧
    HitsAgree quietEnv t := by
  have hfirst : (cpuStep quietEnv (bootCpu 0x8000) (.access loadAccess)).any (fun mid =>
      mid.msr = 0 && mid.gpr (regD mtmsrInsn) = 0x8000 &&
        (fastHit (execMTMSR mid mtmsrInsn) 0x1000 .dcache .read).isSome) := by
    decide
  simp only [Option.any_eq_true, Bool.and_eq_true, decide_eq_true_eq] at hfirst
  obtain ⟨mid, h1, ⟨hmsr, hgpr⟩, hhit⟩ := hfirst
  have hrun := run_two _ (.insn .mtmsr mtmsrInsn) h1 rfl
  refine ⟨mid, execMTMSR mid mtmsrInsn, hhit, hrun,
    (mts_hits_agree hrun (fun _ _ => rfl) ?_).1⟩
  intro x hx
  simp only [List.mem_cons, List.not_mem_nil, or_false] at hx
  obtain rfl | rfl := hx
  · have hnone : (deviceReply quietEnv (bootCpu 0x8000) loadAccess).isNone := by decide
    exact accessOk_real (by decide) rfl (Option.isNone_iff_eq_none.mp hnone)
      (fun _ => bootBoard_whole) (by simp [bootCpu, bootBoard, bootRam, Mips64.ramDevice,
        VDevice.has, vdeviceFlagCaching, vdeviceFlagSparse])
  · intro cid page _ vaddr _
    have hoff : ∀ cid, translationOff 0x8000 cid = true ∧ translationOff 0 cid = true := by
      intro cid
      cases cid <;> decide
    rw [xlate_real, xlate_real]
    · rw [hmsr]
      exact (hoff cid).2
    · simp only [hgpr]
      exact (hoff cid).1

def slowHost (env : Env W) (cpu : Cpu W) (vaddr : BitVec 32) (cid : Cid) (opType : MtsOp) :
    Option HostAddr :=
  match slowLookup env cpu vaddr cid opType with
  | some (.ok entry, _) => some entry.hpa
  | _ => none

/-- Data translation is turned on, and the page at 0x1000 is still the one that
real mode had there. -/
theorem not_mts_hits_agree : ¬ ∀ (env : Env Unit) (s t : Cpu Unit)
    (trace : List (Cpu Unit × CpuEvent Unit)),
      Run (fun cpu e cpu' => cpuStep env cpu e = some cpu') s trace t →
        (∀ cid b, s.mtsCache cid b = MtsEntry.invalid) → HitsAgree env t := by
  intro h
  have hend : (cpuStep quietEnv (bootCpu 0x10) (.access loadAccess)).any (fun mid =>
      ((fastHit (execMTMSR mid mtmsrInsn) 0x1000 .dcache .read).map MtsEntry.hpa =
        some 0x10001000) &&
      slowHost quietEnv (execMTMSR mid mtmsrInsn) 0x1000 .dcache .read = some 0x10021000) := by
    decide
  simp only [Option.any_eq_true, Bool.and_eq_true, decide_eq_true_eq, Option.map_eq_some_iff]
    at hend
  obtain ⟨mid, h1, ⟨entry, hhit, hhpa⟩, hslow⟩ := hend
  have hagree := h _ _ _ _ (run_two _ (.insn .mtmsr mtmsrInsn) h1 rfl) (fun _ _ => rfl)
    0x1000 .dcache .read
  obtain ⟨entry', cpu', hlookup, -, hsame⟩ := hagree entry hhit
  have hentry : slowHost quietEnv (execMTMSR mid mtmsrInsn) 0x1000 .dcache .read =
      some entry'.hpa := by
    have hres : slowLookup quietEnv (execMTMSR mid mtmsrInsn) 0x1000 .dcache .read =
        some (.ok entry', cpu') := hlookup
    simp only [slowHost, hres]
  rw [hentry, hsame, hhpa] at hslow
  have hne : (some 0x10001000 : Option HostAddr) ≠ some 0x10021000 := by decide
  exact hne hslow

end Dynamips.Ppc32
