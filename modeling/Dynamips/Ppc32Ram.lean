import Dynamips.PhysMem
import Dynamips.Ppc32Mts

/-! The accesses of a PowerPC CPU to the RAM of a sparse device, and the pointers
to host pages that it keeps: those of its two virtual TLBs and that of the page it
executes from. -/
set_option autoImplicit false

namespace Dynamips.Ppc32

open Mips64 (vmLoad vmStore)

/-- `cpu_ppc_t` with the page that it executes from. -/
structure FetchCpu (W : Type) extends Cpu W where
  njmExecPage : BitVec 64
  njmExecPtr : Option HostAddr

variable {W : Type}

def memLookup (env : Env W) (cpu : Cpu W) (vaddr : BitVec 32) (cid : Cid) :
    Option (Option HostAddr × Cpu W) :=
  match memAccess env cpu vaddr cid true 4 .read 0 with
  | .host haddr _ cpu => some (some haddr, cpu)
  | .data _ cpu => some (none, cpu)
  | .loopEnter _ | .abort => none

def execPage (ia : BitVec 32) : BitVec 32 := ia &&& ~~~PPC32_MIN_PAGE_IMASK

/-- `ppc32_exec_fetch`; a page without a host address cannot be read. -/
def execFetch (env : Env W) (cpu : FetchCpu W) (ia : BitVec 32) : Option (Insn × FetchCpu W) :=
  let page :=
    if (execPage ia).setWidth 64 ≠ cpu.njmExecPage then
      (memLookup env cpu.toCpu (execPage ia) .icache).map fun (ptr, mid) =>
        { toCpu := mid, njmExecPage := (execPage ia).setWidth 64, njmExecPtr := ptr }
    else some cpu
  page.bind fun cpu =>
    let offset := (ia &&& PPC32_MIN_PAGE_IMASK) >>> 2
    cpu.njmExecPtr.map fun ptr =>
      ((vmLoad cpu.vm.mem (ptr + offset.setWidth 64 * 4) 4).setWidth 32, cpu)

def memRead (env : Env W) (cpu : FetchCpu W) (vaddr : BitVec 32) (size : Nat) :
    Option (BitVec 64 × FetchCpu W) :=
  match memAccess env cpu.toCpu vaddr .dcache false size .read 0 with
  | .host haddr _ mid => some (vmLoad mid.vm.mem haddr size, { cpu with toCpu := mid })
  | .data data mid => some (data, { cpu with toCpu := mid })
  | .loopEnter _ | .abort => none

def memWrite (env : Env W) (cpu : FetchCpu W) (vaddr : BitVec 32) (size : Nat)
    (data : BitVec 64) : Option (FetchCpu W) :=
  match memAccess env cpu.toCpu vaddr .dcache false size .write data with
  | .host haddr data mid => some { cpu with toCpu := storeAt mid haddr size data }
  | .data _ mid => some { cpu with toCpu := mid }
  | .loopEnter _ | .abort => none

def Cpu.ramSlot (cpu : Cpu W) (vaddr : BitVec 32) (cid : Cid) : Option Slot :=
  (xlate cpu vaddr cid).bind fun map => cpu.vm.ramSlot map.paddr false

def Cpu.CachedAlone (cpu : Cpu W) (bucket : Option (Cid × BitVec 14)) (slot : Slot) : Prop :=
  ∀ cid page, bucket ≠ some (cid, mtsHash page) → cpu.Holds cid page → ∀ map,
    xlate cpu page cid = some map → cpu.vm.slotOf map.paddr false ≠ some slot

/-- Except for a bucket, no pointer that the CPU keeps is that of a slot. -/
structure FetchCpu.Alone (cpu : FetchCpu W) (bucket : Option (Cid × BitVec 14)) (slot : Slot) :
    Prop where
  cached : cpu.CachedAlone bucket slot
  exec : cpu.njmExecPtr ≠ none → ∀ map,
    xlate cpu.toCpu (cpu.njmExecPage.setWidth 32) .icache = some map →
      cpu.vm.slotOf map.paddr false ≠ some slot

structure PointersOk (cpu : FetchCpu W) : Prop where
  cache : Coherent cpu.toCpu
  exec : ∀ ptr, cpu.njmExecPtr = some ptr → ∃ map cow,
    xlate cpu.toCpu (cpu.njmExecPage.setWidth 32) .icache = some map ∧
      cpu.vm.hostOf map.paddr false = some (ptr, cow)

/-- No translation reads the pages that the VM allocates: `sdr1_hptr` points to
the memory of a device. -/
def TableFixed (cpu : Cpu W) : Prop :=
  ∀ mem : HostAddr → Byte, (∀ a, ¬ cpu.vm.pool (pageNumber a) → mem a = cpu.vm.mem a) →
    ∀ vaddr cid, xlate { cpu with vm := { cpu.vm with mem := mem } } vaddr cid = xlate cpu vaddr cid

/-- The addresses of a page are translated into one page of one device. -/
def PageWhole (cpu : Cpu W) (vaddr : BitVec 32) (cid : Cid) : Prop :=
  ∀ map, xlate cpu vaddr cid = some map → ∀ vaddr', pageOf vaddr' = pageOf vaddr →
    LiesIn cpu cid vaddr' map.paddr

variable {env : Env W} {cpu cpu' : Cpu W} {fcpu fcpu' : FetchCpu W} {vaddr : BitVec 32} {cid : Cid}
variable {vm₀ vm vm' : Vm W} {written : Slot → Prop} {ram : Ram}

theorem xlate_vm (ht : TableFixed cpu) (ok : RamOk vm₀ cpu.vm) (ok' : RamOk vm₀ vm)
    (vaddr : BitVec 32) (cid : Cid) : xlate { cpu with vm := vm } vaddr cid = xlate cpu vaddr cid := by
  have hmem : ∀ a, ¬ cpu.vm.pool (pageNumber a) → vm.mem a = cpu.vm.mem a := by
    intro a ha
    have hpool : ¬ vm₀.pool (pageNumber a) := by
      rw [Vm.pool, ← ok.hostPage]
      exact ha
    rw [ok.mem_eq hpool, ok'.mem_eq hpool]
  exact (xlate_congr rfl vaddr cid).trans (ht vm.mem hmem vaddr cid)

theorem xlateState_vm (h : cpu'.xlateState = cpu.xlateState) (vm : Vm W) :
    Cpu.xlateState { cpu' with vm := vm } = Cpu.xlateState { cpu with vm := vm } :=
  congrArg (fun s : XlateState => { s with mem := vm.mem }) h

theorem rawAccess_host (cpu : Cpu W) (vaddr : BitVec 32) (cid : Cid) (opType : MtsOp)
    (entry : MtsEntry) (data : BitVec 64) : ∃ cpu', rawAccess cpu vaddr cid opType entry data =
      .host (entry.hpa + (vaddr &&& PPC32_MIN_PAGE_IMASK).setWidth 64) data cpu' ∧
        cpu'.vm = cpu.vm ∧ cpu'.xlateState = cpu.xlateState := by
  simp only [rawAccess]
  split
  · exact ⟨_, rfl, rfl, rfl⟩
  · exact ⟨_, rfl, rfl, rfl⟩

theorem and_pageImask (vaddr : BitVec 32) : (vaddr &&& PPC32_MIN_PAGE_IMASK).setWidth 64 =
    (vaddr.setWidth 12).setWidth 64 := by
  have hmask : PPC32_MIN_PAGE_IMASK = BitVec.ofNat 32 (2 ^ 12 - 1) := rfl
  apply BitVec.eq_of_toNat_eq
  rw [hmask, BitVec.toNat_setWidth, BitVec.toNat_and, BitVec.toNat_ofNat, BitVec.toNat_setWidth,
    BitVec.toNat_setWidth]
  have hand := Nat.and_two_pow_sub_one_eq_mod vaddr.toNat 12
  have hlt := vaddr.isLt
  rw [Nat.mod_eq_of_lt (by decide : 2 ^ 12 - 1 < 2 ^ 32), hand]

theorem fill_ram (h : Coherent cpu) (ht : TableFixed cpu) (ok : RamOk vm₀ cpu.vm)
    (hwhole : PageWhole cpu vaddr cid) {map : MtsMap} {flags : BitVec 32} {ptr : HostAddr}
    {cow : Bool} {bucket : Option (Cid × BitVec 14)}
    (hbucket : bucket = some (cid, mtsHash vaddr)) (hmap : xlate cpu vaddr cid = some map)
    (hstep : RamStep vm₀ cpu.vm vm written ram)
    (hhost : vm.hostOf map.paddr false = some (ptr, cow))
    (hflags : flags &&& MTS_FLAG_COW ≠ 0 ↔ cow = true)
    (halone : ∀ slot, written slot → cpu.vm.pages.own slot = false → cpu.CachedAlone bucket slot) :
    Coherent ({ cpu with vm := vm }.setMts cid (mtsHash vaddr) (mtsEntry map ptr flags)) := by
  have hlist : vm.devList = cpu.vm.devList := hstep.ok.devList.trans ok.devList.symm
  have hx : ∀ v c, xlate { cpu with vm := vm } v c = xlate cpu v c :=
    fun v c => xlate_vm ht ok hstep.ok v c
  refine h.fill rfl (fun ha hb => xlate_vaddr hmap ha hb) ?_ ?_
  · exact ⟨map.paddr, cow, fun v hv => (hwhole map hmap v hv).congr (hx v cid) hlist, hhost, hflags⟩
  · intro cid' page hne hheld e he
    refine he.mono hheld.2 (fun v _ => hx v cid') hlist fun map' hmap' host hh => ?_
    rw [← hh]
    refine hostOf_kept hstep ok fun slot hs hw => ?_
    by_contra hshared
    refine halone slot hw (Bool.eq_false_iff.mpr hshared) cid' page ?_ hheld map' hmap' hs
    rw [hbucket]
    intro heq
    simp only [Option.some.injEq, Prod.mk.injEq] at heq
    exact hne ⟨heq.1.symm, heq.2.symm⟩

theorem ramSlot_xlate {slot : Slot} (h : cpu.ramSlot vaddr cid = some slot) : ∃ map dev,
    xlate cpu vaddr cid = some map ∧ devLookup cpu.vm map.paddr false = some dev ∧
      dev.has vdeviceFlagSparse ∧ dev.hostAddr ≠ 0 ∧ dev.slot map.paddr = slot := by
  simp only [Cpu.ramSlot, Option.bind_eq_some_iff] at h
  obtain ⟨map, hmap, hslot⟩ := h
  obtain ⟨dev, hdev, hsp, hz, hs⟩ := ramSlot_eq_some.mp hslot
  exact ⟨map, dev, hmap, hdev, hsp, hz, hs⟩

/-- What an access to the RAM gives and keeps, unless the assertion on a new page
aborts. -/
theorem access_step (boot : Boot vm₀) (ok : RamOk vm₀ cpu.vm) (h : Coherent cpu)
    (ht : TableFixed cpu) (hwhole : PageWhole cpu vaddr cid) {slot : Slot}
    (hslot : cpu.ramSlot vaddr cid = some slot) {opType : MtsOp}
    (halone : opType = .write → cpu.vm.pages.own slot = false →
      cpu.CachedAlone (some (cid, mtsHash vaddr)) slot)
    (lookup : Bool) (opSize : Nat) (data : BitVec 64) :
    memAccess env cpu vaddr cid lookup opSize opType data = .abort ∨
    ∃ cpu', memAccess env cpu vaddr cid lookup opSize opType data =
        .host (cpu'.vm.addr slot (vaddr.setWidth 12)) data cpu' ∧ Coherent cpu' ∧
      RamStep vm₀ cpu.vm cpu'.vm (fun slot' => opType = .write ∧ slot' = slot) cpu.vm.ram ∧
      (opType = .write → cpu'.vm.pages.own slot = true) ∧
      ∀ vm, RamOk vm₀ vm → ∀ v c, xlate { cpu' with vm := vm } v c = xlate cpu v c := by
  obtain ⟨map, dev, hmap, hdev, hsp, hz, rfl⟩ := ramSlot_xlate hslot
  have hoffset : devLookup cpu.vm (map.paddr + map.offset.setWidth 64) false = some dev := by
    obtain ⟨map', hmap', -, hlies⟩ := hwhole map hmap vaddr rfl
    rw [hmap] at hmap'
    cases hmap'
    rw [hlies, hdev]
  have haddr : ∀ page : BitVec 52,
      hostCell page 0 + (vaddr &&& PPC32_MIN_PAGE_IMASK).setWidth 64 =
        hostCell page (vaddr.setWidth 12) := by
    intro page
    rw [and_pageImask, hostCell_add]
  cases hhit : fastHit cpu vaddr cid opType with
  | some entry =>
    right
    obtain ⟨he, -, -⟩ := fastHit_eq_some.mp hhit
    obtain ⟨map', cow, hmap', -, hhost, hwrite⟩ := hit_host h hhit
    rw [hmap] at hmap'
    cases hmap'
    obtain ⟨hstep, hptr, hown⟩ := devSparseGetHostAddr_step boot ok hz
      (devSparseGetHostAddr_of_hostOf hdev hsp hhost hwrite)
    obtain ⟨cpu', hraw, hvm, hx⟩ := rawAccess_host cpu vaddr cid opType entry data
    refine ⟨cpu', ?_, rawAccess_coherent h he hraw, ?_, ?_, fun vm hvm' v c => ?_⟩
    · simp only [memAccess, hhit, hraw, hptr, haddr, hvm]
      rfl
    · rw [hvm]
      exact hstep
    · rw [hvm]
      exact hown
    · rw [xlate_congr (xlateState_vm hx vm), xlate_vm ht ok hvm']
  | none =>
    simp only [memAccess, hhit, slowLookup, hmap, memMap, hoffset, hsp, if_true]
    cases hsparse : devSparseGetHostAddr cpu.vm dev map.paddr opType with
    | none => exact Or.inl rfl
    | some found =>
      right
      obtain ⟨ptr, cow, vm⟩ := found
      obtain ⟨hstep, hptr, hown⟩ := devSparseGetHostAddr_step boot ok hz hsparse
      obtain ⟨-, hhost, -⟩ := devSparseGetHostAddr_hostOf hdev hsp hsparse
      obtain ⟨flags, hflags⟩ : ∃ flags, flags =
          (if cow = true then MTS_FLAG_COW else 0) ||| execFlag cpu map := ⟨_, rfl⟩
      have hcow : flags &&& MTS_FLAG_COW ≠ 0 ↔ cow = true := by
        rw [hflags]
        exact flags_cow cow _
      have hnodev : flags &&& MTS_FLAG_DEV = 0 := by
        rw [hflags]
        exact flags_not_dev cow _
      have hco := fill_ram h ht ok hwhole rfl hmap hstep hhost hcow fun slot hw hshared => by
        obtain ⟨hw, rfl⟩ := hw
        exact halone hw hshared
      obtain ⟨cpu', hraw, hvm, hx'⟩ := rawAccess_host
        ({ cpu with vm := vm }.setMts cid (mtsHash vaddr) (mtsEntry map ptr flags)) vaddr cid opType
          (mtsEntry map ptr flags) data
      refine ⟨cpu', ?_, rawAccess_coherent hco ?_ hraw, ?_, ?_, fun vm hvm' v c => ?_⟩
      · simp only [← hflags, mtsEntry, hnodev, ne_eq, not_true_eq_false, if_false]
        simp only [mtsEntry] at hraw
        rw [hraw, hptr, haddr, hvm]
        rfl
      · simp only [Cpu.setMts, Function.update_self]
      · rw [hvm]
        exact hstep
      · rw [hvm]
        exact hown
      · rw [← xlate_vm ht ok hvm' v c]
        exact xlate_congr (xlateState_vm hx' vm) v c

theorem PointersOk.exec_kept (h : PointersOk fcpu)
    (hx : ∀ v c, xlate fcpu'.toCpu v c = xlate fcpu.toCpu v c)
    (hpage : fcpu'.njmExecPage = fcpu.njmExecPage) (hptr : fcpu'.njmExecPtr = fcpu.njmExecPtr)
    (ok : RamOk vm₀ fcpu.vm) (hstep : RamStep vm₀ fcpu.vm fcpu'.vm written ram)
    (bucket : Option (Cid × BitVec 14))
    (halone : ∀ slot, written slot → fcpu.vm.pages.own slot = false → fcpu.Alone bucket slot) :
    ∀ ptr, fcpu'.njmExecPtr = some ptr → ∃ map cow,
      xlate fcpu'.toCpu (fcpu'.njmExecPage.setWidth 32) .icache = some map ∧
        fcpu'.vm.hostOf map.paddr false = some (ptr, cow) := by
  intro ptr hp
  rw [hptr] at hp
  obtain ⟨map, cow, hmap, hhost⟩ := h.exec ptr hp
  refine ⟨map, cow, ?_, ?_⟩
  · rw [hx, hpage, hmap]
  · rw [← hhost]
    refine hostOf_kept hstep ok fun slot hs hw => ?_
    by_contra hshared
    refine (halone slot hw (Bool.eq_false_iff.mpr hshared)).exec ?_ map hmap hs
    rw [hp]
    simp

theorem PointersOk.kept (h : PointersOk fcpu) (ht : TableFixed fcpu.toCpu)
    (ok : RamOk vm₀ fcpu.vm) (hstep : RamStep vm₀ fcpu.vm vm written ram)
    (halone : ∀ slot, written slot → fcpu.vm.pages.own slot = false → fcpu.Alone none slot) :
    PointersOk { fcpu with vm := vm } := by
  have hx : ∀ v c, xlate { fcpu.toCpu with vm := vm } v c = xlate fcpu.toCpu v c :=
    fun v c => xlate_vm ht ok hstep.ok v c
  have hlist : vm.devList = fcpu.vm.devList := hstep.ok.devList.trans ok.devList.symm
  refine ⟨h.cache.of_kept (fun _ _ => MtsEntry.Same.refl _) (fun _ _ _ v _ => hx v _) ?_, ?_⟩
  · intro cid page hheld v hv map hmap
    refine ⟨devLookup_congr hlist, devLookup_congr hlist, fun host hh => ?_⟩
    obtain ⟨paddr, cow, hlies, -⟩ := h.cache cid page hheld
    obtain ⟨map', hmap', hp, -⟩ := hlies v hv
    obtain ⟨map'', hmap'', hp', -⟩ := hlies page hheld.2
    rw [hmap] at hmap'
    cases hmap'
    rw [← hh]
    refine hostOf_kept hstep ok fun slot hs hw => ?_
    by_contra hshared
    refine (halone slot hw (Bool.eq_false_iff.mpr hshared)).cached cid page (by simp) hheld map''
      hmap'' ?_
    rw [hp', ← hp]
    exact hs
  · exact h.exec_kept hx rfl rfl ok hstep none halone

theorem memRead_step (boot : Boot vm₀) (ok : RamOk vm₀ fcpu.vm) (h : PointersOk fcpu)
    (ht : TableFixed fcpu.toCpu) (hwhole : PageWhole fcpu.toCpu vaddr .dcache) {slot : Slot}
    (hslot : fcpu.ramSlot vaddr .dcache = some slot) {size : Nat} {v : BitVec 64}
    (hsize : (vaddr.setWidth 12).toNat + size ≤ 4096)
    (hread : memRead env fcpu vaddr size = some (v, fcpu')) :
    PointersOk fcpu' ∧ RamStep vm₀ fcpu.vm fcpu'.vm written fcpu.vm.ram ∧
      v = loadValue (fcpu.vm.ram.read (pageCells slot (vaddr.setWidth 12) size)) := by
  simp only [memRead] at hread
  obtain habort | ⟨cpu', hacc, hco, hstep, -, hx⟩ :=
    @access_step W env _ vaddr .dcache vm₀ boot ok h.cache ht hwhole slot hslot .read
      (fun hw => by cases hw) false size 0
  · rw [habort] at hread
    cases hread
  · rw [hacc] at hread
    cases hread
    have hsame := hx cpu'.vm hstep.ok
    refine ⟨⟨hco, h.exec_kept hsame rfl rfl ok hstep none fun _ hw => (by cases hw.1)⟩,
      hstep.mono fun _ hw => (by cases hw.1), ?_⟩
    rw [vmLoad_eq, hostRead_page _ _ hsize, hstep.ram]

theorem memWrite_step (boot : Boot vm₀) (ok : RamOk vm₀ fcpu.vm) (h : PointersOk fcpu)
    (ht : TableFixed fcpu.toCpu) (hwhole : PageWhole fcpu.toCpu vaddr .dcache) {slot : Slot}
    (hslot : fcpu.ramSlot vaddr .dcache = some slot) {size : Nat} {data : BitVec 64}
    (hsize : (vaddr.setWidth 12).toNat + size ≤ 4096)
    (halone : fcpu.vm.pages.own slot = false → fcpu.Alone (some (.dcache, mtsHash vaddr)) slot)
    (hwrite : memWrite env fcpu vaddr size data = some fcpu') :
    PointersOk fcpu' ∧ RamStep vm₀ fcpu.vm fcpu'.vm (· = slot)
      (fcpu.vm.ram.write (pageCells slot (vaddr.setWidth 12) size) (storeBytes data size)) := by
  simp only [memWrite] at hwrite
  obtain habort | ⟨cpu', hacc, hco, hstep, hown, hx⟩ :=
    @access_step W env _ vaddr .dcache vm₀ boot ok h.cache ht hwhole slot hslot .write
      (fun _ hshared => (halone hshared).cached) false size data
  · rw [habort] at hwrite
    cases hwrite
  · rw [hacc] at hwrite
    cases hwrite
    have hlen : (vaddr.setWidth 12).toNat + (storeBytes data size).length ≤ 4096 := by
      rwa [length_storeBytes]
    have hmem := (hstep.mono fun _ hw => hw.2).write boot (hown rfl) hlen
    rw [length_storeBytes] at hmem
    have hstore : vmStore cpu'.vm.mem (cpu'.vm.addr slot (vaddr.setWidth 12)) size data =
        hostWrite cpu'.vm.mem (cpu'.vm.addr slot (vaddr.setWidth 12)) (storeBytes data size) :=
      vmStore_eq _ _ (by omega) _
    simp only [storeAt, hstore]
    have hafter := hx _ hmem.ok
    have hbefore := hx cpu'.vm hstep.ok
    refine ⟨⟨?_, ?_⟩, hmem⟩
    · rw [← hstore]
      refine storeAt_coherent hco fun cid page _ v _ => ?_
      rw [storeAt, hstore]
      exact (hafter v cid).trans (hbefore v cid).symm
    · refine h.exec_kept hafter rfl rfl ok hmem (some (.dcache, mtsHash vaddr)) ?_
      rintro _ rfl hshared
      exact halone hshared

def fetchOffset (ia : BitVec 32) : BitVec 12 := (ia.setWidth 12 >>> 2) <<< 2

theorem toNat_fetchOffset (ia : BitVec 32) :
    (fetchOffset ia).toNat = (ia.setWidth 12).toNat / 4 * 4 := by
  have hlt := (ia.setWidth 12).isLt
  rw [fetchOffset, BitVec.toNat_shiftLeft, BitVec.toNat_ushiftRight, Nat.shiftLeft_eq,
    Nat.shiftRight_eq_div_pow]
  omega

theorem fetchOffset_eq (ia : BitVec 32) :
    ((ia &&& PPC32_MIN_PAGE_IMASK) >>> 2).setWidth 64 * 4 = (fetchOffset ia).setWidth 64 := by
  have himask := congrArg BitVec.toNat (and_pageImask ia)
  have hlt := (ia.setWidth 12).isLt
  have hand := (ia &&& PPC32_MIN_PAGE_IMASK).isLt
  have hfour : (4 : BitVec 64).toNat = 4 := rfl
  rw [BitVec.toNat_setWidth, BitVec.toNat_setWidth] at himask
  apply BitVec.eq_of_toNat_eq
  rw [BitVec.toNat_mul, BitVec.toNat_setWidth, BitVec.toNat_ushiftRight, BitVec.toNat_setWidth,
    toNat_fetchOffset, Nat.shiftRight_eq_div_pow, hfour]
  omega

theorem execPage_offset (ia : BitVec 32) : (execPage ia).setWidth 12 = 0#12 := by
  have hmask : (~~~PPC32_MIN_PAGE_IMASK).setWidth 12 = 0#12 := by decide
  rw [execPage, BitVec.setWidth_and, hmask, BitVec.and_zero]

theorem execFetch_step (boot : Boot vm₀) (ok : RamOk vm₀ fcpu.vm) (h : PointersOk fcpu)
    (ht : TableFixed fcpu.toCpu) {ia : BitVec 32}
    (hwhole : PageWhole fcpu.toCpu (execPage ia) .icache) {slot : Slot}
    (hslot : fcpu.ramSlot (execPage ia) .icache = some slot) {insn : Insn}
    (hfetch : execFetch env fcpu ia = some (insn, fcpu')) :
    PointersOk fcpu' ∧ RamStep vm₀ fcpu.vm fcpu'.vm written fcpu.vm.ram ∧
      insn = (loadValue (fcpu.vm.ram.read (pageCells slot (fetchOffset ia) 4))).setWidth 32 := by
  have hsize : (fetchOffset ia).toNat + 4 ≤ 4096 := by
    have hlt := (ia.setWidth 12).isLt
    rw [toNat_fetchOffset]
    omega
  have hwidth : ((execPage ia).setWidth 64).setWidth 32 = execPage ia := by
    rw [BitVec.setWidth_setWidth_of_le _ (by omega)]
    simp
  obtain ⟨map, hmap, hslot'⟩ := Option.bind_eq_some_iff.mp hslot
  simp only [execFetch, Option.bind_eq_some_iff, Option.map_eq_some_iff, Prod.mk.injEq] at hfetch
  obtain ⟨mid, hpage, ptr, hexec, rfl, rfl⟩ := hfetch
  have hmid : PointersOk mid ∧ RamStep vm₀ fcpu.vm mid.vm written fcpu.vm.ram ∧
      ptr = mid.vm.addr slot 0 := by
    split at hpage
    · simp only [memLookup] at hpage
      obtain habort | ⟨cpu', hacc, hco, hstep, -, hx⟩ :=
        @access_step W env _ (execPage ia) .icache vm₀ boot ok h.cache ht hwhole slot hslot .read
          (fun hw => by cases hw) true 4 0
      · rw [habort] at hpage
        simp at hpage
      · rw [hacc, execPage_offset] at hpage
        simp only [Option.map_some, Option.some.injEq] at hpage
        subst hpage
        cases hexec
        refine ⟨⟨hco, ?_⟩, hstep.mono fun _ hw => (by cases hw.1), rfl⟩
        rintro ptr ⟨⟩
        rw [← ramSlot_congr (hstep.ok.devList.trans ok.devList.symm)] at hslot'
        refine ⟨map, _, ?_, hostOf_ram hslot'⟩
        simp only [hwidth]
        exact (hx cpu'.vm hstep.ok _ _).trans hmap
    · rename_i hsame
      cases hpage
      refine ⟨h, ok.step, ?_⟩
      obtain ⟨map', cow, hmap', hhost⟩ := h.exec ptr hexec
      rw [← not_not.mp hsame, hwidth, hmap] at hmap'
      cases hmap'
      rw [hostOf_ram hslot'] at hhost
      cases hhost
      rfl
  obtain ⟨hok, hstep, rfl⟩ := hmid
  refine ⟨hok, hstep, ?_⟩
  rw [fetchOffset_eq, Vm.addr, hostCell_add, vmLoad_eq]
  have hread := hostRead_page mid.vm slot hsize
  rw [Vm.addr] at hread
  rw [hread, hstep.ram]

end Dynamips.Ppc32
