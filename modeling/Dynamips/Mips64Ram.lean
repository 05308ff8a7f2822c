import Dynamips.Mips64Exec
import Dynamips.Mips64Mts
import Dynamips.PhysMem

/-! The accesses of a MIPS CPU to the RAM of a sparse device, and the pointers to
host pages that it keeps: those of the virtual TLB and that of the page it
executes from. -/
set_option autoImplicit false

namespace Dynamips.Mips64

variable {W : Type} {env : Env W} {cpu cpu' : Cpu W} {vaddr : BitVec 64}
variable {vm₀ vm' : Vm W} {written : Slot → Prop} {ram : Ram}

def Cpu.ramSlot (cpu : Cpu W) (vaddr : BitVec 64) : Option Slot :=
  (pageXlate cpu vaddr).bind fun x => cpu.vm.ramSlot x.1 x.2

/-- Except for a bucket, no pointer that the CPU keeps is that of a slot. -/
structure Cpu.Alone (cpu : Cpu W) (bucket : Option (BitVec 14)) (slot : Slot) : Prop where
  cached : ∀ b page, bucket ≠ some b → cpu.Holds b page → ∀ p c,
    pageXlate cpu page = some (p, c) → cpu.vm.slotOf p c ≠ some slot
  exec : cpu.njmExecPtr ≠ none → ∀ p c, pageXlate cpu cpu.njmExecPage = some (p, c) →
    cpu.vm.slotOf p c ≠ some slot

structure PointersOk (cpu : Cpu W) : Prop where
  cache : Coherent cpu
  exec : ∀ ptr, cpu.njmExecPtr = some ptr → ∃ paddr cached cow,
    pageXlate cpu cpu.njmExecPage = some (paddr, cached) ∧
      cpu.vm.hostOf paddr cached = some (ptr, cow)

theorem PointersOk.exec_kept (h : PointersOk cpu) (hx : cpu'.xlateState = cpu.xlateState)
    (hpage : cpu'.njmExecPage = cpu.njmExecPage) (hptr : cpu'.njmExecPtr = cpu.njmExecPtr)
    (hk : cpu.njmExecPtr ≠ none → ∀ p c, pageXlate cpu cpu.njmExecPage = some (p, c) →
      cpu'.vm.hostOf p c = cpu.vm.hostOf p c) :
    ∀ ptr, cpu'.njmExecPtr = some ptr → ∃ paddr cached cow,
      pageXlate cpu' cpu'.njmExecPage = some (paddr, cached) ∧
        cpu'.vm.hostOf paddr cached = some (ptr, cow) := by
  intro ptr hp
  rw [hptr] at hp
  obtain ⟨paddr, cached, cow, hxlate, hhost⟩ := h.exec ptr hp
  refine ⟨paddr, cached, cow, ?_, ?_⟩
  · rw [hpage, pageXlate_congr hx, hxlate]
  · rw [hk (by rw [hp]; simp) _ _ hxlate, hhost]

theorem PointersOk.kept (h : PointersOk cpu) (ok : RamOk vm₀ cpu.vm)
    (hstep : RamStep vm₀ cpu.vm vm' written ram)
    (halone : ∀ slot, written slot → cpu.vm.pages.own slot = false → cpu.Alone none slot) :
    PointersOk { cpu with vm := vm' } := by
  have hslot : ∀ slot, written slot → ¬ cpu.vm.pages.own slot = true → cpu.Alone none slot :=
    fun slot hw hown => halone slot hw (Bool.eq_false_iff.mpr hown)
  refine ⟨h.cache.of_kept rfl rfl fun b page hheld p c host hx hh => ?_, ?_⟩
  · rw [← hh]
    refine hostOf_kept hstep ok fun slot hs hw => ?_
    by_contra hown
    exact (hslot slot hw hown).cached b page (by simp) hheld p c hx hs
  · refine h.exec_kept rfl rfl rfl fun hptr p c hx => hostOf_kept hstep ok fun slot hs hw => ?_
    by_contra hown
    exact (hslot slot hw hown).exec hptr p c hx hs

theorem slowLookup_ram {map : MtsMap} {dev : VDevice} {opCode : MemOp} {opType : MtsOp}
    {data : BitVec 64} (hmap : mtsXlate cpu vaddr = .ok map)
    (hdev : devLookup cpu.vm map.paddr map.cached = some dev) (hsp : dev.has vdeviceFlagSparse) :
    slowLookup env cpu vaddr opCode opType data =
      match devSparseGetHostAddr cpu.vm dev map.paddr opType with
      | none => .fault
      | some (ptr, cow, vm) =>
        let entry := mtsEntry cpu.addrMode map ptr (cowFlags cow)
        .done (some entry, data) ({ cpu with vm := vm }.setMts (mtsHash vaddr) entry) := by
  simp only [slowLookup, hmap, mtsMap, hdev, hsp, if_true]
  cases devSparseGetHostAddr cpu.vm dev map.paddr opType with
  | none => rfl
  | some res => rfl

theorem ramSlot_xlate {slot : Slot} (h : cpu.ramSlot vaddr = some slot) : ∃ map dev,
    mtsXlate cpu vaddr = .ok map ∧ devLookup cpu.vm map.paddr map.cached = some dev ∧
      dev.has vdeviceFlagSparse ∧ dev.hostAddr ≠ 0 ∧ dev.slot map.paddr = slot := by
  simp only [Cpu.ramSlot, Option.bind_eq_some_iff] at h
  obtain ⟨⟨paddr, cached⟩, hx, hslot⟩ := h
  obtain ⟨map, hmap, rfl, rfl⟩ := pageXlate_eq_some.mp hx
  obtain ⟨dev, hdev, hsp, hz, hs⟩ := ramSlot_eq_some.mp hslot
  exact ⟨map, dev, hmap, hdev, hsp, hz, hs⟩

theorem deviceReply_ram {a : Access W} {slot : Slot} (h : a.cpu.ramSlot a.vaddr = some slot) :
    deviceReply env a = none := by
  obtain ⟨map, dev, hmap, hdev, hsp, -, -⟩ := ramSlot_xlate h
  simp only [deviceReply, slowLookup_ram hmap hdev hsp]
  cases devSparseGetHostAddr a.cpu.vm dev map.paddr a.opType with
  | none => cases fastHit a.cpu a.vaddr a.opType <;> rfl
  | some res =>
    obtain ⟨ptr, cow, vm⟩ := res
    cases fastHit a.cpu a.vaddr a.opType with
    | some entry => rfl
    | none => simp [mtsEntry, cowFlags_dev]

theorem mtsAccess_ram (h : Coherent cpu) (hc : Canonical cpu.addrMode vaddr) {slot : Slot}
    (hslot : cpu.ramSlot vaddr = some slot) {opCode : MemOp} {opSize : Nat} {opType : MtsOp}
    {data : BitVec 64} {res : Option HostAddr × BitVec 64}
    (hacc : mtsAccess env cpu vaddr opCode opSize opType data = .done res cpu') :
    ∃ dev paddr ptr cow, dev.hostAddr ≠ 0 ∧ dev.slot paddr = slot ∧
      devSparseGetHostAddr cpu.vm dev paddr opType = some (ptr, cow, cpu'.vm) ∧
      res = (some (ptr + (vaddr &&& mipsMinPageImask)), data) := by
  obtain ⟨map, dev, hmap, hdev, hsp, hz, hs⟩ := ramSlot_xlate hslot
  simp only [mtsAccess] at hacc
  cases hhit : fastHit cpu vaddr opType with
  | some entry =>
    rw [hhit] at hacc
    cases hacc
    obtain ⟨map', cow, hmap', hhost, -, hwrite⟩ := hit_host h hc hhit
    rw [hmap] at hmap'
    cases hmap'
    exact ⟨dev, map.paddr, entry.hpa, cow, hz, hs,
      devSparseGetHostAddr_of_hostOf hdev hsp hhost hwrite, rfl⟩
  | none =>
    simp only [hhit, slowLookup_ram hmap hdev hsp] at hacc
    cases hsparse : devSparseGetHostAddr cpu.vm dev map.paddr opType with
    | none =>
      rw [hsparse] at hacc
      cases hacc
    | some found =>
      obtain ⟨ptr, cow, vm⟩ := found
      simp only [hsparse, Outcome.bind, accessEntry, mtsEntry, cowFlags_dev] at hacc
      cases hacc
      exact ⟨dev, map.paddr, ptr, cow, hz, hs, hsparse, rfl⟩

theorem and_pageImask (vaddr : BitVec 64) :
    vaddr &&& mipsMinPageImask = (pageOffset vaddr).setWidth 64 := by
  have hmask : mipsMinPageImask = BitVec.ofNat 64 (2 ^ 12 - 1) := rfl
  apply BitVec.eq_of_toNat_eq
  rw [hmask, BitVec.toNat_and, BitVec.toNat_ofNat, pageOffset, BitVec.toNat_setWidth,
    BitVec.toNat_setWidth]
  have hand := Nat.and_two_pow_sub_one_eq_mod vaddr.toNat 12
  have hlt := vaddr.isLt
  rw [Nat.mod_eq_of_lt (by decide : 2 ^ 12 - 1 < 2 ^ 64), hand]
  omega

theorem access_step (boot : Boot vm₀) (ok : RamOk vm₀ cpu.vm) (h : Coherent cpu)
    (hc : Canonical cpu.addrMode vaddr) {slot : Slot} (hslot : cpu.ramSlot vaddr = some slot)
    {opCode : MemOp} {opSize : Nat} {opType : MtsOp} {data : BitVec 64}
    {res : Option HostAddr × BitVec 64}
    (halone : opType = .write → cpu.vm.pages.own slot = false →
      cpu.Alone (some (mtsHash vaddr)) slot)
    (hacc : mtsAccess env cpu vaddr opCode opSize opType data = .done res cpu') :
    Coherent cpu' ∧
      RamStep vm₀ cpu.vm cpu'.vm (fun slot' => opType = .write ∧ slot' = slot) cpu.vm.ram ∧
      res = (some (cpu'.vm.addr slot (pageOffset vaddr)), data) ∧
      (opType = .write → cpu'.vm.pages.own slot = true) := by
  obtain ⟨dev, paddr, ptr, cow, hz, rfl, hsparse, rfl⟩ := mtsAccess_ram h hc hslot hacc
  obtain ⟨hstep, hptr, hown⟩ := devSparseGetHostAddr_step boot ok hz hsparse
  have halone' : UnsharesAlone cpu vaddr opType := by
    intro p c hp hunshares b page hb hheld p' c' hp'
    obtain ⟨hw, host, hhost⟩ := hunshares
    have hpslot : cpu.vm.ramSlot p c = some (dev.slot paddr) := by
      simp only [Cpu.ramSlot, hp, Option.bind_some] at hslot
      exact hslot
    have hshared : cpu.vm.pages.own (dev.slot paddr) = false := by
      rw [hostOf_ram hpslot] at hhost
      simpa using congrArg (Option.map Prod.snd) hhost
    rw [slotOf_of_ramSlot hpslot]
    exact (halone hw hshared).cached b page (fun he => hb (Option.some.inj he).symm) hheld p' c' hp'
  have hok : AccessOk env ⟨cpu, vaddr, opCode, opSize, opType, data⟩ :=
    { canonical := hc
      alone := halone'
      device := fun reply hr => by
        rw [deviceReply_ram hslot] at hr
        cases hr }
  have hpost := access_coherent h hok
  simp only [Access.run, hacc, Outcome.Post] at hpost
  refine ⟨hpost, hstep, ?_, hown⟩
  rw [hptr, and_pageImask, hostCell_add]
  rfl

theorem PointersOk.access (h : PointersOk cpu) (ok : RamOk vm₀ cpu.vm) {opCode : MemOp}
    {opSize : Nat} {opType : MtsOp} {data : BitVec 64} {res : Option HostAddr × BitVec 64}
    (bucket : Option (BitVec 14))
    (hacc : mtsAccess env cpu vaddr opCode opSize opType data = .done res cpu')
    (hco : Coherent cpu') (hstep : RamStep vm₀ cpu.vm cpu'.vm written ram)
    (halone : ∀ slot, written slot → cpu.vm.pages.own slot = false → cpu.Alone bucket slot) :
    PointersOk cpu' := by
  have hdone := mtsAccess_done hacc
  refine ⟨hco, h.exec_kept (by rw [hdone]; rfl) (by rw [hdone]) (by rw [hdone]) fun hptr p c hp => ?_⟩
  refine hostOf_kept hstep ok fun slot hs hw => ?_
  by_contra hshared
  exact (halone slot hw (Bool.eq_false_iff.mpr hshared)).exec hptr p c hp hs

theorem PointersOk.store (h : PointersOk cpu) (mem : HostAddr → Byte) :
    PointersOk { cpu with vm := { cpu.vm with mem := mem } } :=
  ⟨h.cache.congr rfl, h.exec_kept rfl rfl rfl fun _ _ _ _ => hostOf_congr rfl fun _ _ => rfl⟩

theorem mtsRead_step (boot : Boot vm₀) (ok : RamOk vm₀ cpu.vm) (h : PointersOk cpu)
    (hc : Canonical cpu.addrMode vaddr) {slot : Slot} (hslot : cpu.ramSlot vaddr = some slot)
    {op : MemOp} {size : Nat} {v : BitVec 64} (hsize : (pageOffset vaddr).toNat + size ≤ 4096)
    (hread : mtsRead env cpu vaddr op size = .done v cpu') :
    PointersOk cpu' ∧ RamStep vm₀ cpu.vm cpu'.vm written cpu.vm.ram ∧
      v = loadValue (cpu.vm.ram.read (pageCells slot (pageOffset vaddr) size)) := by
  obtain ⟨res, mid, hacc, hres⟩ := Outcome.bind_eq_done hread
  obtain ⟨hco, hstep, rfl, -⟩ :=
    access_step boot ok h.cache hc hslot (fun hw => by cases hw) hacc
  cases hres
  refine ⟨h.access ok none hacc hco hstep fun _ hw => (by cases hw.1),
    hstep.mono fun _ hw => (by cases hw.1), ?_⟩
  rw [vmLoad_eq, hostRead_page _ _ hsize, hstep.ram]

theorem mtsWrite_step (boot : Boot vm₀) (ok : RamOk vm₀ cpu.vm) (h : PointersOk cpu)
    (hc : Canonical cpu.addrMode vaddr) {slot : Slot} (hslot : cpu.ramSlot vaddr = some slot)
    {op : MemOp} {size : Nat} {data : BitVec 64}
    (hsize : (pageOffset vaddr).toNat + size ≤ 4096)
    (halone : cpu.vm.pages.own slot = false → cpu.Alone (some (mtsHash vaddr)) slot)
    (hwrite : mtsWrite env cpu vaddr op size data = .done () cpu') :
    PointersOk cpu' ∧ RamStep vm₀ cpu.vm cpu'.vm (· = slot)
      (cpu.vm.ram.write (pageCells slot (pageOffset vaddr) size) (storeBytes data size)) := by
  obtain ⟨res, mid, hacc, hres⟩ := Outcome.bind_eq_done hwrite
  obtain ⟨hco, hstep, rfl, hown⟩ := access_step boot ok h.cache hc hslot (fun _ => halone) hacc
  have hok : PointersOk mid := h.access ok _ hacc hco hstep fun slot' hw hshared => by
    obtain ⟨-, rfl⟩ := hw
    exact halone hshared
  cases hres
  have hlen : (pageOffset vaddr).toNat + (storeBytes data size).length ≤ 4096 := by
    rwa [length_storeBytes]
  have hmem := (hstep.mono fun _ hw => hw.2).write boot (hown rfl) hlen
  rw [length_storeBytes] at hmem
  have hstore : vmStore mid.vm.mem (mid.vm.addr slot (pageOffset vaddr)) size data =
      hostWrite mid.vm.mem (mid.vm.addr slot (pageOffset vaddr)) (storeBytes data size) :=
    vmStore_eq _ _ (by omega) _
  simp only [hstore]
  exact ⟨hok.store _, hmem⟩

/-- The page that holds an instruction, and the offset of the instruction in it. -/
def execPage (pc : BitVec 64) : BitVec 64 := pc &&& ~~~mipsMinPageImask

def fetchOffset (pc : BitVec 64) : BitVec 12 := (pageOffset pc >>> 2) <<< 2

theorem toNat_fetchOffset (pc : BitVec 64) :
    (fetchOffset pc).toNat = (pageOffset pc).toNat / 4 * 4 := by
  have hlt := (pageOffset pc).isLt
  rw [fetchOffset, BitVec.toNat_shiftLeft, BitVec.toNat_ushiftRight, Nat.shiftLeft_eq,
    Nat.shiftRight_eq_div_pow]
  omega

theorem fetchOffset_eq (pc : BitVec 64) :
    ((pc &&& mipsMinPageImask) >>> 2) * 4 = (fetchOffset pc).setWidth 64 := by
  have hlt := (pageOffset pc).isLt
  have hfour : (4 : BitVec 64).toNat = 4 := rfl
  apply BitVec.eq_of_toNat_eq
  rw [and_pageImask, BitVec.toNat_mul, BitVec.toNat_ushiftRight, BitVec.toNat_setWidth,
    BitVec.toNat_setWidth, toNat_fetchOffset, Nat.shiftRight_eq_div_pow, hfour]
  omega

theorem pageOffset_execPage (pc : BitVec 64) : pageOffset (execPage pc) = 0 := by
  have hmask : (~~~mipsMinPageImask).setWidth 12 = 0#12 := by decide
  rw [pageOffset, execPage, BitVec.setWidth_and, hmask, BitVec.and_zero]
  rfl

theorem execFetch_step (boot : Boot vm₀) (ok : RamOk vm₀ cpu.vm) (h : PointersOk cpu)
    {pc : BitVec 64} (hc : Canonical cpu.addrMode (execPage pc)) {slot : Slot}
    (hslot : cpu.ramSlot (execPage pc) = some slot) {insn : Insn}
    (hfetch : execFetch env cpu pc = .done insn cpu') :
    PointersOk cpu' ∧ RamStep vm₀ cpu.vm cpu'.vm written cpu.vm.ram ∧
      insn = (loadValue (cpu.vm.ram.read (pageCells slot (fetchOffset pc) 4))).setWidth 32 := by
  have hsize : (fetchOffset pc).toNat + 4 ≤ 4096 := by
    have hlt := (pageOffset pc).isLt
    rw [toNat_fetchOffset]
    omega
  obtain ⟨⟨⟩, mid, hpage, hres⟩ := Outcome.bind_eq_done hfetch
  have hmid : PointersOk mid ∧ RamStep vm₀ cpu.vm mid.vm written cpu.vm.ram ∧
      ∀ ptr, mid.njmExecPtr = some ptr → ptr = mid.vm.addr slot 0 := by
    split at hpage
    · obtain ⟨ptr, found, hlookup, hset⟩ := Outcome.bind_eq_done hpage
      obtain ⟨res, _, hacc, hdone⟩ := Outcome.bind_eq_done hlookup
      cases hdone
      cases hset
      have hmove : Coherent { cpu with njmExecPage := execPage pc } := h.cache.congr rfl
      obtain ⟨hco, hstep, rfl, -⟩ :=
        @access_step W env { cpu with njmExecPage := execPage pc } _ _ vm₀ boot ok hmove hc slot
          hslot _ _ _ _ _ (fun hw => by cases hw) hacc
      rw [pageOffset_execPage]
      refine ⟨⟨hco.congr rfl, ?_⟩, hstep.mono fun _ hw => (by cases hw.1), ?_⟩
      · rintro ptr ⟨⟩
        have hdone := mtsAccess_done hacc
        simp only [Cpu.ramSlot, Option.bind_eq_some_iff] at hslot
        obtain ⟨⟨paddr, cached⟩, hx, hs⟩ := hslot
        rw [← ramSlot_congr (hstep.ok.devList.trans ok.devList.symm)] at hs
        refine ⟨paddr, cached, _, ?_, hostOf_ram hs⟩
        rw [hdone]
        exact hx
      · rintro ptr ⟨⟩
        rfl
    · rename_i hsame
      cases hpage
      refine ⟨h, ok.step, fun ptr hptr => ?_⟩
      obtain ⟨paddr, cached, cow, hx, hhost⟩ := h.exec ptr hptr
      rw [← not_not.mp hsame] at hx
      have hx' : pageXlate cpu (execPage pc) = some (paddr, cached) := hx
      simp only [Cpu.ramSlot, hx', Option.bind_some] at hslot
      rw [hostOf_ram hslot] at hhost
      cases hhost
      rfl
  obtain ⟨hok, hstep, hptr⟩ := hmid
  cases hexec : mid.njmExecPtr with
  | none =>
    rw [hexec] at hres
    cases hres
  | some ptr =>
    rw [hexec] at hres
    cases hres
    refine ⟨hok, hstep, ?_⟩
    rw [hptr ptr hexec, fetchOffset_eq, Vm.addr, hostCell_add, vmLoad_eq]
    have hread := hostRead_page cpu'.vm slot hsize
    rw [Vm.addr] at hread
    rw [hread, hstep.ram]

end Dynamips.Mips64
