import Dynamips.Lib.TagCache
import Dynamips.Mips64Mmu

/-! The virtual TLB against the slow path behind it: what a hit gives while every
valid entry is right, and what one access keeps. -/
set_option autoImplicit false

namespace Dynamips.Mips64
open TagCache

variable {W : Type} {env : Env W} {cpu cpu' : Cpu W} {vaddr : BitVec 64}

/-- The tag is the address of a page; that of an invalidated entry is not. -/
def MtsEntry.valid (mode : AddrMode) (entry : MtsEntry) : Prop :=
  entry.gvpa &&& mode.pageMask = entry.gvpa

def Cpu.Holds (cpu : Cpu W) (b : BitVec 14) (page : BitVec 64) : Prop :=
  (cpu.mtsCache b).valid cpu.addrMode ∧ page = cpu.addrMode.addr (cpu.mtsCache b).gvpa

def cowFlags (cow : Bool) : BitVec 32 := if cow then mtsFlagCow else 0

/-- The entry has the host page and the flags that its page has now. -/
def MtsEntry.Right (cpu : Cpu W) (entry : MtsEntry) : Prop :=
  ∃ paddr cached cow, pageXlate cpu (cpu.addrMode.addr entry.gvpa) = some (paddr, cached) ∧
    cpu.vm.hostOf paddr cached = some (entry.hpa, cow) ∧ entry.flags = cowFlags cow

structure Coherent (cpu : Cpu W) : Prop where
  masks : MasksOk cpu
  agrees : Agrees (MtsEntry.valid cpu.addrMode) (MtsEntry.Right cpu) cpu.mtsCache

def KeepsHosts (cpu : Cpu W) (vm : Vm W) : Prop :=
  ∀ b page, cpu.Holds b page → ∀ paddr cached host, pageXlate cpu page = some (paddr, cached) →
    cpu.vm.hostOf paddr cached = some host → vm.hostOf paddr cached = some host

/-- What the virtual TLB is coherent with, and the virtual TLB itself. -/
structure MtsState where
  xlate : XlateState
  cache : BitVec 14 → MtsEntry
  devList : List VDevice
  sparseMap : Nat → BitVec 32 → HostAddr

def Cpu.mtsState (cpu : Cpu W) : MtsState :=
  { xlate := cpu.xlateState
    cache := cpu.mtsCache
    devList := cpu.vm.devList
    sparseMap := cpu.vm.sparseMap }

theorem MtsEntry.Right.mono {entry : MtsEntry} (h : entry.Right cpu)
    (hx : cpu'.xlateState = cpu.xlateState)
    (hk : ∀ paddr cached host, pageXlate cpu (cpu.addrMode.addr entry.gvpa) = some (paddr, cached) →
      cpu.vm.hostOf paddr cached = some host → cpu'.vm.hostOf paddr cached = some host) :
    entry.Right cpu' := by
  obtain ⟨paddr, cached, cow, hp, hhost, hflags⟩ := h
  refine ⟨paddr, cached, cow, ?_, hk _ _ _ hp hhost, hflags⟩
  rw [addrMode_congr hx, pageXlate_congr hx, hp]

theorem Coherent.of_kept (h : Coherent cpu) (hx : cpu'.xlateState = cpu.xlateState)
    (hc : cpu'.mtsCache = cpu.mtsCache) (hk : KeepsHosts cpu cpu'.vm) : Coherent cpu' := by
  refine ⟨(masksOk_congr hx).mpr h.masks, ?_⟩
  rw [addrMode_congr hx, hc]
  exact h.agrees.mono fun b hv hr => hr.mono hx fun _ _ _ => hk b _ ⟨hv, rfl⟩ _ _ _

theorem Coherent.congr (h : Coherent cpu) (hs : cpu'.mtsState = cpu.mtsState) : Coherent cpu' := by
  have hd : cpu'.vm.devList = cpu.vm.devList := congrArg MtsState.devList hs
  have hm : cpu'.vm.sparseMap = cpu.vm.sparseMap := congrArg MtsState.sparseMap hs
  refine h.of_kept (congrArg MtsState.xlate hs) (congrArg MtsState.cache hs) ?_
  intro b page _ paddr cached host _ hhost
  rw [hostOf_congr hd fun slot _ => by rw [hm], hhost]

theorem invalid_not_valid (mode : AddrMode) : ¬ (MtsEntry.invalid mode).valid mode := by
  cases mode with
  | mode32 =>
    have hne : (0xffffffff : BitVec 64) &&& 0xfffff000 ≠ 0xffffffff := by decide
    exact hne
  | mode64 =>
    have hne : (0xffffffffffffffff : BitVec 64) &&& mipsMinPageMask ≠ 0xffffffffffffffff := by
      decide
    exact hne

theorem coherent_invalidate (h : MasksOk cpu) : Coherent (invalidateCache cpu) :=
  ⟨h, agrees_of_empty fun _ => invalid_not_valid cpu.addrMode⟩

theorem tag_valid (mode : AddrMode) (vaddr : BitVec 64) :
    mode.tag vaddr &&& mode.pageMask = mode.tag vaddr := by
  rw [tag_eq_and, BitVec.and_assoc, BitVec.and_self]

theorem pageXlate_eq_some {paddr : BitVec 64} {cached : Bool} :
    pageXlate cpu vaddr = some (paddr, cached) ↔
      ∃ map, mtsXlate cpu vaddr = .ok map ∧ map.paddr = paddr ∧ map.cached = cached := by
  simp only [pageXlate]
  cases mtsXlate cpu vaddr <;> simp

structure Access (W : Type) where
  cpu : Cpu W
  vaddr : BitVec 64
  opCode : MemOp
  opSize : Nat
  opType : MtsOp
  data : BitVec 64

/-- If the fast path hits, the slow path gives the same host page and flags. -/
def HitAgrees (env : Env W) (a : Access W) : Prop :=
  ∀ entry, fastHit a.cpu a.vaddr a.opType = some entry →
    ∃ entry' cpu', slowLookup env a.cpu a.vaddr a.opCode a.opType a.data =
      .done (some entry', a.data) cpu' ∧ entry'.hpa = entry.hpa ∧ entry'.flags = entry.flags

theorem fastHit_eq_some {opType : MtsOp} {entry : MtsEntry} :
    fastHit cpu vaddr opType = some entry ↔
      cpu.mtsCache (mtsHash vaddr) = entry ∧ entry.gvpa = cpu.addrMode.tag vaddr ∧
        ¬ (opType = .write ∧ entry.flags &&& mtsFlagCow ≠ 0) := by
  simp only [fastHit]
  constructor
  · intro h
    split at h
    · cases h
    · rename_i hn
      cases h
      obtain ⟨htag, hcow⟩ := not_or.mp hn
      exact ⟨rfl, (not_not.mp htag).symm, hcow⟩
  · intro ⟨he, htag, hcow⟩
    subst he
    rw [if_neg (not_or.mpr ⟨not_not.mpr htag.symm, hcow⟩)]

theorem mtsMap_of_hostOf {opType : MtsOp} {map : MtsMap} {host : HostAddr} {cow : Bool}
    (bucket : BitVec 14) (hhost : cpu.vm.hostOf map.paddr map.cached = some (host, cow))
    (hcow : opType = .write → cow = false) :
    ∃ entry cpu', mtsMap env cpu opType map bucket = .done (some entry) cpu' ∧
      entry.hpa = host ∧ entry.flags = cowFlags cow := by
  cases hdev : devLookup cpu.vm map.paddr map.cached with
  | none =>
    simp only [Vm.hostOf, hdev] at hhost
    cases hhost
  | some dev =>
    by_cases hsp : dev.has vdeviceFlagSparse
    · have hsparse := devSparseGetHostAddr_of_hostOf hdev hsp hhost hcow
      simp only [mtsMap, hdev, hsp, hsparse, if_true]
      exact ⟨_, _, rfl, rfl, rfl⟩
    · simp only [Vm.hostOf, hdev, hsp, if_false, Bool.false_eq_true] at hhost
      split at hhost
      · cases hhost
      · rename_i hdirect
        cases hhost
        simp only [mtsMap, hdev, hsp, hdirect, if_false, Bool.false_eq_true]
        exact ⟨_, _, rfl, rfl, rfl⟩

theorem cowFlags_and (cow : Bool) : cowFlags cow &&& mtsFlagCow ≠ 0 ↔ cow = true := by
  cases cow <;> decide

theorem hit_host (h : Coherent cpu) (hc : Canonical cpu.addrMode vaddr) {opType : MtsOp}
    {entry : MtsEntry} (hhit : fastHit cpu vaddr opType = some entry) :
    ∃ map cow, mtsXlate cpu vaddr = .ok map ∧
      cpu.vm.hostOf map.paddr map.cached = some (entry.hpa, cow) ∧ entry.flags = cowFlags cow ∧
      (opType = .write → cow = false) := by
  obtain ⟨he, htag, hcow⟩ := fastHit_eq_some.mp hhit
  have hvalid : (cpu.mtsCache (mtsHash vaddr)).valid cpu.addrMode := by
    rw [he, MtsEntry.valid, htag]
    exact tag_valid _ _
  obtain ⟨paddr, cached, cow, hx, hhost, hflags⟩ := h.agrees _ hvalid
  rw [he] at hx hhost hflags
  rw [htag, ← AddrMode.page, pageXlate_page h.masks hc] at hx
  obtain ⟨map, hmap, rfl, rfl⟩ := pageXlate_eq_some.mp hx
  refine ⟨map, cow, hmap, hhost, hflags, fun hw => ?_⟩
  rw [← Bool.not_eq_true, ← cowFlags_and, ← hflags]
  exact fun hf => hcow ⟨hw, hf⟩

theorem hit_agrees (h : Coherent cpu) (hc : Canonical cpu.addrMode vaddr) (opCode : MemOp)
    (opSize : Nat) (opType : MtsOp) (data : BitVec 64) :
    HitAgrees env ⟨cpu, vaddr, opCode, opSize, opType, data⟩ := by
  intro entry hhit
  obtain ⟨map, cow, hmap, hhost, hflags, hwrite⟩ := hit_host h hc hhit
  obtain ⟨entry', cpu', hm, hhpa, hflags'⟩ :=
    @mtsMap_of_hostOf W env cpu opType map _ cow (mtsHash vaddr) hhost hwrite
  refine ⟨entry', cpu', ?_, hhpa, hflags'.trans hflags.symm⟩
  simp only [slowLookup, hmap, hm, Outcome.bind]

/-- An access that takes a shared page away from its slot leaves no other copy
of that slot behind. -/
def UnsharesAlone (cpu : Cpu W) (vaddr : BitVec 64) (opType : MtsOp) : Prop :=
  ∀ paddr cached, pageXlate cpu vaddr = some (paddr, cached) →
    cpu.vm.unshares paddr cached opType → ∀ b page, b ≠ mtsHash vaddr → cpu.Holds b page →
      ∀ p c, pageXlate cpu page = some (p, c) → cpu.vm.slotOf p c ≠ cpu.vm.slotOf paddr cached

theorem tlbXlate_vaddr {map : MtsMap} (h : tlbXlate cpu vaddr = .ok map) :
    map.vaddr = vaddr &&& mipsMinPageMask := by
  simp only [tlbXlate] at h
  split at h
  · rename_i res hres
    cases h
    simp only [cp0TlbLookup, Option.bind_eq_bind, Option.bind_eq_some_iff] at hres
    obtain ⟨i, -, hres⟩ := hres
    split at hres
    · cases hres
      rfl
    · cases hres
  · cases h

theorem mtsXlate_vaddr {map : MtsMap} (h : mtsXlate cpu vaddr = .ok map) :
    map.vaddr = vaddr &&& mipsMinPageMask := by
  simp only [mtsXlate] at h
  split at h
  · simp only [mts32Xlate] at h
    split_ifs at h
    · cases h
      rfl
    · cases h
      rfl
    · exact tlbXlate_vaddr h
  · simp only [mts64Xlate] at h
    split_ifs at h
    · exact tlbXlate_vaddr h
    · cases h
      rfl
    · cases h
      rfl
    · exact tlbXlate_vaddr h
    · cases h
      rfl

theorem trunc_page (mode : AddrMode) (vaddr : BitVec 64) :
    mode.trunc (vaddr &&& mipsMinPageMask) = mode.tag vaddr := by
  cases mode with
  | mode64 => rfl
  | mode32 =>
    simp only [AddrMode.tag, AddrMode.trunc, setWidth_eq_and, BitVec.and_assoc,
      BitVec.and_comm mipsMinPageMask]

theorem mtsEntry_right {map : MtsMap} {host : HostAddr} {cow : Bool} (hm : MasksOk cpu)
    (hc : Canonical cpu.addrMode vaddr) (hmap : mtsXlate cpu vaddr = .ok map)
    (hhost : cpu.vm.hostOf map.paddr map.cached = some (host, cow)) :
    (mtsEntry cpu.addrMode map host (cowFlags cow)).Right cpu := by
  refine ⟨map.paddr, map.cached, cow, ?_, hhost, rfl⟩
  have hpage : cpu.addrMode.addr (cpu.addrMode.trunc map.vaddr) = cpu.addrMode.page vaddr := by
    rw [mtsXlate_vaddr hmap, trunc_page, AddrMode.page]
  simp only [mtsEntry, hpage]
  rw [pageXlate_page hm hc, pageXlate_eq_some]
  exact ⟨map, hmap, rfl, rfl⟩

theorem Coherent.setMts {b : BitVec 14} {entry : MtsEntry} (h : Coherent cpu)
    (hx : cpu'.xlateState = cpu.xlateState) (hc : cpu'.mtsCache = cpu.mtsCache)
    (he : entry.Right cpu') (hk : ∀ b' page, b' ≠ b → cpu.Holds b' page → ∀ paddr cached host,
      pageXlate cpu page = some (paddr, cached) → cpu.vm.hostOf paddr cached = some host →
        cpu'.vm.hostOf paddr cached = some host) : Coherent (cpu'.setMts b entry) := by
  have hcache : (cpu'.setMts b entry).mtsCache = Function.update cpu.mtsCache b entry := by
    rw [Cpu.setMts, hc]
  have hmode : (cpu'.setMts b entry).addrMode = cpu.addrMode := addrMode_congr hx
  refine ⟨(masksOk_congr hx).mpr h.masks, ?_⟩
  rw [hcache, hmode]
  refine h.agrees.fill (he.mono rfl fun _ _ _ _ hhost => hhost) fun b' hb hv hr => ?_
  exact hr.mono hx fun _ _ _ => hk b' _ hb ⟨hv, rfl⟩ _ _ _

theorem mtsMap_coherent {opType : MtsOp} {map : MtsMap} (h : Coherent cpu)
    (hc : Canonical cpu.addrMode vaddr) (halone : UnsharesAlone cpu vaddr opType)
    (hmap : mtsXlate cpu vaddr = .ok map) :
    (mtsMap env cpu opType map (mtsHash vaddr)).Post Coherent Coherent := by
  simp only [mtsMap]
  split
  · exact h
  rename_i dev hdev
  split
  · rename_i hsp
    split
    · trivial
    rename_i ptr cow vm hsparse
    obtain ⟨hlist, hhost, hothers⟩ := devSparseGetHostAddr_hostOf hdev hsp hsparse
    have hright : (mtsEntry cpu.addrMode map ptr (cowFlags cow)).Right { cpu with vm := vm } :=
      mtsEntry_right h.masks hc hmap hhost
    refine h.setMts rfl rfl hright fun b page hb hpage paddr cached host hp hh => ?_
    refine hothers paddr cached host hh fun hunshares => ?_
    exact halone _ _ (pageXlate_eq_some.mpr ⟨map, hmap, rfl, rfl⟩) hunshares b page hb hpage _ _ hp
  · rename_i hsp
    split
    · exact h
    rename_i hdirect
    have hhost : cpu.vm.hostOf map.paddr map.cached =
        some (dev.hostAddr + (map.paddr - dev.physAddr), false) := by
      simp only [Vm.hostOf, hdev, hsp, hdirect, if_false, Bool.false_eq_true]
    exact h.setMts rfl rfl (mtsEntry_right h.masks hc hmap hhost) fun _ _ _ _ _ _ _ _ hh => hh

theorem mtsState_setCp0 (cpu : Cpu W) {reg : RegNum} (val : BitVec 64) (h : mipsCp0TlbHi ≠ reg) :
    (cpu.setCp0 reg val).mtsState = cpu.mtsState := by
  have hasid : (cpu.setCp0 reg val).asid = cpu.asid := by
    rw [Cpu.asid, Cpu.asid, Cpu.reg_setCp0_ne _ _ h]
  simp only [Cpu.mtsState, Cpu.xlateState, hasid]
  rfl

theorem mtsState_triggerException (cpu : Cpu W) (exc : ExcCode) (bdSlot : Bool) :
    (triggerException cpu exc bdSlot).mtsState = cpu.mtsState := by
  have hepc : mipsCp0TlbHi ≠ mipsCp0Epc := by decide
  have hcause : mipsCp0TlbHi ≠ mipsCp0Cause := by decide
  have hstatus : mipsCp0TlbHi ≠ mipsCp0Status := by decide
  simp only [triggerException]
  split
  · exact (mtsState_setCp0 _ _ hstatus).trans
      ((mtsState_setCp0 _ _ hcause).trans (mtsState_setCp0 _ _ hepc))
  · exact (mtsState_setCp0 _ _ hstatus).trans (mtsState_setCp0 _ _ hcause)

theorem accessSpecial_coherent (h : Coherent cpu) (data : BitVec 64) (mask : MtsAcc)
    (opCode : MemOp) (opType : MtsOp) :
    (accessSpecial cpu vaddr mask opCode opType data).Post Coherent Coherent := by
  have hbad : mipsCp0TlbHi ≠ mipsCp0Badvaddr := by decide
  have hexc : ∀ (mid : Cpu W) exc, mid.mtsState = cpu.mtsState →
      Coherent (triggerException (mid.setCp0 mipsCp0Badvaddr vaddr) exc false) := by
    intro mid exc hmid
    have hset := (mtsState_setCp0 mid vaddr hbad).trans hmid
    exact h.congr ((mtsState_triggerException _ exc false).trans hset)
  cases mask with
  | u => exact h
  | t =>
    simp only [accessSpecial]
    split
    · exact h
    · refine hexc _ _ ?_
      split <;> rfl
  | ae =>
    simp only [accessSpecial]
    split
    · exact h
    · exact hexc _ _ rfl

theorem slowLookup_coherent {opType : MtsOp} (h : Coherent cpu) (hc : Canonical cpu.addrMode vaddr)
    (halone : UnsharesAlone cpu vaddr opType) (data : BitVec 64) (opCode : MemOp) :
    (slowLookup env cpu vaddr opCode opType data).Post Coherent Coherent := by
  simp only [slowLookup]
  split
  · exact (accessSpecial_coherent h _ _ _ _).bind fun _ _ hmid => hmid
  · rename_i map hmap
    refine (mtsMap_coherent h hc halone hmap).bind fun entry mid hmid => ?_
    cases entry with
    | some entry => exact hmid
    | none => exact (accessSpecial_coherent hmid _ _ _ _).bind fun _ _ hafter => hafter

theorem cowFlags_dev (cow : Bool) : cowFlags cow &&& mtsFlagDev = 0 := by
  cases cow <;> decide

theorem mtsMap_device {opType : MtsOp} {map : MtsMap} {bucket : BitVec 14} {entry : MtsEntry}
    (h : mtsMap env cpu opType map bucket = .done (some entry) cpu')
    (hdev : entry.flags &&& mtsFlagDev ≠ 0) : cpu' = cpu := by
  simp only [mtsMap] at h
  split at h
  · cases h
  split at h
  · split at h
    · cases h
    · rename_i cow vm _
      cases h
      exact absurd (cowFlags_dev cow) hdev
  split at h
  · cases h
    rfl
  · cases h
    exact absurd (cowFlags_dev false) hdev

theorem slowLookup_device {opCode : MemOp} {opType : MtsOp} {data data' : BitVec 64}
    {entry : MtsEntry}
    (h : slowLookup env cpu vaddr opCode opType data = .done (some entry, data') cpu')
    (hdev : entry.flags &&& mtsFlagDev ≠ 0) : cpu' = cpu := by
  simp only [slowLookup] at h
  split at h
  · obtain ⟨_, _, _, h⟩ := Outcome.bind_eq_done h
    cases h
  · obtain ⟨found, mid, hm, h⟩ := Outcome.bind_eq_done h
    cases found with
    | some found =>
      cases h
      exact mtsMap_device hm hdev
    | none =>
      obtain ⟨_, _, _, h⟩ := Outcome.bind_eq_done h
      cases h

def deviceReply (env : Env W) (a : Access W) : Option (DevReply W) :=
  match fastHit a.cpu a.vaddr a.opType, slowLookup env a.cpu a.vaddr a.opCode a.opType a.data with
  | none, .done (some entry, data) cpu =>
    if entry.flags &&& mtsFlagDev ≠ 0 then
      (cpu.vm.devArray (((entry.hpa &&& mtsDevidMask) >>> mtsDevidShift).setWidth 6)).map fun dev =>
        env.handler dev ((entry.hpa &&& mtsDevoffMask).setWidth 32) a.opSize a.opType data
          cpu.toShared
    else none
  | _, _ => none

/-- The address is sign-extended in the direct zones, a page that is unshared is
not held under another address, and a device that takes host pages away
rebuilds the virtual TLB. -/
structure AccessOk (env : Env W) (a : Access W) : Prop where
  canonical : Canonical a.cpu.addrMode a.vaddr
  alone : UnsharesAlone a.cpu a.vaddr a.opType
  device : ∀ reply, deviceReply env a = some reply →
    reply.rebuild = true ∨ KeepsHosts a.cpu reply.shared.vm

def Access.run (env : Env W) (a : Access W) : Outcome W (Option HostAddr × BitVec 64) :=
  mtsAccess env a.cpu a.vaddr a.opCode a.opSize a.opType a.data

theorem access_coherent {a : Access W} (h : Coherent a.cpu) (ok : AccessOk env a) :
    (a.run env).Post Coherent Coherent := by
  have hslow := @slowLookup_coherent W env _ _ _ h ok.canonical ok.alone a.data a.opCode
  have hdevice := ok.device
  simp only [Access.run, mtsAccess]
  simp only [deviceReply] at hdevice
  cases hhit : fastHit a.cpu a.vaddr a.opType with
  | some entry => exact h
  | none =>
    cases hs : slowLookup env a.cpu a.vaddr a.opCode a.opType a.data with
    | loopEnter mid =>
      rw [hs] at hslow
      exact hslow
    | fault => trivial
    | done res mid =>
      obtain ⟨found, data⟩ := res
      rw [hs] at hslow
      cases found with
      | none => exact hslow
      | some entry =>
        simp only [Outcome.bind, accessEntry]
        split
        · rename_i hflag
          have hmid := slowLookup_device hs hflag
          subst hmid
          simp only [hhit, hs, hflag, if_true, ne_eq, not_false_eq_true] at hdevice
          simp only [devAccessFast]
          split
          · exact h
          · rename_i dev hdev
            rw [hdev] at hdevice
            cases hdevice _ rfl with
            | inl hr =>
              simp only [hr, if_true]
              exact coherent_invalidate h.masks
            | inr hk =>
              simp only [Outcome.Post]
              split
              · exact coherent_invalidate h.masks
              · exact h.of_kept rfl rfl hk
        · exact hslow

end Dynamips.Mips64
