import Dynamips.Ppc32Ram

/-! The accesses of a PowerPC CPU to the pages that have a host page, of whatever
device they are. -/
set_option autoImplicit false

namespace Dynamips.Ppc32

variable {W : Type} {env : Env W} {cpu cpu' : Cpu W} {cid : Cid} {vaddr : BitVec 32}
  {opType : MtsOp} {haddr : HostAddr}

/-- The byte of an address is at `haddr` of the host, on a page that may be
accessed as it is. -/
def HostedAt (cpu : Cpu W) (cid : Cid) (vaddr : BitVec 32) (opType : MtsOp) (haddr : HostAddr) :
    Prop :=
  ∃ map hpa cow, xlate cpu vaddr cid = some map ∧
    (∀ v, pageOf v = pageOf vaddr → LiesIn cpu cid v map.paddr) ∧
    cpu.vm.hostOf map.paddr false = some (hpa, cow) ∧ (opType = .write → cow = false) ∧
    haddr = hpa + (vaddr &&& PPC32_MIN_PAGE_IMASK).setWidth 64

def hostFlags (cpu : Cpu W) (map : MtsMap) (cow : Bool) : BitVec 32 :=
  (if cow = true then MTS_FLAG_COW else 0) ||| execFlag cpu map

theorem memMap_hosted {map : MtsMap} {hpa : HostAddr} {cow : Bool} {bucket : BitVec 14}
    (hdev : devLookup cpu.vm (map.paddr + map.offset.setWidth 64) false =
      devLookup cpu.vm map.paddr false)
    (hhost : cpu.vm.hostOf map.paddr false = some (hpa, cow))
    (hcow : opType = .write → cow = false) :
    memMap env cpu opType map cid bucket =
      some (some (mtsEntry map hpa (hostFlags cpu map cow)),
        cpu.setMts cid bucket (mtsEntry map hpa (hostFlags cpu map cow))) := by
  cases hlookup : devLookup cpu.vm map.paddr false with
  | none =>
    simp only [Vm.hostOf, hlookup] at hhost
    cases hhost
  | some dev =>
    by_cases hsp : dev.has vdeviceFlagSparse
    · have hsparse := devSparseGetHostAddr_of_hostOf hlookup hsp hhost hcow
      simp only [memMap, hdev, hlookup, hsp, hsparse, if_true]
      rfl
    · simp only [Vm.hostOf, hlookup, hsp, if_false, Bool.false_eq_true] at hhost
      split at hhost
      · cases hhost
      · rename_i hdirect
        cases hhost
        have hflags : hostFlags cpu map false = execFlag cpu map := BitVec.zero_or
        simp only [memMap, hdev, hlookup, hsp, hdirect, if_false, Bool.false_eq_true, hflags]

theorem memMap_hosted_coherent (h : Coherent cpu) {map : MtsMap} {hpa : HostAddr} {cow : Bool}
    (hmap : xlate cpu vaddr cid = some map)
    (hwhole : ∀ v, pageOf v = pageOf vaddr → LiesIn cpu cid v map.paddr)
    (hhost : cpu.vm.hostOf map.paddr false = some (hpa, cow)) :
    Coherent (cpu.setMts cid (mtsHash vaddr) (mtsEntry map hpa (hostFlags cpu map cow))) := by
  refine h.fill rfl (fun ha hb => xlate_vaddr hmap ha hb) ?_ fun _ _ _ _ _ he => he
  exact ⟨map.paddr, cow, hwhole, hhost, flags_cow cow _⟩

theorem access_hosted (env : Env W) (h : Coherent cpu)
    (hat : HostedAt cpu cid vaddr opType haddr) (lookup : Bool) (opSize : Nat) (data : BitVec 64) :
    ∃ cpu', memAccess env cpu vaddr cid lookup opSize opType data = .host haddr data cpu' ∧
      Coherent cpu' ∧ cpu'.vm = cpu.vm ∧ cpu'.xlateState = cpu.xlateState := by
  obtain ⟨map, hpa, cow, hmap, hwhole, hhost, hcow, rfl⟩ := hat
  cases hhit : fastHit cpu vaddr cid opType with
  | some entry =>
    obtain ⟨map', cow', hmap', -, hhost', -⟩ := hit_host h hhit
    rw [hmap] at hmap'
    cases hmap'
    rw [hhost] at hhost'
    cases hhost'
    obtain ⟨cpu', hraw, hvm, hx⟩ := rawAccess_host cpu vaddr cid opType entry data
    refine ⟨cpu', ?_, rawAccess_coherent h (fastHit_eq_some.mp hhit).1 hraw, hvm, hx⟩
    simp only [memAccess, hhit, hraw]
  | none =>
    obtain ⟨map', hmap', -, hdev⟩ := hwhole vaddr rfl
    rw [hmap] at hmap'
    cases hmap'
    have hfill : memMap env cpu opType map cid (mtsHash vaddr) = _ :=
      memMap_hosted hdev hhost hcow
    have hco := memMap_hosted_coherent h hmap hwhole hhost
    obtain ⟨cpu', hraw, hvm, hx⟩ := rawAccess_host
      (cpu.setMts cid (mtsHash vaddr) (mtsEntry map hpa (hostFlags cpu map cow))) vaddr cid opType
      (mtsEntry map hpa (hostFlags cpu map cow)) data
    refine ⟨cpu', ?_, rawAccess_coherent hco ?_ hraw, hvm, hx⟩
    · have hnodev : (mtsEntry map hpa (hostFlags cpu map cow)).flags &&& MTS_FLAG_DEV = 0 :=
        flags_not_dev cow _
      simp only [memAccess, hhit, slowLookup, hmap, hfill, hnodev, ne_eq, not_true_eq_false,
        if_false, hraw]
      rfl
    · simp only [Cpu.setMts, Function.update_self]

end Dynamips.Ppc32
