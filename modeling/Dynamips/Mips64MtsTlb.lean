import Dynamips.Mips64Tlbp
import Dynamips.Mips64Divide
import Dynamips.Mips64Mts

/-! The virtual TLB under the instructions of coprocessor 0. A TLB write flushes
it where the entry that it replaces was valid; nothing flushes it when EntryHi
selects another address space. -/
set_option autoImplicit false

namespace Dynamips.Mips64
open Scan

variable {W : Type} {env : Env W} {cpu cpu' : Cpu W} {insn : Insn}

/-- The entries that cover a page of the virtual TLB are in the address space if
and only if they are in the current one. -/
def SameSpace (cpu : Cpu W) (asid : BitVec 64) : Prop :=
  ∀ b page, cpu.Holds b page → Mapped cpu.addrMode page → ∀ i : Fin 64,
    i.val < cpu.cp0.tlbEntries → (cpu.cp0.tlb i).covers cpu.addrMode page →
      (cpu.cp0.tlb i).inSpace asid = (cpu.cp0.tlb i).inSpace cpu.asid

/-- The entry has a valid half, so that writing it flushes the virtual TLB. -/
def TlbEntry.hasValid (entry : TlbEntry) : Prop :=
  entry.lo0 &&& mipsTlbVMask ≠ 0 ∨ entry.lo1 &&& mipsTlbVMask ≠ 0

/-- Written at an index, the entry that the registers give does not come before
the entry of a page of the virtual TLB that it covers too. -/
def TakesNoPage (cpu : Cpu W) (i : Fin 64) : Prop :=
  ∀ b page, cpu.Holds b page → Mapped cpu.addrMode page → ∀ j, tlbMatch cpu page = some j → i < j →
    ¬ ((tlbNewEntry cpu.cp0).covers cpu.addrMode page ∧ (tlbNewEntry cpu.cp0).inSpace cpu.asid)

def TlbwOk (cpu : Cpu W) (index : BitVec 32) : Prop :=
  ∀ i, tlbIndex cpu index = some i → (cpu.cp0.tlb i).hasValid ∨ TakesNoPage cpu i

theorem Coherent.of_lookup (h : Coherent cpu) (hm : MasksOk cpu')
    (hmode : cpu'.addrMode = cpu.addrMode) (hc : cpu'.mtsCache = cpu.mtsCache)
    (hvm : cpu'.vm = cpu.vm) (hl : ∀ b page, cpu.Holds b page → Mapped cpu.addrMode page → ∀ map,
      cp0TlbLookup cpu page = some map → cp0TlbLookup cpu' page = some map) : Coherent cpu' := by
  refine ⟨hm, ?_⟩
  rw [hmode, hc]
  refine h.agrees.mono fun b hv hr => ?_
  obtain ⟨paddr, cached, cow, hp, hhost, hflags⟩ := hr
  refine ⟨paddr, cached, cow, ?_, hvm ▸ hhost, hflags⟩
  rw [hmode]
  by_cases hmap : Mapped cpu.addrMode (cpu.addrMode.addr (cpu.mtsCache b).gvpa)
  · rw [pageXlate_tlb (mtsXlate_mapped hmap), Option.map_eq_some_iff] at hp
    obtain ⟨map, hlookup, hmapped⟩ := hp
    rw [pageXlate_tlb (mtsXlate_mapped (hmode ▸ hmap)), hl b _ ⟨hv, rfl⟩ hmap map hlookup,
      Option.map_some, hmapped]
  · rw [← hp, pageXlate, pageXlate, mtsXlate_direct hmap hmode]

theorem coherent_setEntryHi {val : BitVec 64} (h : Coherent cpu)
    (hs : SameSpace cpu (val &&& mipsTlbAsidMask)) : Coherent (cpu.setCp0 mipsCp0TlbHi val) := by
  have hasid : (cpu.setCp0 mipsCp0TlbHi val).asid = val &&& mipsTlbAsidMask := by
    rw [Cpu.asid, Cpu.reg_setCp0_self]
  refine h.of_lookup h.masks rfl rfl rfl fun b page hb hmap map hlookup => ?_
  have htest : lookupTest (cpu.setCp0 mipsCp0TlbHi val) page = lookupTest cpu page := by
    funext i
    have hspace := hs b page hb hmap i
    simp only [lookupTest, hasid]
    change (decide (i.val < cpu.cp0.tlbEntries) && (cpu.cp0.tlb i).covers cpu.addrMode page && _) = _
    by_cases hi : i.val < cpu.cp0.tlbEntries
    · by_cases hcov : (cpu.cp0.tlb i).covers cpu.addrMode page
      · rw [← hspace hi hcov]
        rfl
      · simp [hcov]
    · simp [hi]
  rw [← hlookup, cp0TlbLookup, cp0TlbLookup, tlbMatch_eq, tlbMatch_eq, htest]
  rfl

theorem and_hiSafe_asid (val : BitVec 64) :
    val &&& mipsCp0HiSafeMask &&& mipsTlbAsidMask = val &&& mipsTlbAsidMask := by
  rw [BitVec.and_assoc]
  rfl

theorem and_low_asid (val : BitVec 64) :
    val &&& 0xffffffff &&& mipsTlbAsidMask = val &&& mipsTlbAsidMask := by
  rw [BitVec.and_assoc]
  rfl

theorem and_notG_asid (val : BitVec 64) :
    val &&& ~~~mipsTlbGMask &&& mipsTlbAsidMask = val &&& mipsTlbAsidMask := by
  rw [BitVec.and_assoc]
  rfl

theorem coherent_tlbRead {entry : TlbEntry} (h : Coherent cpu)
    (hs : SameSpace cpu (entry.hi &&& mipsTlbAsidMask)) : Coherent (tlbRead cpu entry) := by
  have hmask : mipsCp0TlbHi ≠ mipsCp0Pagemask := by decide
  have hlo0 : mipsCp0TlbHi ≠ mipsCp0TlbLo0 := by decide
  have hlo1 : mipsCp0TlbHi ≠ mipsCp0TlbLo1 := by decide
  have hfirst := h.congr (mtsState_setCp0 cpu entry.mask hmask)
  have hasid : (cpu.setCp0 mipsCp0Pagemask entry.mask).asid = cpu.asid := by
    rw [Cpu.asid, Cpu.asid, Cpu.reg_setCp0_ne _ _ hmask]
  simp only [tlbRead]
  refine Coherent.congr ?_ ((mtsState_setCp0 _ _ hlo1).trans (mtsState_setCp0 _ _ hlo0))
  refine coherent_setEntryHi hfirst ?_
  have hval : (if entry.hi &&& mipsTlbGMask ≠ 0 then entry.hi &&& ~~~mipsTlbGMask else entry.hi) &&&
      mipsTlbAsidMask = entry.hi &&& mipsTlbAsidMask := by
    split
    · exact and_notG_asid _
    · rfl
  rw [hval, SameSpace, hasid]
  exact hs

theorem cp0UnmapTlbToMts_eq (i : Fin 64) :
    (cpu.cp0.tlb i).hasValid ∧ cp0UnmapTlbToMts cpu i = invalidateCache cpu ∨
      ¬ (cpu.cp0.tlb i).hasValid ∧ cp0UnmapTlbToMts cpu i = cpu := by
  by_cases h0 : (cpu.cp0.tlb i).lo0 &&& mipsTlbVMask ≠ 0
  · left
    refine ⟨Or.inl h0, ?_⟩
    simp only [cp0UnmapTlbToMts, if_pos h0]
    split <;> rfl
  · by_cases h1 : (cpu.cp0.tlb i).lo1 &&& mipsTlbVMask ≠ 0
    · left
      refine ⟨Or.inr h1, ?_⟩
      simp only [cp0UnmapTlbToMts, if_neg h0, if_pos h1]
    · right
      refine ⟨not_or.mpr ⟨h0, h1⟩, ?_⟩
      simp only [cp0UnmapTlbToMts, if_neg h0, if_neg h1]

theorem masksOk_setTlb (h : MasksOk cpu) (i : Fin 64) :
    MasksOk (cpu.setTlb i (tlbNewEntry cpu.cp0)) := by
  intro j
  simp only [Cpu.setTlb]
  by_cases hj : j = i
  · rw [hj, Function.update_self, tlbNewEntry, BitVec.and_assoc, BitVec.and_self]
  · rw [Function.update_of_ne hj]
    exact h j

theorem cp0TlbLookup_setTlb {i : Fin 64} {entry : TlbEntry} {page : BitVec 64} {map : MtsMap}
    (hinv : ¬ (cpu.cp0.tlb i).hasValid) (hlookup : cp0TlbLookup cpu page = some map)
    (htake : ∀ j, tlbMatch cpu page = some j → i < j →
      ¬ (entry.covers cpu.addrMode page ∧ entry.inSpace cpu.asid)) :
    cp0TlbLookup (cpu.setTlb i entry) page = some map := by
  simp only [cp0TlbLookup, Option.bind_eq_bind, Option.bind_eq_some_iff] at hlookup ⊢
  obtain ⟨j, hmatch, hlo⟩ := hlookup
  have hji : j ≠ i := by
    intro he
    subst he
    split at hlo
    · rename_i hv
      refine hinv ?_
      simp only [TlbEntry.lo] at hv
      split at hv
      · exact Or.inl hv
      · exact Or.inr hv
    · cases hlo
  have hother : ∀ k, k ≠ i → (cpu.setTlb i entry).cp0.tlb k = cpu.cp0.tlb k := fun k hk =>
    Function.update_of_ne hk _ _
  refine ⟨j, ?_, by rw [hother j hji]; exact hlo⟩
  have hfirst : First (lookupTest cpu page) j := find?_finRange_eq_some.mp hmatch
  have htest : ∀ k, k ≠ i → lookupTest (cpu.setTlb i entry) page k = lookupTest cpu page k := by
    intro k hk
    simp only [lookupTest, hother k hk]
    rfl
  rw [tlbMatch_eq, find?_finRange_eq_some]
  refine ⟨(htest j hji).trans hfirst.1, fun k hk => ?_⟩
  by_cases hki : k = i
  · subst hki
    intro ht
    have hnew : (cpu.setTlb k entry).cp0.tlb k = entry := Function.update_self _ _ _
    simp only [lookupTest, hnew, Bool.and_eq_true] at ht
    exact htake j hmatch hk ⟨ht.1.2, ht.2⟩
  · rw [htest k hki]
    exact hfirst.2 k hk

theorem coherent_tlbw {index : BitVec 32} (h : Coherent cpu) (ok : TlbwOk cpu index) :
    Coherent (cp0ExecTlbw cpu index) := by
  simp only [cp0ExecTlbw]
  split
  · rename_i i hi
    obtain ⟨-, heq⟩ | ⟨hinv, heq⟩ := @cp0UnmapTlbToMts_eq W cpu i
    · rw [heq]
      exact coherent_invalidate (masksOk_setTlb h.masks i)
    · rw [heq]
      refine h.of_lookup (masksOk_setTlb h.masks i) rfl rfl rfl fun b page hb hmap map hl => ?_
      exact cp0TlbLookup_setTlb hinv hl ((ok i hi).resolve_left hinv b page hb hmap)
  · exact h

@[simp] theorem mtsState_updateIrqFlag (cpu : Cpu W) :
    (updateIrqFlag cpu).mtsState = cpu.mtsState := by
  have hcause : mipsCp0TlbHi ≠ mipsCp0Cause := by decide
  simp only [updateIrqFlag]
  split
  · exact mtsState_setCp0 _ _ hcause
  · exact mtsState_setCp0 _ _ hcause

theorem mtsState_setVirtCmp {delta : BitVec 32} (h : setVirtCmp cpu delta = some cpu') :
    cpu'.mtsState = cpu.mtsState := by
  simp only [setVirtCmp] at h
  split at h
  · cases h
  · cases h
    rfl

theorem mtsState_cp0SetReg {reg : RegNum} {val : BitVec 64} (hreg : mipsCp0TlbHi ≠ reg)
    (h : cp0SetReg cpu reg val = some cpu') : cpu'.mtsState = cpu.mtsState := by
  simp only [cp0SetReg] at h
  split_ifs at h
  · cases h
    rw [mtsState_updateIrqFlag, mtsState_setCp0 _ _ hreg]
  · cases h
    exact mtsState_setCp0 _ _ hreg
  · rw [mtsState_setVirtCmp h, mtsState_setCp0 _ _ hreg, mtsState_updateIrqFlag]
    rfl
  · rw [mtsState_setVirtCmp h, mtsState_setCp0 _ _ hreg]
  · cases h
    exact mtsState_setCp0 _ _ hreg
  · cases h
    exact mtsState_setCp0 _ _ hreg
  · cases h
    rfl
  · cases h
    exact mtsState_setCp0 _ _ hreg
  · cases h
    exact mtsState_setCp0 _ _ hreg

theorem cp0SetReg_tlbHi (cpu : Cpu W) (val : BitVec 64) : cp0SetReg cpu mipsCp0TlbHi val =
    some (cpu.setCp0 mipsCp0TlbHi (val &&& mipsCp0HiSafeMask)) := rfl

theorem coherent_cp0SetReg {reg : RegNum} {val : BitVec 64} (h : Coherent cpu)
    (hs : reg = mipsCp0TlbHi → SameSpace cpu (val &&& mipsTlbAsidMask))
    (hset : cp0SetReg cpu reg val = some cpu') : Coherent cpu' := by
  by_cases hreg : reg = mipsCp0TlbHi
  · subst hreg
    rw [cp0SetReg_tlbHi] at hset
    cases hset
    refine coherent_setEntryHi h ?_
    rw [and_hiSafe_asid]
    exact hs rfl
  · exact h.congr (mtsState_cp0SetReg (Ne.symm hreg) hset)

def tlbrInsn : Insn := 0x42000001

def tlbwiInsn : Insn := 0x42000002

/-- What the coprocessor instructions must not do to the virtual TLB. -/
structure CopOk (cpu : Cpu W) (insn : Insn) : Prop where
  entryHi : movesToCp0 insn → rd insn = mipsCp0TlbHi →
    SameSpace cpu (cpu.gpr (rt insn) &&& mipsTlbAsidMask)
  tlbr : insn = tlbrInsn → ∀ i, tlbIndex cpu ((cpu.cp0.reg mipsCp0Index).setWidth 32) = some i →
    SameSpace cpu ((cpu.cp0.tlb i).hi &&& mipsTlbAsidMask)
  tlbwi : insn = tlbwiInsn → TlbwOk cpu ((cpu.cp0.reg mipsCp0Index).setWidth 32)
  tlbwr : insn = tlbwrInsn → ∀ index, cp0GetRandomReg cpu = some index → TlbwOk cpu index

theorem mtsState_foldl {α : Type} {f : Cpu W → α → Cpu W}
    (hf : ∀ cpu a, (f cpu a).mtsState = cpu.mtsState) (l : List α) (cpu : Cpu W) :
    (l.foldl f cpu).mtsState = cpu.mtsState := by
  induction l generalizing cpu with
  | nil => rfl
  | cons a l ih => rw [List.foldl_cons, ih, hf]

theorem mtsState_tlbp (cpu : Cpu W) : (cp0ExecTlbp cpu).mtsState = cpu.mtsState := by
  have hindex : mipsCp0TlbHi ≠ mipsCp0Index := by decide
  simp only [cp0ExecTlbp]
  rw [mtsState_foldl, mtsState_setCp0 _ _ hindex]
  intro mid i
  split
  · exact mtsState_setCp0 _ _ hindex
  · rfl

/-- What a coprocessor instruction does: it writes registers that no address depends on,
moves to CP0, or is one of the four TLB instructions. -/
inductive CopEffect (cpu : Cpu W) (insn : Insn) : Cpu W → Prop where
  | frame (regs : Regs) (fpu : RegNum → BitVec 64)
      (iplLo iplHi intCtl derraddr0 derraddr1 : BitVec 32) :
      CopEffect cpu insn { cpu with
        toRegs := regs
        fpu := fpu
        cp0 := { cpu.cp0 with iplLo, iplHi, intCtl, derraddr0, derraddr1 } }
  | move (val : BitVec 64) (cpu' : Cpu W) (hm : movesToCp0 insn)
      (hval : val = cpu.gpr (rt insn) ∨ val = cpu.gpr (rt insn) &&& 0xffffffff)
      (hset : cp0SetReg cpu (rd insn) val = some cpu') : CopEffect cpu insn cpu'
  | tlbp : CopEffect cpu insn (cp0ExecTlbp cpu)
  | tlbr (h : insn = tlbrInsn) : CopEffect cpu insn (cp0ExecTlbr cpu)
  | tlbwi (h : insn = tlbwiInsn) : CopEffect cpu insn (cp0ExecTlbwi cpu)
  | tlbwr (index : BitVec 32) (h : insn = tlbwrInsn) (hindex : cp0GetRandomReg cpu = some index) :
      CopEffect cpu insn (cp0ExecTlbw cpu index)

theorem copEffect_setGpr (reg : RegNum) (val : BitVec 64) :
    CopEffect cpu insn (cpu.setGpr reg val) :=
  .frame _ _ _ _ _ _ _

theorem copEffect_cp0S1SetReg (reg : RegNum) (val : BitVec 64) :
    CopEffect cpu insn (cp0S1SetReg cpu reg val) := by
  simp only [cp0S1SetReg]
  split_ifs <;> exact .frame cpu.toRegs _ _ _ _ _ _

theorem copEffect_from {val : Option (BitVec 64)} {reg : RegNum} {conv : BitVec 64 → BitVec 64}
    (hsome : (val.map fun val => cpu.setGpr reg (conv val)) = some cpu') :
    CopEffect cpu insn cpu' := by
  rw [Option.map_eq_some_iff] at hsome
  obtain ⟨_, -, rfl⟩ := hsome
  exact copEffect_setGpr _ _

theorem copEffect {f : Cpu W → Insn → Option (Cpu W)} (hf : execOf insn = .cop f)
    (hsome : f cpu insn = some cpu') : CopEffect cpu insn cpu' := by
  obtain ⟨key, hmem, hkey⟩ := mem_copTags hf
  have hall : insn &&& 0xffffffff = insn := BitVec.and_allOnes
  simp only [copTags_eq, List.mem_cons, Prod.mk.injEq, List.not_mem_nil, or_false] at hmem
  obtain ⟨-, rfl⟩ | ⟨-, rfl⟩ | ⟨-, rfl⟩ | ⟨-, rfl⟩ | ⟨rfl, rfl⟩ | ⟨-, rfl⟩ | ⟨-, rfl⟩ | ⟨-, rfl⟩ |
    ⟨-, rfl⟩ | ⟨rfl, rfl⟩ | ⟨-, rfl⟩ | ⟨-, rfl⟩ | ⟨rfl, rfl⟩ | ⟨rfl, rfl⟩ | ⟨rfl, rfl⟩ := hmem
  · cases hsome
    exact copEffect_setGpr _ _
  · cases hsome
    exact copEffect_cp0S1SetReg _ _
  · exact @copEffect_from W cpu cpu' insn _ _ id hsome
  · cases hsome
    exact copEffect_setGpr _ _
  · exact .move _ _ (Or.inr hkey) (Or.inl rfl) hsome
  · cases hsome
    exact .frame cpu.toRegs _ _ _ _ _ _
  · exact copEffect_from hsome
  · cases hsome
    exact copEffect_setGpr _ _
  · cases hsome
    exact copEffect_setGpr _ _
  · exact .move _ _ (Or.inl hkey) (Or.inr rfl) hsome
  · cases hsome
    exact .frame cpu.toRegs _ _ _ _ _ _
  · rw [execTLBP, Option.some.injEq] at hsome
    exact hsome ▸ .tlbp
  · cases hsome
    exact .tlbr (hall.symm.trans hkey)
  · cases hsome
    exact .tlbwi (hall.symm.trans hkey)
  · simp only [execTLBWR, cp0ExecTlbwr, Option.map_eq_some_iff] at hsome
    obtain ⟨index, hindex, rfl⟩ := hsome
    exact .tlbwr index (hall.symm.trans hkey) hindex

theorem coherent_cop {f : Cpu W → Insn → Option (Cpu W)} (hf : execOf insn = .cop f)
    (h : Coherent cpu) (ok : CopOk cpu insn) (hsome : f cpu insn = some cpu') : Coherent cpu' := by
  cases copEffect hf hsome with
  | frame => exact h.congr rfl
  | move val cpu' hm hval hset =>
    refine coherent_cp0SetReg h (fun hreg => ?_) hset
    obtain rfl | rfl := hval
    · exact ok.entryHi hm hreg
    · rw [and_low_asid]
      exact ok.entryHi hm hreg
  | tlbp => exact h.congr (mtsState_tlbp cpu)
  | tlbr hi =>
    simp only [cp0ExecTlbr]
    split
    · rename_i i hindex
      exact coherent_tlbRead h (ok.tlbr hi i hindex)
    · exact h
  | tlbwi hi => exact coherent_tlbw h (ok.tlbwi hi)
  | tlbwr index hi hindex => exact coherent_tlbw h (ok.tlbwr hi index hindex)

end Dynamips.Mips64
