import Dynamips.Mips64MtsRun

/-! TLBWI and TLBR undo each other: what is written comes back in its normal form,
and an entry that is read and written back stays as it is. -/
set_option autoImplicit false

namespace Dynamips.Mips64
open Runs

variable {W : Type} {env : Env W} {cpu cpu' : Cpu W} {insn : Insn}

structure TlbRegs where
  pageMask : BitVec 64
  hi : BitVec 64
  lo0 : BitVec 64
  lo1 : BitVec 64

def Cpu.tlbRegs (cpu : Cpu W) : TlbRegs where
  pageMask := cpu.cp0.reg mipsCp0Pagemask
  hi := cpu.cp0.reg mipsCp0TlbHi
  lo0 := cpu.cp0.reg mipsCp0TlbLo0
  lo1 := cpu.cp0.reg mipsCp0TlbLo1

/-- The VPN is masked, and both halves have the G bit that both had. -/
def TlbRegs.normal (r : TlbRegs) : TlbRegs where
  pageMask := r.pageMask &&& mipsTlbPageMask
  hi := r.hi &&& ~~~(r.pageMask &&& mipsTlbPageMask) &&& mipsCp0HiSafeMask
  lo0 := (r.lo0 &&& ~~~mipsCp0LoGMask) ||| (r.lo0 &&& r.lo1 &&& mipsCp0LoGMask)
  lo1 := (r.lo1 &&& ~~~mipsCp0LoGMask) ||| (r.lo0 &&& r.lo1 &&& mipsCp0LoGMask)

def TlbEntry.regs (entry : TlbEntry) : TlbRegs where
  pageMask := entry.mask
  hi := if entry.hi &&& mipsTlbGMask ≠ 0 then entry.hi &&& ~~~mipsTlbGMask else entry.hi
  lo0 := if entry.hi &&& mipsTlbGMask ≠ 0 then entry.lo0 ||| mipsCp0LoGMask else entry.lo0
  lo1 := if entry.hi &&& mipsTlbGMask ≠ 0 then entry.lo1 ||| mipsCp0LoGMask else entry.lo1

structure TlbEntry.Normal (entry : TlbEntry) : Prop where
  mask : entry.mask &&& mipsTlbPageMask = entry.mask
  hi : entry.hi &&& ~~~entry.mask &&& (mipsCp0HiSafeMask ||| mipsTlbGMask) = entry.hi
  lo0 : entry.lo0 &&& mipsCp0LoGMask = 0
  lo1 : entry.lo1 &&& mipsCp0LoGMask = 0

def writeRead (cpu : Cpu W) : Cpu W := cp0ExecTlbr (cp0ExecTlbwi cpu)

structure TlbRoundTrips (cpu : Cpu W) : Prop where
  returned : ∀ i, tlbIndex cpu ((cpu.cp0.reg mipsCp0Index).setWidth 32) = some i →
    (writeRead cpu).tlbRegs = cpu.tlbRegs.normal
  again : invalidateCache (writeRead (writeRead cpu)) = invalidateCache (writeRead cpu)
  kept : (cp0ExecTlbwi (cp0ExecTlbr cpu)).cp0.tlb = cpu.cp0.tlb

section Bits

variable {a b m g : BitVec 64}

theorem and_not_self (h : a &&& g = 0#64) : a &&& ~~~g = a := by
  apply BitVec.eq_of_getLsbD_eq
  intro i hi
  have hbit := congrArg (fun x => x.getLsbD i) h
  simp only [BitVec.getLsbD_and, BitVec.getLsbD_zero] at hbit
  simp only [BitVec.getLsbD_and, BitVec.getLsbD_not, hi]
  grind

theorem or_and_not (h : a &&& g = 0#64) : (a ||| g) &&& ~~~g = a := by
  rw [BitVec.and_or_distrib_right, and_not_self h, BitVec.and_not_self]
  exact BitVec.or_zero

theorem or_and_self (a g : BitVec 64) : (a ||| g) &&& g = g := by
  apply BitVec.eq_of_getLsbD_eq
  intro i hi
  simp only [BitVec.getLsbD_and, BitVec.getLsbD_or]
  grind

theorem and_eq_mask {k : Nat} (hg : ∀ j, j < 64 → g.getLsbD j = decide (j = k))
    (h : a &&& g ≠ 0#64) : a &&& g = g := by
  have hk : a.getLsbD k = true := by
    by_contra hfalse
    refine h (BitVec.eq_of_getLsbD_eq fun j hj => ?_)
    rw [BitVec.getLsbD_and, hg j hj, BitVec.getLsbD_zero]
    by_cases hjk : j = k
    · simpa [hjk] using hfalse
    · simp [hjk]
  apply BitVec.eq_of_getLsbD_eq
  intro i hi
  rw [BitVec.getLsbD_and, hg i hi]
  by_cases hik : i = k
  · simp [hik, hk]
  · simp [hik]

theorem and_loG (h : a &&& mipsCp0LoGMask ≠ 0) : a &&& mipsCp0LoGMask = mipsCp0LoGMask :=
  @and_eq_mask a mipsCp0LoGMask 0 (by decide) h

theorem and_gMask (h : a &&& mipsTlbGMask ≠ 0) : a &&& mipsTlbGMask = mipsTlbGMask :=
  @and_eq_mask a mipsTlbGMask 12 (by decide) h

end Bits

theorem safe_and_gMask (a : BitVec 64) : a &&& mipsCp0HiSafeMask &&& mipsTlbGMask = 0 := by
  rw [BitVec.and_assoc]
  exact BitVec.and_zero

theorem notLoG_and_loG (a : BitVec 64) : a &&& ~~~mipsCp0LoGMask &&& mipsCp0LoGMask = 0 := by
  rw [BitVec.and_assoc]
  exact BitVec.and_zero

theorem regs_newEntry (cpu : Cpu W) : (tlbNewEntry cpu.cp0).regs = cpu.tlbRegs.normal := by
  have hzero := safe_and_gMask (cpu.cp0.reg mipsCp0TlbHi &&&
    ~~~(cpu.cp0.reg mipsCp0Pagemask &&& mipsTlbPageMask))
  have hg : mipsTlbGMask ≠ 0#64 := by decide
  have hlo : mipsCp0LoGMask ≠ 0#64 := by decide
  by_cases hglobal : cpu.cp0.reg mipsCp0TlbLo0 &&& cpu.cp0.reg mipsCp0TlbLo1 &&& mipsCp0LoGMask = 0
  · simp [TlbEntry.regs, tlbNewEntry, TlbRegs.normal, Cpu.tlbRegs, hglobal, hzero]
  · have hone := and_loG hglobal
    simp [TlbEntry.regs, tlbNewEntry, TlbRegs.normal, Cpu.tlbRegs, hone, hlo, or_and_self, hg,
      or_and_not hzero]

theorem normal_newEntry (cp0 : Cp0) : (tlbNewEntry cp0).Normal where
  mask := by rw [tlbNewEntry, BitVec.and_assoc, BitVec.and_self]
  hi := by
    simp only [tlbNewEntry]
    have hmask : mipsTlbPageMask &&& mipsTlbGMask = 0#64 := by decide
    apply BitVec.eq_of_getLsbD_eq
    intro i hi
    have hbit := congrArg (fun x => x.getLsbD i) hmask
    simp only [BitVec.getLsbD_and, BitVec.getLsbD_zero] at hbit
    split <;> simp only [BitVec.getLsbD_and, BitVec.getLsbD_or, BitVec.getLsbD_not, hi] <;> grind
  lo0 := notLoG_and_loG _
  lo1 := notLoG_and_loG _

theorem TlbEntry.Normal.hi_global {entry : TlbEntry} (h : entry.Normal)
    (hg : entry.hi &&& mipsTlbGMask ≠ 0) :
    (entry.hi &&& ~~~mipsTlbGMask) &&& ~~~entry.mask &&& mipsCp0HiSafeMask ||| mipsTlbGMask =
      entry.hi := by
  apply BitVec.eq_of_getLsbD_eq
  intro i hi
  have hhi := congrArg (fun x => x.getLsbD i) h.hi
  have hbit := congrArg (fun x => x.getLsbD i) (and_gMask hg)
  simp only [BitVec.getLsbD_and, BitVec.getLsbD_or, BitVec.getLsbD_not, hi] at hhi hbit ⊢
  grind

theorem TlbEntry.Normal.hi_local {entry : TlbEntry} (h : entry.Normal)
    (hg : entry.hi &&& mipsTlbGMask = 0) :
    entry.hi &&& ~~~entry.mask &&& mipsCp0HiSafeMask = entry.hi := by
  apply BitVec.eq_of_getLsbD_eq
  intro i hi
  have hhi := congrArg (fun x => x.getLsbD i) h.hi
  have hbit := congrArg (fun x => x.getLsbD i) hg
  simp only [BitVec.getLsbD_and, BitVec.getLsbD_or, BitVec.getLsbD_not, BitVec.ofNat_eq_ofNat,
    BitVec.getLsbD_zero, hi] at hhi hbit ⊢
  grind

theorem newEntry_of_regs {entry : TlbEntry} (h : entry.Normal) (hregs : cpu.tlbRegs = entry.regs) :
    tlbNewEntry cpu.cp0 = entry := by
  have hmask : cpu.cp0.reg mipsCp0Pagemask = entry.mask := congrArg TlbRegs.pageMask hregs
  have hhi : cpu.cp0.reg mipsCp0TlbHi = entry.regs.hi := congrArg TlbRegs.hi hregs
  have hlo0 : cpu.cp0.reg mipsCp0TlbLo0 = entry.regs.lo0 := congrArg TlbRegs.lo0 hregs
  have hlo1 : cpu.cp0.reg mipsCp0TlbLo1 = entry.regs.lo1 := congrArg TlbRegs.lo1 hregs
  have hlo : mipsCp0LoGMask ≠ 0#64 := by decide
  simp only [tlbNewEntry, hmask, h.mask, hhi, hlo0, hlo1]
  by_cases hg : entry.hi &&& mipsTlbGMask = 0#64
  · have hnone : entry.lo0 &&& entry.lo1 &&& mipsCp0LoGMask = 0 := by
      rw [BitVec.and_assoc, h.lo1]
      exact BitVec.and_zero
    simp [TlbEntry.regs, hg, hnone, h.hi_local hg, and_not_self h.lo0, and_not_self h.lo1]
  · have hboth : (entry.lo0 ||| mipsCp0LoGMask) &&& (entry.lo1 ||| mipsCp0LoGMask) &&&
        mipsCp0LoGMask = mipsCp0LoGMask := by
      rw [BitVec.and_assoc, or_and_self, or_and_self]
    simp [TlbEntry.regs, hg, hboth, hlo, h.hi_global hg, or_and_not h.lo0, or_and_not h.lo1]

/-! The instructions. -/

theorem setCp0_self {reg : RegNum} {val : BitVec 64} (h : cpu.cp0.reg reg = val) :
    cpu.setCp0 reg val = cpu := by
  rw [Cpu.setCp0, ← h, Function.update_eq_self]

theorem reg_tlbRead_of_ne (cpu : Cpu W) (entry : TlbEntry) {reg : RegNum}
    (h : reg ∉ [mipsCp0Pagemask, mipsCp0TlbHi, mipsCp0TlbLo0, mipsCp0TlbLo1]) :
    (tlbRead cpu entry).cp0.reg reg = cpu.cp0.reg reg := by
  simp only [List.mem_cons, List.not_mem_nil, or_false, not_or] at h
  simp only [tlbRead]
  rw [Cpu.reg_setCp0_ne _ _ h.2.2.2, Cpu.reg_setCp0_ne _ _ h.2.2.1, Cpu.reg_setCp0_ne _ _ h.2.1,
    Cpu.reg_setCp0_ne _ _ h.1]

theorem tlbRegs_tlbRead (cpu : Cpu W) (entry : TlbEntry) :
    (tlbRead cpu entry).tlbRegs = entry.regs := by
  have h1 : mipsCp0Pagemask ≠ mipsCp0TlbHi := by decide
  have h2 : mipsCp0Pagemask ≠ mipsCp0TlbLo0 := by decide
  have h3 : mipsCp0Pagemask ≠ mipsCp0TlbLo1 := by decide
  have h4 : mipsCp0TlbHi ≠ mipsCp0TlbLo0 := by decide
  have h5 : mipsCp0TlbHi ≠ mipsCp0TlbLo1 := by decide
  have h6 : mipsCp0TlbLo0 ≠ mipsCp0TlbLo1 := by decide
  simp only [Cpu.tlbRegs, tlbRead, TlbEntry.regs, Cpu.reg_setCp0_self, Cpu.reg_setCp0_ne _ _ h1,
    Cpu.reg_setCp0_ne _ _ h2, Cpu.reg_setCp0_ne _ _ h3, Cpu.reg_setCp0_ne _ _ h4,
    Cpu.reg_setCp0_ne _ _ h5, Cpu.reg_setCp0_ne _ _ h6]

theorem tlbRead_self {entry : TlbEntry} (h : cpu.tlbRegs = entry.regs) :
    tlbRead cpu entry = cpu := by
  have hmask : cpu.setCp0 mipsCp0Pagemask entry.mask = cpu :=
    setCp0_self (congrArg TlbRegs.pageMask h)
  have hhi : cpu.setCp0 mipsCp0TlbHi entry.regs.hi = cpu := setCp0_self (congrArg TlbRegs.hi h)
  have hlo0 : cpu.setCp0 mipsCp0TlbLo0 entry.regs.lo0 = cpu := setCp0_self (congrArg TlbRegs.lo0 h)
  have hlo1 : cpu.setCp0 mipsCp0TlbLo1 entry.regs.lo1 = cpu := setCp0_self (congrArg TlbRegs.lo1 h)
  simp only [TlbEntry.regs] at hhi hlo0 hlo1
  simp only [tlbRead, hmask, hhi, hlo0, hlo1]

theorem invalidateCache_unmap (cpu : Cpu W) (i : Fin 64) :
    invalidateCache (cp0UnmapTlbToMts cpu i) = invalidateCache cpu := by
  obtain ⟨-, heq⟩ | ⟨-, heq⟩ := @cp0UnmapTlbToMts_eq W cpu i
  · rw [heq]
    rfl
  · rw [heq]

theorem cp0_unmap (cpu : Cpu W) (i : Fin 64) : (cp0UnmapTlbToMts cpu i).cp0 = cpu.cp0 := by
  have h : (invalidateCache (cp0UnmapTlbToMts cpu i)).cp0 = (invalidateCache cpu).cp0 := by
    rw [invalidateCache_unmap]
  exact h

section Rounds

variable {i : Fin 64} (hi : tlbIndex cpu ((cpu.cp0.reg mipsCp0Index).setWidth 32) = some i)
include hi

theorem tlbwi_eq : cp0ExecTlbwi cpu =
    (cp0UnmapTlbToMts cpu i).setTlb i (tlbNewEntry cpu.cp0) := by
  simp only [cp0ExecTlbwi, cp0ExecTlbw, hi]

theorem tlbr_eq : cp0ExecTlbr cpu = tlbRead cpu (cpu.cp0.tlb i) := by
  simp only [cp0ExecTlbr, hi]

theorem writeRead_eq : writeRead cpu =
    tlbRead ((cp0UnmapTlbToMts cpu i).setTlb i (tlbNewEntry cpu.cp0)) (tlbNewEntry cpu.cp0) := by
  have hindex : tlbIndex ((cp0UnmapTlbToMts cpu i).setTlb i (tlbNewEntry cpu.cp0))
      ((((cp0UnmapTlbToMts cpu i).setTlb i (tlbNewEntry cpu.cp0)).cp0.reg
        mipsCp0Index).setWidth 32) = some i := by
    simpa only [tlbIndex, Cpu.setTlb, cp0_unmap] using hi
  rw [writeRead, tlbwi_eq hi, tlbr_eq hindex]
  simp only [Cpu.setTlb, Function.update_self]

theorem tlbRegs_writeRead : (writeRead cpu).tlbRegs = cpu.tlbRegs.normal := by
  rw [writeRead_eq hi, tlbRegs_tlbRead, regs_newEntry]

theorem index_writeRead :
    tlbIndex (writeRead cpu) (((writeRead cpu).cp0.reg mipsCp0Index).setWidth 32) = some i := by
  rw [writeRead_eq hi, reg_tlbRead_of_ne _ _ (by decide)]
  simpa only [tlbIndex, tlbRead, Cpu.setCp0, Cpu.setTlb, cp0_unmap] using hi

theorem tlb_writeRead : (writeRead cpu).cp0.tlb i = tlbNewEntry cpu.cp0 := by
  rw [writeRead_eq hi]
  simp only [tlbRead, Cpu.setCp0, Cpu.setTlb, Function.update_self]

theorem writeRead_self (hn : (cpu.cp0.tlb i).Normal) (hregs : cpu.tlbRegs = (cpu.cp0.tlb i).regs) :
    invalidateCache (writeRead cpu) = invalidateCache cpu := by
  have hself : cpu.setTlb i (cpu.cp0.tlb i) = cpu := by
    rw [Cpu.setTlb, Function.update_eq_self]
  have hset : invalidateCache ((cp0UnmapTlbToMts cpu i).setTlb i (cpu.cp0.tlb i)) =
      invalidateCache cpu := by
    have hswap : ∀ mid : Cpu W, invalidateCache (mid.setTlb i (cpu.cp0.tlb i)) =
        (invalidateCache mid).setTlb i (cpu.cp0.tlb i) := fun _ => rfl
    rw [hswap, invalidateCache_unmap, ← hswap, hself]
  rw [writeRead_eq hi, newEntry_of_regs hn hregs, tlbRead_self, hset]
  rw [← hregs]
  simp only [Cpu.tlbRegs, Cpu.setTlb, cp0_unmap]

theorem tlb_readWrite (hn : (cpu.cp0.tlb i).Normal) :
    (cp0ExecTlbwi (cp0ExecTlbr cpu)).cp0.tlb = cpu.cp0.tlb := by
  have hindex : tlbIndex (tlbRead cpu (cpu.cp0.tlb i))
      (((tlbRead cpu (cpu.cp0.tlb i)).cp0.reg mipsCp0Index).setWidth 32) = some i := by
    rw [reg_tlbRead_of_ne _ _ (by decide)]
    exact hi
  rw [tlbr_eq hi, tlbwi_eq hindex, newEntry_of_regs hn (tlbRegs_tlbRead cpu _)]
  simp only [Cpu.setTlb, cp0_unmap]
  exact Function.update_eq_self _ _

end Rounds

theorem round_trips (h : ∀ i, (cpu.cp0.tlb i).Normal) : TlbRoundTrips cpu := by
  cases hi : tlbIndex cpu ((cpu.cp0.reg mipsCp0Index).setWidth 32) with
  | none =>
    have hread : cp0ExecTlbr cpu = cpu := by simp only [cp0ExecTlbr, hi]
    have hwrite : cp0ExecTlbwi cpu = cpu := by simp only [cp0ExecTlbwi, cp0ExecTlbw, hi]
    have hround : writeRead cpu = cpu := by rw [writeRead, hwrite, hread]
    refine ⟨fun i h' => ?_, by rw [hround, hround], by rw [hread, hwrite]⟩
    rw [hi] at h'
    cases h'
  | some i =>
    refine ⟨fun _ _ => tlbRegs_writeRead hi, ?_, tlb_readWrite hi (h i)⟩
    refine writeRead_self (index_writeRead hi) ?_ ?_
    · rw [tlb_writeRead hi]
      exact normal_newEntry _
    · rw [tlb_writeRead hi, tlbRegs_writeRead hi, regs_newEntry]

/-! Runs: every entry is in its normal form. -/

def TlbNormal (cpu : Cpu W) : Prop := ∀ i, (cpu.cp0.tlb i).Normal

theorem TlbNormal.of_mtsState (h : TlbNormal cpu) (hs : cpu'.mtsState = cpu.mtsState) :
    TlbNormal cpu' := by
  have htlb : cpu'.cp0.tlb = cpu.cp0.tlb := congrArg (fun s => s.xlate.tlb) hs
  rwa [TlbNormal, htlb]

theorem TlbNormal.congr (h : TlbNormal cpu) (hs : cpu'.fetchState = cpu.fetchState) :
    TlbNormal cpu' :=
  h.of_mtsState (congrArg Prod.fst hs)

theorem accessSpecial_normal {vaddr : BitVec 64} (h : TlbNormal cpu) (data : BitVec 64)
    (mask : MtsAcc) (opCode : MemOp) (opType : MtsOp) :
    (accessSpecial cpu vaddr mask opCode opType data).Post TlbNormal TlbNormal := by
  have hbad : mipsCp0TlbHi ≠ mipsCp0Badvaddr := by decide
  have hexc : ∀ (mid : Cpu W) exc, TlbNormal mid →
      TlbNormal (triggerException (mid.setCp0 mipsCp0Badvaddr vaddr) exc false) :=
    fun mid exc hmid =>
    hmid.congr ((fetchState_triggerException _ _ _).trans (fetchState_setCp0 _ _ hbad))
  cases mask with
  | u => exact h
  | t =>
    simp only [accessSpecial]
    split
    · exact h
    · refine hexc _ _ ?_
      split <;> exact h
  | ae =>
    simp only [accessSpecial]
    split
    · exact h
    · exact hexc _ _ h

theorem mtsMap_normal (h : TlbNormal cpu) (opType : MtsOp) (map : MtsMap) (bucket : BitVec 14) :
    (mtsMap env cpu opType map bucket).Post TlbNormal TlbNormal := by
  simp only [mtsMap]
  split
  · exact h
  · split
    · split
      · trivial
      · exact h
    · split
      · exact h
      · exact h

theorem access_normal {a : Access W} (h : TlbNormal a.cpu) :
    (a.run env).Post TlbNormal TlbNormal := by
  simp only [Access.run, mtsAccess]
  split
  · exact h
  · refine Outcome.Post.bind (Q := TlbNormal) ?_ fun res mid hmid => ?_
    · simp only [slowLookup]
      split
      · exact (accessSpecial_normal h _ _ _ _).bind fun _ _ hmid => hmid
      · refine (mtsMap_normal h _ _ _).bind fun entry mid hmid => ?_
        split
        · exact hmid
        · exact (accessSpecial_normal hmid _ _ _ _).bind fun _ _ hmid => hmid
    · split
      · exact hmid
      · simp only [accessEntry, devAccessFast]
        split
        · split
          · exact hmid
          · simp only [Outcome.Post]
            split <;> exact hmid
        · exact hmid

theorem execFetch_normal {pc : BitVec 64} (h : TlbNormal cpu) :
    (execFetch env cpu pc).Post TlbNormal TlbNormal := by
  simp only [execFetch]
  refine Outcome.Post.bind (Q := TlbNormal) ?_ fun _ mid hmid => ?_
  · split
    · have hmoved : TlbNormal { cpu with njmExecPage := pc &&& ~~~mipsMinPageImask } := h
      have hlookup : (mtsLookup env { cpu with njmExecPage := pc &&& ~~~mipsMinPageImask }
          (pc &&& ~~~mipsMinPageImask)).Post TlbNormal TlbNormal :=
        Outcome.Post.bind (@access_normal W env (readAt env _ _ .lookup 4) hmoved)
          fun _ _ hmid => hmid
      exact hlookup.bind fun _ _ hmid => hmid
    · exact h
  · split
    · exact hmid
    · trivial

theorem tlbw_normal (h : TlbNormal cpu) (index : BitVec 32) :
    TlbNormal (cp0ExecTlbw cpu index) := by
  simp only [cp0ExecTlbw]
  split
  · rename_i i _
    intro j
    simp only [Cpu.setTlb, cp0_unmap]
    by_cases hj : j = i
    · rw [hj, Function.update_self]
      exact normal_newEntry _
    · rw [Function.update_of_ne hj]
      exact h j
  · exact h

theorem tlb_cp0SetReg {reg : RegNum} {val : BitVec 64} (h : cp0SetReg cpu reg val = some cpu') :
    cpu'.cp0.tlb = cpu.cp0.tlb := by
  by_cases hreg : reg = mipsCp0TlbHi
  · rw [hreg, cp0SetReg_tlbHi] at h
    cases h
    rfl
  · exact congrArg (fun s => s.xlate.tlb) (mtsState_cp0SetReg (Ne.symm hreg) h)

theorem cop_normal {f : Cpu W → Insn → Option (Cpu W)} (hf : execOf insn = .cop f)
    (h : TlbNormal cpu) (hsome : f cpu insn = some cpu') : TlbNormal cpu' := by
  cases copEffect hf hsome with
  | frame => exact h
  | move val cpu' hm hval hset => rwa [TlbNormal, tlb_cp0SetReg hset]
  | tlbp => exact h.of_mtsState (mtsState_tlbp cpu)
  | tlbr hi =>
    simp only [cp0ExecTlbr]
    split <;> exact h
  | tlbwi hi => exact tlbw_normal h _
  | tlbwr index hi hindex => exact tlbw_normal h index

theorem normal_invariant :
    TurnInvariant env TlbNormal (fun _ => True) fun (_ : Cpu W) _ => True where
  congr h hs := h.congr hs
  access h _ := access_normal h
  fetch h _ := execFetch_normal h
  cop hf h _ hsome := cop_normal hf h hsome

/-- In every state of a run from the reset, the TLB instructions undo each other. -/
theorem tlb_round_trips {depth : Nat} {s t : Cpu W} {trace : List (Cpu W × CpuEvent W)}
    (hrun : CpuRun env depth s trace t) (hreset : ∀ i, s.cp0.tlb i = ⟨0, 0, 0, 0⟩) :
    Always TlbRoundTrips trace t := by
  have hstart : TlbNormal s := by
    intro i
    rw [hreset i]
    constructor <;> rfl
  have hall : Always TlbNormal trace t := by
    refine hrun.always (fun cpu e cpu' h hs => ?_) hstart
    cases e with
    | turn =>
      exact (turn_preserves normal_invariant h (fun _ _ => trivial) fun _ _ => trivial).2 cpu' hs
    | outside shared rebuild =>
      simp only [CpuStep] at hs
      subst hs
      split <;> exact h
  exact ⟨round_trips hall.1, fun x hx => round_trips (hall.2 x hx)⟩

/-- `tlbwi` with a global entry of 16 KB pages in the registers -/
def globalCpu : Cpu Unit :=
  (((ramCpu [tlbwiInsn] (fun _ => 0) fun _ => ⟨0, 0, 0, 0⟩).setCp0 mipsCp0Pagemask 0x7fff).setCp0
    mipsCp0TlbHi 0x12345678).setCp0 mipsCp0TlbLo0 0x7

def globalTrace : List (Cpu Unit × CpuEvent Unit) := [(globalCpu, .turn)]

theorem tlb_round_trips_global : ∃ t, CpuRun quietEnv 1 globalCpu globalTrace t ∧
    (t.cp0.tlb ⟨0, by decide⟩).mask = 0x6000 ∧ Always TlbRoundTrips globalTrace t := by
  have hturn : (execTurn quietEnv 1 globalCpu).any fun t =>
      (t.cp0.tlb ⟨0, by decide⟩).mask == 0x6000 := by decide
  simp only [Option.any_eq_true, beq_iff_eq] at hturn
  obtain ⟨t, ht, hmask⟩ := hturn
  have hstep : CpuStep quietEnv 1 globalCpu .turn t := ht
  have hrun : CpuRun quietEnv 1 globalCpu globalTrace t := Run.cons hstep Run.start
  exact ⟨t, hrun, hmask, tlb_round_trips hrun fun _ => rfl⟩

end Dynamips.Mips64
