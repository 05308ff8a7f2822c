import Dynamips.Mips64MtsRun

/-! The registers Count and Compare. Count is derived from Compare and a virtual
counter, which every instruction advances and every write of the two restarts. -/
set_option autoImplicit false

namespace Dynamips.Mips64
open Runs

variable {W : Type} {env : Env W} {cpu cpu' : Cpu W} {insn : Insn}

structure Clock where
  virtCnt : BitVec 32
  virtCmp : BitVec 32
  compare : BitVec 32
  divisor : BitVec 32

def Cpu.clock (cpu : Cpu W) : Clock where
  virtCnt := cpu.cp0VirtCntReg
  virtCmp := cpu.cp0VirtCmpReg
  compare := (cpu.cp0.reg mipsCp0Compare).setWidth 32
  divisor := cpu.vm.clockDivisor

def Clock.count (c : Clock) : BitVec 32 := c.compare - c.divisor * (c.virtCmp - c.virtCnt)

def Clock.tick (c : Clock) : Clock := { c with virtCnt := c.virtCnt + 1 }

def Clock.restart (c : Clock) (compare delta : BitVec 32) : Clock :=
  { c with virtCnt := 0, virtCmp := delta / c.divisor, compare := compare }

theorem cp0GetReg_count (cpu : Cpu W) :
    cp0GetReg cpu mipsCp0Count = some (signExtend (cpu.clock.count.setWidth 64) 32) := rfl

theorem cp0GetReg_compare (cpu : Cpu W) :
    cp0GetReg cpu mipsCp0Compare = some (signExtend (cpu.clock.compare.setWidth 64) 32) := by
  have hread : cp0GetReg cpu mipsCp0Compare =
      some (signExtend (cpu.cp0.reg mipsCp0Compare) 32) := rfl
  rw [hread, Option.some.injEq]
  apply BitVec.eq_of_getLsbD_eq
  intro i hi
  have hlow : min i (32 - 1) < 32 := by omega
  have hin : min i (32 - 1) < 64 := by omega
  rw [signExtend_getLsbD _ (by decide) (by decide) hi,
    signExtend_getLsbD _ (by decide) (by decide) hi, BitVec.getLsbD_setWidth, Cpu.clock,
    BitVec.getLsbD_setWidth]
  simp [hlow, hin]

theorem count_tick (c : Clock) : c.tick.count = c.count + c.divisor := by
  simp only [Clock.count, Clock.tick]
  grind

theorem mul_udiv (x d : BitVec 32) : d * (x / d) = x - x % d := by
  have hx := x.isLt
  have hdiv := Nat.div_add_mod x.toNat d.toNat
  apply BitVec.eq_of_toNat_eq
  rw [BitVec.toNat_mul, BitVec.toNat_udiv, BitVec.toNat_sub, BitVec.toNat_umod]
  omega

theorem count_restart (c : Clock) (compare delta : BitVec 32) :
    (c.restart compare delta).count = compare - delta + delta % c.divisor := by
  have h := mul_udiv delta c.divisor
  simp only [Clock.count, Clock.restart] at h ⊢
  grind

/-! What leaves the clock alone. -/

theorem clock_setCp0 (cpu : Cpu W) {reg : RegNum} (val : BitVec 64) (h : mipsCp0Compare ≠ reg) :
    (cpu.setCp0 reg val).clock = cpu.clock := by
  simp only [Cpu.clock, Cpu.reg_setCp0_ne _ _ h]
  rfl

@[simp] theorem clock_updateIrqFlag (cpu : Cpu W) : (updateIrqFlag cpu).clock = cpu.clock := by
  have hcause : mipsCp0Compare ≠ mipsCp0Cause := by decide
  simp only [updateIrqFlag]
  split
  · exact clock_setCp0 _ _ hcause
  · exact clock_setCp0 _ _ hcause

theorem clock_triggerException (cpu : Cpu W) (exc : ExcCode) (bdSlot : Bool) :
    (triggerException cpu exc bdSlot).clock = cpu.clock := by
  have hepc : mipsCp0Compare ≠ mipsCp0Epc := by decide
  have hcause : mipsCp0Compare ≠ mipsCp0Cause := by decide
  have hstatus : mipsCp0Compare ≠ mipsCp0Status := by decide
  simp only [triggerException, Cpu.clock]
  split <;> simp [Cpu.setCp0, hepc, hcause, hstatus]

theorem clock_eret (cpu : Cpu W) : (eret cpu).clock = cpu.clock := by
  have hstatus : mipsCp0Compare ≠ mipsCp0Status := by decide
  simp only [eret, clock_updateIrqFlag]
  exact clock_setCp0 _ _ hstatus

theorem clock_triggerIrq (cpu : Cpu W) : (triggerIrq cpu).clock = cpu.clock := by
  simp only [triggerIrq]
  split
  · rfl
  split
  · rw [clock_triggerException, clock_updateIrqFlag]
  · exact clock_updateIrqFlag cpu

theorem clock_triggerTimerIrq (cpu : Cpu W) : (triggerTimerIrq cpu).clock = cpu.clock := by
  have hcount : mipsCp0Compare ≠ mipsCp0Count := by decide
  simp only [triggerTimerIrq, clock_updateIrqFlag]
  exact clock_setCp0 _ _ hcount

theorem clock_execHead (cpu : Cpu W) : (execHead cpu).clock = cpu.clock := by
  have htimer : (execTimer cpu).clock = cpu.clock := by
    simp only [execTimer]
    split
    · split
      · exact (clock_triggerIrq _).trans (clock_triggerTimerIrq _)
      · rfl
    · rfl
  exact htimer

theorem clock_foldl {α : Type} {f : Cpu W → α → Cpu W}
    (hf : ∀ cpu a, (f cpu a).clock = cpu.clock) (l : List α) (cpu : Cpu W) :
    (l.foldl f cpu).clock = cpu.clock := by
  induction l generalizing cpu with
  | nil => rfl
  | cons a l ih => rw [List.foldl_cons, ih, hf]

theorem clock_tlbp (cpu : Cpu W) : (cp0ExecTlbp cpu).clock = cpu.clock := by
  have hindex : mipsCp0Compare ≠ mipsCp0Index := by decide
  simp only [cp0ExecTlbp]
  rw [clock_foldl, clock_setCp0 _ _ hindex]
  intro mid i
  split
  · exact clock_setCp0 _ _ hindex
  · rfl

/-- No device changes the clock divisor, which is a setting of the VM. -/
def KeepsDivisor (env : Env W) : Prop :=
  ∀ dev offset opSize opType data shared,
    (env.handler dev offset opSize opType data shared).shared.vm.clockDivisor =
      shared.vm.clockDivisor

def Outcome.Clocked {α : Type} (o : Outcome W α) (c : Clock) : Prop :=
  o.Post (fun cpu => cpu.clock = c) (fun cpu => cpu.clock = c)

section Accesses

variable {c : Clock} {vaddr : BitVec 64}

theorem accessSpecial_clock (h : cpu.clock = c) (data : BitVec 64) (mask : MtsAcc)
    (opCode : MemOp) (opType : MtsOp) :
    (accessSpecial cpu vaddr mask opCode opType data).Clocked c := by
  have hbad : mipsCp0Compare ≠ mipsCp0Badvaddr := by decide
  have hexc : ∀ (mid : Cpu W) exc, mid.clock = cpu.clock →
      (triggerException (mid.setCp0 mipsCp0Badvaddr vaddr) exc false).clock = c := by
    intro mid exc hmid
    rw [clock_triggerException, clock_setCp0 _ _ hbad, hmid, h]
  cases mask with
  | u => exact h
  | t =>
    simp only [accessSpecial]
    split
    · exact h
    · refine hexc _ _ ?_
      split <;> rfl
  | ae =>
    simp only [accessSpecial]
    split
    · exact h
    · exact hexc _ _ rfl

theorem devSparseGetHostAddr_divisor {vm vm' : Vm W} {dev : VDevice} {paddr : BitVec 64}
    {opType : MtsOp} {ptr : HostAddr} {cow : Bool}
    (h : devSparseGetHostAddr vm dev paddr opType = some (ptr, cow, vm')) :
    vm'.clockDivisor = vm.clockDivisor := by
  simp only [devSparseGetHostAddr] at h
  split at h
  · cases h
    rfl
  split at h
  · simp only [vmAllocHostPage, Option.bind_eq_bind, Option.bind_eq_some_iff,
      Option.map_eq_some_iff] at h
    obtain ⟨_, ⟨page, -, rfl⟩, h⟩ := h
    cases h
    rfl
  · cases opType with
    | read =>
      cases h
      rfl
    | write =>
      simp only [vmAllocHostPage, Option.bind_eq_bind, Option.bind_eq_some_iff,
        Option.map_eq_some_iff] at h
      obtain ⟨_, ⟨page, -, rfl⟩, h⟩ := h
      cases h
      rfl

theorem mtsMap_clock (h : cpu.clock = c) (opType : MtsOp) (map : MtsMap) (bucket : BitVec 14) :
    (mtsMap env cpu opType map bucket).Clocked c := by
  simp only [mtsMap]
  split
  · exact h
  · rename_i dev _
    split
    · split
      · trivial
      · rename_i ptr cow vm hsparse
        have hdiv := devSparseGetHostAddr_divisor hsparse
        rw [← h]
        simp only [Outcome.Clocked, Outcome.Post, Cpu.clock, Cpu.setMts, hdiv]
    · split
      · exact h
      · exact h

theorem devAccessFast_clock (henv : KeepsDivisor env) (h : cpu.clock = c) (devId : BitVec 6)
    (offset : BitVec 32) (opSize : Nat) (opType : MtsOp) (data : BitVec 64) :
    (devAccessFast env cpu devId offset opSize opType data).Clocked c := by
  simp only [devAccessFast]
  split
  · exact h
  · rename_i dev _
    have hdiv := henv dev offset opSize opType data cpu.toShared
    have hreply : Cpu.clock { cpu with toShared :=
        (env.handler dev offset opSize opType data cpu.toShared).shared } = c := by
      rw [← h]
      simp only [Cpu.clock, hdiv]
    simp only [Outcome.Clocked, Outcome.Post]
    split
    · exact hreply
    · exact hreply

theorem mtsAccess_clock (henv : KeepsDivisor env) (h : cpu.clock = c) (opCode : MemOp)
    (opSize : Nat) (opType : MtsOp) (data : BitVec 64) :
    (mtsAccess env cpu vaddr opCode opSize opType data).Clocked c := by
  simp only [mtsAccess]
  split
  · exact h
  · refine Outcome.Post.bind (Q := fun cpu => cpu.clock = c) ?_ fun res mid hmid => ?_
    · simp only [slowLookup]
      split
      · exact (accessSpecial_clock h _ _ _ _).bind fun _ _ hmid => hmid
      · refine (mtsMap_clock h _ _ _).bind fun entry mid hmid => ?_
        split
        · exact hmid
        · exact (accessSpecial_clock hmid _ _ _ _).bind fun _ _ hmid => hmid
    · split
      · exact hmid
      · simp only [accessEntry]
        split
        · exact devAccessFast_clock henv hmid _ _ _ _ _
        · exact hmid

theorem mtsRead_clock (henv : KeepsDivisor env) (h : cpu.clock = c) (op : MemOp) (size : Nat) :
    (mtsRead env cpu vaddr op size).Clocked c := by
  refine (mtsAccess_clock henv h _ _ _ _).bind fun res mid hmid => ?_
  split
  · exact hmid
  · exact hmid

theorem mtsWrite_clock (henv : KeepsDivisor env) (h : cpu.clock = c) (op : MemOp) (size : Nat)
    (data : BitVec 64) : (mtsWrite env cpu vaddr op size data).Clocked c := by
  refine (mtsAccess_clock henv h _ _ _ _).bind fun res mid hmid => ?_
  split
  · exact hmid
  · exact hmid

theorem memOpFn_clock (henv : KeepsDivisor env) (h : cpu.clock = c) (op : MemOp) (reg : RegNum) :
    (memOpFn op env cpu vaddr reg).Clocked c := by
  cases op with
  | lb | lbu | lh | lhu | lw | lwu | ld | lwl | lwr | ldl | ldr | ll | ldc1 =>
    exact (mtsRead_clock henv h _ _).bind fun _ _ hmid => hmid
  | sb | sh | sw | sd | sdc1 => exact mtsWrite_clock henv h _ _ _
  | swl | swr | sdl | sdr =>
    exact (mtsRead_clock henv h _ _).bind fun _ _ hmid => mtsWrite_clock henv hmid _ _ _
  | sc =>
    simp only [memOpFn, mtsSc]
    split
    · exact (mtsWrite_clock henv h _ _ _).bind fun _ _ hmid => hmid
    · exact h
  | cache | lookup => exact h

theorem mtsLookup_clock (henv : KeepsDivisor env) (h : cpu.clock = c) :
    (mtsLookup env cpu vaddr).Clocked c :=
  (mtsAccess_clock henv h _ _ _ _).bind fun _ _ hmid => hmid

theorem execFetch_clock (henv : KeepsDivisor env) (h : cpu.clock = c) :
    (execFetch env cpu vaddr).Clocked c := by
  simp only [execFetch]
  refine Outcome.Post.bind (Q := fun cpu => cpu.clock = c) ?_ fun _ mid hmid => ?_
  · split
    · refine Outcome.Post.bind (mtsLookup_clock henv ?_) fun _ _ hmid => ?_
      · exact h
      · exact hmid
    · exact h
  · split
    · exact hmid
    · trivial

theorem dumpRegs_clock (henv : KeepsDivisor env) (h : cpu.clock = c) :
    (dumpRegs env cpu).Clocked c := by
  refine (mtsLookup_clock henv h).bind fun _ mid hmid => ?_
  split
  · exact hmid
  · trivial

end Accesses

/-! The instructions. -/

def writesCp0 (reg : RegNum) (insn : Insn) : Prop := movesToCp0 insn ∧ rd insn = reg

instance (reg : RegNum) (insn : Insn) : Decidable (writesCp0 reg insn) :=
  inferInstanceAs (Decidable (_ ∧ _))

def operand (cpu : Cpu W) (insn : Insn) : BitVec 32 := (cpu.gpr (rt insn)).setWidth 32

/-- The register that holds Count when it was last written or the timer expired. -/
def storedCount (cpu : Cpu W) : BitVec 32 := (cpu.cp0.reg mipsCp0Count).setWidth 32

def clockAfter (cpu : Cpu W) (insn : Insn) : Clock :=
  if writesCp0 mipsCp0Count insn then
    cpu.clock.restart cpu.clock.compare (cpu.clock.compare - operand cpu insn)
  else if writesCp0 mipsCp0Compare insn then
    cpu.clock.restart (operand cpu insn) (operand cpu insn - storedCount cpu)
  else cpu.clock.tick

theorem clock_setVirtCmp {delta : BitVec 32} (h : setVirtCmp cpu delta = some cpu') :
    cpu'.clock = cpu.clock.restart cpu.clock.compare delta := by
  simp only [setVirtCmp] at h
  split at h
  · cases h
  · cases h
    rfl

theorem clock_cp0SetReg {reg : RegNum} {val : BitVec 64} (hcount : reg ≠ mipsCp0Count)
    (hcompare : mipsCp0Compare ≠ reg) (h : cp0SetReg cpu reg val = some cpu') :
    cpu'.clock = cpu.clock := by
  simp only [cp0SetReg, hcount, hcompare.symm, if_false] at h
  split_ifs at h
  · cases h
    rw [clock_updateIrqFlag, clock_setCp0 _ _ hcompare]
  · cases h
    exact clock_setCp0 _ _ hcompare
  · cases h
    exact clock_setCp0 _ _ hcompare
  · cases h
    exact clock_setCp0 _ _ hcompare
  · cases h
    rfl
  · cases h
    exact clock_setCp0 _ _ hcompare
  · cases h
    exact clock_setCp0 _ _ hcompare

theorem setWidth_sub (x y : BitVec 64) :
    (x - y).setWidth 32 = x.setWidth 32 - y.setWidth 32 := by
  rw [BitVec.sub_eq_add_neg, BitVec.setWidth_add _ _ (by decide),
    BitVec.setWidth_neg_of_le (by decide), ← BitVec.sub_eq_add_neg]

theorem clock_setCount {val : BitVec 64} (h : cp0SetReg cpu mipsCp0Count val = some cpu') :
    cpu'.clock = cpu.clock.restart cpu.clock.compare (cpu.clock.compare - val.setWidth 32) := by
  have hcount : mipsCp0Compare ≠ mipsCp0Count := by decide
  have hset : cp0SetReg cpu mipsCp0Count val = setVirtCmp (cpu.setCp0 mipsCp0Count val)
      (((cpu.setCp0 mipsCp0Count val).cp0.reg mipsCp0Compare - val).setWidth 32) := rfl
  rw [hset] at h
  rw [clock_setVirtCmp h, clock_setCp0 _ _ hcount, setWidth_sub, Cpu.reg_setCp0_ne _ _ hcount]
  rfl

theorem clock_setCompare {val : BitVec 64} (h : cp0SetReg cpu mipsCp0Compare val = some cpu') :
    cpu'.clock = cpu.clock.restart (val.setWidth 32) (val.setWidth 32 - storedCount cpu) := by
  have hcount : mipsCp0Count ≠ mipsCp0Compare := by decide
  have hcause : mipsCp0Count ≠ mipsCp0Cause := by decide
  have hstored : (updateIrqFlag (clearIrq cpu 7)).cp0.reg mipsCp0Count =
      cpu.cp0.reg mipsCp0Count := by
    simp only [updateIrqFlag]
    split
    · exact Cpu.reg_setCp0_ne _ _ hcause
    · exact Cpu.reg_setCp0_ne _ _ hcause
  have hset : cp0SetReg cpu mipsCp0Compare val =
      setVirtCmp ((updateIrqFlag (clearIrq cpu 7)).setCp0 mipsCp0Compare val)
        ((val - ((updateIrqFlag (clearIrq cpu 7)).setCp0 mipsCp0Compare val).cp0.reg
          mipsCp0Count).setWidth 32) := rfl
  rw [hset] at h
  rw [clock_setVirtCmp h, setWidth_sub, Cpu.reg_setCp0_ne _ _ hcount, hstored]
  have hclear : (updateIrqFlag (clearIrq cpu 7)).clock = cpu.clock := clock_updateIrqFlag _
  have hrest : ((updateIrqFlag (clearIrq cpu 7)).setCp0 mipsCp0Compare val).clock =
      { (updateIrqFlag (clearIrq cpu 7)).clock with compare := val.setWidth 32 } := by
    simp only [Cpu.clock, Cpu.reg_setCp0_self]
    rfl
  rw [hrest, hclear]
  rfl

theorem clock_incCp0Cnt (cpu : Cpu W) : (incCp0Cnt cpu).clock = cpu.clock.tick := rfl

theorem clock_move {val : BitVec 64} (hm : movesToCp0 insn)
    (hval : val.setWidth 32 = operand cpu insn)
    (h : cp0SetReg (incCp0Cnt cpu) (rd insn) val = some cpu') :
    cpu'.clock = clockAfter cpu insn := by
  by_cases hcount : rd insn = mipsCp0Count
  · rw [hcount] at h
    rw [clock_setCount h, clockAfter, if_pos ⟨hm, hcount⟩, hval]
    rfl
  have hcount' : ¬ writesCp0 mipsCp0Count insn := fun hw => hcount hw.2
  by_cases hcompare : rd insn = mipsCp0Compare
  · rw [hcompare] at h
    rw [clock_setCompare h, clockAfter, if_neg hcount', if_pos ⟨hm, hcompare⟩, hval]
    rfl
  have hcompare' : ¬ writesCp0 mipsCp0Compare insn := fun hw => hcompare hw.2
  rw [clock_cp0SetReg hcount (Ne.symm hcompare) h, clockAfter, if_neg hcount', if_neg hcompare']
  rfl

theorem clockAfter_of_not_move (hm : ¬ movesToCp0 insn) : clockAfter cpu insn = cpu.clock.tick := by
  have hcount : ¬ writesCp0 mipsCp0Count insn := fun hw => hm hw.1
  have hcompare : ¬ writesCp0 mipsCp0Compare insn := fun hw => hm hw.1
  rw [clockAfter, if_neg hcount, if_neg hcompare]

theorem clock_tlbRead (cpu : Cpu W) (entry : TlbEntry) : (tlbRead cpu entry).clock = cpu.clock := by
  have hmask : mipsCp0Compare ≠ mipsCp0Pagemask := by decide
  have hhi : mipsCp0Compare ≠ mipsCp0TlbHi := by decide
  have hlo0 : mipsCp0Compare ≠ mipsCp0TlbLo0 := by decide
  have hlo1 : mipsCp0Compare ≠ mipsCp0TlbLo1 := by decide
  simp only [tlbRead]
  rw [clock_setCp0 _ _ hlo1, clock_setCp0 _ _ hlo0, clock_setCp0 _ _ hhi, clock_setCp0 _ _ hmask]

theorem clock_tlbw (cpu : Cpu W) (index : BitVec 32) :
    (cp0ExecTlbw cpu index).clock = cpu.clock := by
  simp only [cp0ExecTlbw]
  split
  · rename_i i _
    have hunmap : (cp0UnmapTlbToMts cpu i).clock = cpu.clock := by
      obtain ⟨-, heq⟩ | ⟨-, heq⟩ := @cp0UnmapTlbToMts_eq W cpu i
      · rw [heq]
        rfl
      · rw [heq]
    rw [← hunmap]
    rfl
  · rfl

theorem clock_cop {f : Cpu W → Insn → Option (Cpu W)} (hf : execOf insn = .cop f)
    (hm : ¬ movesToCp0 insn) (hsome : f cpu insn = some cpu') : cpu'.clock = cpu.clock := by
  cases copEffect hf hsome with
  | frame => rfl
  | move val cpu' hmove hval hset => exact absurd hmove hm
  | tlbp => exact clock_tlbp cpu
  | tlbr hi =>
    simp only [cp0ExecTlbr]
    split
    · exact clock_tlbRead _ _
    · rfl
  | tlbwi hi => exact clock_tlbw _ _
  | tlbwr index hi hindex => exact clock_tlbw _ _

theorem clock_ctl {f : Cpu W → Insn → Bool × Cpu W} (hf : execOf insn = .ctl f) :
    (f cpu insn).2.clock = cpu.clock := by
  obtain ⟨key, hctl, -⟩ := mem_ctlTags hf
  have htrap : ∀ a b, (trapIfEq cpu a b).2.clock = cpu.clock := by
    intro a b
    simp only [trapIfEq]
    split
    · exact clock_triggerException _ _ _
    · rfl
  simp only [ctlTags_eq, List.mem_cons, Prod.mk.injEq, List.not_mem_nil, or_false] at hctl
  obtain ⟨-, rfl⟩ | ⟨-, rfl⟩ | ⟨-, rfl⟩ | ⟨-, rfl⟩ := hctl
  · exact clock_eret cpu
  · exact clock_triggerException _ _ _
  · exact htrap _ _
  · exact htrap _ _

theorem execOf_move (hm : movesToCp0 insn) : ∃ f : Cpu W → Insn → Option (Cpu W),
    execOf insn = .cop f ∧ ∀ cpu : Cpu W, ∃ val, f cpu insn = cp0SetReg cpu (rd insn) val ∧
      val.setWidth 32 = operand cpu insn := by
  cases hm with
  | inl h =>
    refine ⟨execMTC0, execOf_eq 74 rfl (by decide) h, fun cpu => ⟨_, rfl, ?_⟩⟩
    rw [operand, BitVec.setWidth_and]
    exact BitVec.and_allOnes
  | inr h => exact ⟨execDMTC0, execOf_eq 38 rfl (by decide) h, fun cpu => ⟨_, rfl, rfl⟩⟩

theorem not_movesToCp0 (h : ∀ f : Cpu W → Insn → Option (Cpu W), execOf insn ≠ .cop f) :
    ¬ movesToCp0 insn := by
  intro hm
  obtain ⟨f, hf, -⟩ := @execOf_move W insn hm
  exact h f hf

theorem Outcome.Clocked.post {α : Type} {o : Outcome W α} {c : Clock} {P : Clock → Prop}
    (h : o.Clocked c) (hp : P c) : o.Post (fun cpu => P cpu.clock) fun cpu => P cpu.clock := by
  cases o with
  | done a mid =>
    have hmid : mid.clock = c := h
    simpa only [Outcome.Post, hmid] using hp
  | loopEnter mid =>
    have hmid : mid.clock = c := h
    simpa only [Outcome.Post, hmid] using hp
  | fault => trivial

theorem clock_slotEntry (h : slotEntry cpu insn = some cpu') : cpu'.clock = cpu.clock.tick := by
  obtain ⟨b, -, -, rfl⟩ := slotEntry_eq_some.mp h
  rfl

theorem clockAfter_slotEntry (h : slotEntry cpu insn = some cpu') :
    clockAfter cpu insn = cpu.clock.tick := by
  obtain ⟨b, hb, -, -⟩ := slotEntry_eq_some.mp h
  obtain ⟨f, hexec, -⟩ := branchOf_eq_some.mp hb
  refine clockAfter_of_not_move (@not_movesToCp0 W insn fun g hg => ?_)
  rw [hexec] at hg
  cases hg

/-- One instruction, over what runs its delay slot. -/
theorem execInsn_clock {slot : Cpu W → Outcome W Unit} {P : Clock → Prop} (henv : KeepsDivisor env)
    (h : slotEntry cpu insn = none → P (clockAfter cpu insn))
    (hslot : ∀ mid, slotEntry cpu insn = some mid →
      (slot mid).Post (fun cpu => P cpu.clock) fun cpu => P cpu.clock) :
    (execInsn env slot cpu insn).Post (fun cpu => P cpu.clock) fun cpu => P cpu.clock := by
  have hnone : (∀ f, (execOf insn : InsnExec W) ≠ .branch f) → P (clockAfter cpu insn) := by
    intro hb
    have hbranch : branchOf cpu insn = none := by
      rw [Option.eq_none_iff_forall_not_mem]
      intro b hmem
      obtain ⟨f, hf, -⟩ := branchOf_eq_some.mp hmem
      exact hb f hf
    exact h (by rw [slotEntry, hbranch])
  have htick : (∀ f, (execOf insn : InsnExec W) ≠ .branch f) →
      (∀ f, (execOf insn : InsnExec W) ≠ .cop f) → P cpu.clock.tick := by
    intro hb hc
    have hafter := @clockAfter_of_not_move W cpu insn (not_movesToCp0 hc)
    exact hafter ▸ hnone hb
  simp only [execInsn]
  cases hexec : (execOf insn : InsnExec W) with
  | alu f =>
    simp only [hexec, reduceCtorEq, ne_eq, not_false_eq_true, implies_true, true_implies] at htick
    exact Outcome.Post.bind (Q := fun mid => P mid.clock) (Outcome.post_ofOption _ htick)
      fun _ _ hmid => hmid
  | branch f =>
    have hb : branchOf cpu insn = some (f cpu.toRegs cpu.pc insn) :=
      branchOf_eq_some.mpr ⟨f, hexec, rfl⟩
    change (execBranch slot (incCp0Cnt cpu) (f cpu.toRegs cpu.pc insn)).Post _ _
    simp only [execBranch]
    split
    · rename_i hl
      have hentry : slotEntry cpu insn = none := by
        simp only [slotEntry, hb, hl, if_true]
      have hm : ¬ movesToCp0 insn := @not_movesToCp0 W insn fun g hg => by
        rw [hexec] at hg
        cases hg
      have hp := h hentry
      rw [clockAfter_of_not_move hm] at hp
      exact hp
    · rename_i hl
      refine (hslot _ ?_).bind fun _ _ hmid => hmid
      exact slotEntry_eq_some.mpr ⟨_, hb, by simpa using hl, rfl⟩
  | cop f =>
    simp only [hexec, reduceCtorEq, ne_eq, not_false_eq_true, implies_true, true_implies] at hnone
    simp only
    cases hf : f (incCp0Cnt cpu) insn with
    | none => trivial
    | some after =>
      have hafter : after.clock = clockAfter cpu insn := by
        by_cases hm : movesToCp0 insn
        · obtain ⟨g, hg, hval⟩ := @execOf_move W insn hm
          rw [hexec, InsnExec.cop.injEq] at hg
          obtain ⟨val, hset, hop⟩ := hval (incCp0Cnt cpu)
          rw [hg, hset] at hf
          exact clock_move hm hop hf
        · rw [clock_cop hexec hm hf, clockAfter_of_not_move hm]
          rfl
      have hp : P after.clock := hafter ▸ hnone
      exact hp
  | ctl f =>
    simp only [hexec, reduceCtorEq, ne_eq, not_false_eq_true, implies_true, true_implies] at htick
    have hctl : (f (incCp0Cnt cpu) insn).2.clock = cpu.clock.tick := clock_ctl hexec
    simpa only [Outcome.Post, hctl] using htick
  | dump f =>
    simp only [hexec, reduceCtorEq, ne_eq, not_false_eq_true, implies_true, true_implies] at htick
    have hdump : (dumpRegs env (incCp0Cnt cpu)).Clocked cpu.clock.tick := dumpRegs_clock henv rfl
    refine Outcome.Clocked.post ?_ htick
    cases dump_cases hexec with
    | inl hb =>
      subst hb
      refine hdump.bind fun _ mid hmid => ?_
      exact (clock_triggerException _ _ _).trans hmid
    | inr hu =>
      subst hu
      exact hdump.bind fun _ _ hmid => hmid
  | mem m =>
    simp only [hexec, reduceCtorEq, ne_eq, not_false_eq_true, implies_true, true_implies] at htick
    refine Outcome.Clocked.post ?_ htick
    refine Outcome.Post.bind (memOpFn_clock henv ?_ _ _) fun _ _ hmid => hmid
    split
    · rfl
    · rfl

/-! What was last written, over the instructions that a turn starts. -/

/-- The last writes of Count and of Compare, and the increments of the virtual
counter since the former. -/
structure LastWrites where
  count : BitVec 32
  increments : Nat
  compare : BitVec 32
deriving DecidableEq

def LastWrites.tick (w : LastWrites) : LastWrites := { w with increments := w.increments + 1 }

def LastWrites.after (w : LastWrites) (p : Cpu W × Insn) : LastWrites :=
  if writesCp0 mipsCp0Count p.2 then { w with count := operand p.1 p.2, increments := 0 }
  else if writesCp0 mipsCp0Compare p.2 then { w.tick with compare := operand p.1 p.2 }
  else w.tick

def LastWrites.through (w : LastWrites) (starts : List (Cpu W × Insn)) : LastWrites :=
  starts.foldl LastWrites.after w

section Follows

variable {R : Clock → LastWrites → Prop} {ok : Cpu W × Insn → Prop} {w : LastWrites} {depth : Nat}

/-- The clock agrees with the writes so far wherever one of the instructions starts. -/
def Follows (R : Clock → LastWrites → Prop) (w : LastWrites) (starts : List (Cpu W × Insn)) : Prop :=
  ∀ pre p post, starts = pre ++ p :: post → R p.1.clock (w.through pre)

theorem follows_nil : Follows R w ([] : List (Cpu W × Insn)) := by
  intro pre p post heq
  simp at heq

theorem follows_cons {p : Cpu W × Insn} {starts : List (Cpu W × Insn)} (h : R p.1.clock w)
    (hrest : Follows R (w.after p) starts) : Follows R w (p :: starts) := by
  intro pre q post heq
  cases pre with
  | nil =>
    rw [List.nil_append, List.cons.injEq] at heq
    exact heq.1 ▸ h
  | cons p' pre =>
    rw [List.cons_append, List.cons.injEq] at heq
    obtain ⟨rfl, heq⟩ := heq
    exact hrest pre q post heq

theorem startsFrom_succ (env : Env W) (depth : Nat) (cpu : Cpu W) (insn : Insn) :
    ∃ rest, startsFrom env (depth + 1) cpu insn = (cpu, insn) :: rest ∧
      (slotStart env cpu insn = none → rest = []) ∧
      ∀ next, slotStart env cpu insn = some next → rest = startsFrom env depth next.1 next.2 := by
  simp only [startsFrom]
  cases slotStart env cpu insn with
  | none => exact ⟨_, rfl, by simp⟩
  | some next => exact ⟨_, rfl, by simp⟩

theorem slotFetch_clock {mid : Cpu W} (henv : KeepsDivisor env) (h : slotEntry cpu insn = some mid) :
    (execFetch env mid (mid.pc + 4)).Clocked (clockAfter cpu insn) :=
  execFetch_clock henv ((clock_slotEntry h).trans (clockAfter_slotEntry h).symm)

theorem execSingle_follows (henv : KeepsDivisor env)
    (hstep : ∀ p w, ok p → R p.1.clock w → R (clockAfter p.1 p.2) (w.after p))
    (h : R cpu.clock w) (hok : ∀ p ∈ startsFrom env depth cpu insn, ok p) :
    (execSingleInstruction env depth cpu insn).Post
        (fun cpu' => R cpu'.clock (w.through (startsFrom env depth cpu insn)))
        (fun cpu' => R cpu'.clock (w.through (startsFrom env depth cpu insn))) ∧
      Follows R w (startsFrom env depth cpu insn) := by
  induction depth generalizing cpu insn w with
  | zero => exact ⟨trivial, follows_nil⟩
  | succ depth ih =>
    obtain ⟨rest, heq, hnil, hcons⟩ := startsFrom_succ env depth cpu insn
    rw [heq] at hok ⊢
    obtain ⟨hinsn, hrest⟩ := List.forall_mem_cons.mp hok
    have hafter := hstep (cpu, insn) w hinsn h
    have hslot : ∀ mid, slotEntry cpu insn = some mid →
        (execBdslot env (execSingleInstruction env depth) mid).Post
          (fun cpu' => R cpu'.clock (w.through ((cpu, insn) :: rest)))
          (fun cpu' => R cpu'.clock (w.through ((cpu, insn) :: rest))) ∧
        Follows R (w.after (cpu, insn)) rest := by
      intro mid hmid
      have hclock := slotFetch_clock henv hmid
      simp only [execBdslot]
      cases hf : execFetch env mid (mid.pc + 4) with
      | done slot after =>
        rw [hf] at hclock
        have hstart : after.clock = clockAfter cpu insn := hclock
        have hr := hcons (after, slot) (slotStart_eq_some.mpr ⟨mid, hmid, hf⟩)
        rw [hr] at hrest ⊢
        obtain ⟨hpost, hfollows⟩ := ih (hstart ▸ hafter) hrest
        exact ⟨hpost.bind fun _ _ hm => hm, hfollows⟩
      | loopEnter after =>
        rw [hf] at hclock
        have hstart : after.clock = clockAfter cpu insn := hclock
        rw [hnil (by simp only [slotStart, hmid, hf])]
        refine ⟨?_, follows_nil⟩
        change R after.clock (w.after (cpu, insn))
        exact hstart ▸ hafter
      | fault =>
        rw [hnil (by simp only [slotStart, hmid, hf])]
        exact ⟨trivial, follows_nil⟩
    simp only [execSingleInstruction]
    have hpost := fun hnone => execInsn_clock (P := fun c => R c (w.through ((cpu, insn) :: rest)))
      henv hnone fun mid hmid => (hslot mid hmid).1
    cases hentry : slotEntry cpu insn with
    | none =>
      have hr := hnil (by simp only [slotStart, hentry])
      subst hr
      exact ⟨hpost fun _ => hafter, follows_cons h follows_nil⟩
    | some mid =>
      refine ⟨hpost fun hnone => ?_, follows_cons h (hslot mid hentry).2⟩
      rw [hentry] at hnone
      cases hnone

theorem execTurn_follows (henv : KeepsDivisor env)
    (hstep : ∀ p w, ok p → R p.1.clock w → R (clockAfter p.1 p.2) (w.after p))
    (h : R cpu.clock w) (hok : ∀ p ∈ turnStarts env depth cpu, ok p) :
    Follows R w (turnStarts env depth cpu) ∧ ∀ cpu', execTurn env depth cpu = some cpu' →
      R cpu'.clock (w.through (turnStarts env depth cpu)) := by
  by_cases hstop : cpu.state ≠ .running
  · rw [turnStarts, if_pos (Or.inl hstop)]
    refine ⟨follows_nil, fun cpu' ht => ?_⟩
    rw [execTurn, if_pos hstop] at ht
    cases ht
  by_cases hirq : (execHead cpu).irqPending ≠ 0
  · rw [turnStarts, if_pos (Or.inr hirq)]
    refine ⟨follows_nil, fun cpu' ht => ?_⟩
    simp only [execTurn, if_neg hstop, if_pos hirq, Option.some.injEq] at ht
    rw [← ht, clock_triggerIrq, clock_execHead]
    exact h
  have hfetch := @execFetch_clock W env _ _ (execHead cpu).pc henv (clock_execHead cpu)
  simp only [execTurn, if_neg hstop, if_neg hirq]
  rw [turnStarts, if_neg (not_or.mpr ⟨hstop, hirq⟩)] at hok ⊢
  cases hf : execFetch env (execHead cpu) (execHead cpu).pc with
  | done insn mid =>
    rw [hf] at hfetch
    have hmid : mid.clock = cpu.clock := hfetch
    simp only [hf] at hok ⊢
    obtain ⟨hpost, hfollows⟩ := @execSingle_follows W env mid insn R ok w depth henv hstep
      (hmid ▸ h) hok
    refine ⟨hfollows, fun cpu' ht => ?_⟩
    simp only [Outcome.bind] at ht
    split at ht
    · rename_i res after ho
      rw [ho] at hpost
      cases ht
      split
      · exact hpost
      · exact hpost
    · rename_i after ho
      rw [ho] at hpost
      cases ht
      exact hpost
    · cases ht
  | loopEnter mid =>
    rw [hf] at hfetch
    have hmid : mid.clock = cpu.clock := hfetch
    refine ⟨follows_nil, fun cpu' ht => ?_⟩
    simp only [Outcome.bind, Option.some.injEq] at ht
    rw [← ht]
    exact hmid ▸ h
  | fault =>
    refine ⟨follows_nil, fun cpu' ht => ?_⟩
    simp only [Outcome.bind, reduceCtorEq] at ht

end Follows

def LastWrites.reading (w : LastWrites) (cpu : Cpu W) : BitVec 32 :=
  w.count + cpu.vm.clockDivisor * BitVec.ofNat 32 w.increments

def CountReads (cpu : Cpu W) (w : LastWrites) : Prop :=
  cp0GetReg cpu mipsCp0Count = some (signExtend ((w.reading cpu).setWidth 64) 32)

def CompareReads (cpu : Cpu W) (w : LastWrites) : Prop :=
  cp0GetReg cpu mipsCp0Compare = some (signExtend (w.compare.setWidth 64) 32)

def eventStarts (env : Env W) (depth : Nat) (cpu : Cpu W) (e : CpuEvent W) :
    List (Cpu W × Insn) :=
  match e with
  | .turn => turnStarts env depth cpu
  | .outside _ _ => []

def ClockStep (env : Env W) (depth : Nat) (s : Cpu W × LastWrites) (e : CpuEvent W)
    (s' : Cpu W × LastWrites) : Prop :=
  CpuStep env depth s.1 e s'.1 ∧ s'.2 = s.2.through (eventStarts env depth s.1 e)

/-- `reads` at the instructions that a step starts; an instruction reads after
its own increment of the virtual counter. -/
def ReadsIn (reads : Cpu W → LastWrites → Prop) (env : Env W) (depth : Nat)
    (s : Cpu W × LastWrites) (e : CpuEvent W) : Prop :=
  ∀ pre p post, eventStarts env depth s.1 e = pre ++ p :: post →
    reads (incCp0Cnt p.1) (s.2.through pre).tick

/-- A write of Count leaves a whole number of ticks to Compare, and a write of
Compare finds the stored Count that far from the running one. -/
structure WriteOk (p : Cpu W × Insn) : Prop where
  count : writesCp0 mipsCp0Count p.2 → (p.1.clock.compare - operand p.1 p.2) % p.1.clock.divisor = 0
  compare : writesCp0 mipsCp0Compare p.2 →
    storedCount p.1 + (operand p.1 p.2 - storedCount p.1) % p.1.clock.divisor =
      p.1.clock.count + p.1.clock.divisor

def ClockOk (env : Env W) (depth : Nat) (s : Cpu W × LastWrites) (e : CpuEvent W) : Prop :=
  match e with
  | .turn => ∀ p ∈ turnStarts env depth s.1, WriteOk p
  | .outside shared _ => shared.vm.clockDivisor = s.1.vm.clockDivisor

def CountAgrees (c : Clock) (w : LastWrites) : Prop :=
  c.count = w.count + c.divisor * BitVec.ofNat 32 w.increments

def CompareAgrees (c : Clock) (w : LastWrites) : Prop := c.compare = w.compare

theorem countAgrees_tick {c : Clock} {w : LastWrites} (h : CountAgrees c w) :
    CountAgrees c.tick w.tick := by
  have hincr : BitVec.ofNat 32 (w.increments + 1) = BitVec.ofNat 32 w.increments + 1 :=
    BitVec.ofNat_add _ _
  have hcount := count_tick c
  simp only [CountAgrees, LastWrites.tick, hincr] at h ⊢
  simp only [Clock.tick] at hcount ⊢
  grind

theorem countAgrees_after (p : Cpu W × Insn) (w : LastWrites) (ok : WriteOk p)
    (h : CountAgrees p.1.clock w) : CountAgrees (clockAfter p.1 p.2) (w.after p) := by
  have htick := countAgrees_tick h
  by_cases hcount : writesCp0 mipsCp0Count p.2
  · have hrestart := count_restart p.1.clock p.1.clock.compare
      (p.1.clock.compare - operand p.1 p.2)
    rw [ok.count hcount] at hrestart
    simp only [CountAgrees, clockAfter, LastWrites.after, if_pos hcount]
    rw [hrestart]
    simp only [BitVec.ofNat_eq_ofNat, BitVec.mul_zero]
    grind
  by_cases hcompare : writesCp0 mipsCp0Compare p.2
  · have hrestart := count_restart p.1.clock (operand p.1 p.2)
      (operand p.1 p.2 - storedCount p.1)
    have hwrite := ok.compare hcompare
    have hsum := count_tick p.1.clock
    simp only [CountAgrees, clockAfter, LastWrites.after, if_neg hcount, if_pos hcompare] at htick ⊢
    rw [hrestart]
    simp only [Clock.tick, Clock.restart] at htick hsum ⊢
    grind
  · simp only [clockAfter, LastWrites.after, if_neg hcount, if_neg hcompare]
    exact htick

theorem compareAgrees_after (p : Cpu W × Insn) (w : LastWrites) (_ : True)
    (h : CompareAgrees p.1.clock w) : CompareAgrees (clockAfter p.1 p.2) (w.after p) := by
  simp only [clockAfter, LastWrites.after, CompareAgrees] at h ⊢
  split_ifs
  · exact h
  · rfl
  · exact h

theorem countReads_of_agrees {w : LastWrites} (h : CountAgrees cpu.clock w) : CountReads cpu w := by
  rw [CountReads, cp0GetReg_count, h]
  rfl

theorem compareReads_of_agrees {w : LastWrites} (h : CompareAgrees cpu.clock w) :
    CompareReads cpu w := by
  rw [CompareReads, cp0GetReg_compare, h]

theorem clockStep_follows {R : Clock → LastWrites → Prop} {ok : Cpu W × Insn → Prop} {depth : Nat}
    {s s' : Cpu W × LastWrites} {e : CpuEvent W} (henv : KeepsDivisor env)
    (hstep : ∀ p w, ok p → R p.1.clock w → R (clockAfter p.1 p.2) (w.after p))
    (hout : ∀ shared rebuild, e = .outside shared rebuild →
      R { s.1.clock with divisor := shared.vm.clockDivisor } s.2)
    (hok : ∀ p ∈ eventStarts env depth s.1 e, ok p) (h : R s.1.clock s.2)
    (hs : ClockStep env depth s e s') :
    Follows R s.2 (eventStarts env depth s.1 e) ∧ R s'.1.clock s'.2 := by
  obtain ⟨hcpu, hw⟩ := hs
  rw [hw]
  cases e with
  | turn =>
    obtain ⟨hfollows, hturn⟩ := execTurn_follows henv hstep h hok
    exact ⟨hfollows, hturn _ hcpu⟩
  | outside shared rebuild =>
    refine ⟨follows_nil, ?_⟩
    simp only [CpuStep] at hcpu
    have hclock : s'.1.clock = { s.1.clock with divisor := shared.vm.clockDivisor } := by
      rw [hcpu]
      split
      · rfl
      · rfl
    rw [hclock]
    exact hout shared rebuild rfl

theorem readsIn_of_follows {R : Clock → LastWrites → Prop} {reads : Cpu W → LastWrites → Prop}
    {depth : Nat} {s : Cpu W × LastWrites} {e : CpuEvent W}
    (hr : ∀ cpu w, R cpu.clock w → reads (incCp0Cnt cpu) w.tick)
    (h : Follows R s.2 (eventStarts env depth s.1 e)) : ReadsIn reads env depth s e :=
  fun pre p post heq => hr _ _ (h pre p post heq)

theorem run_follows {R : Clock → LastWrites → Prop} {ok : Cpu W × LastWrites → CpuEvent W → Prop}
    {depth : Nat} {s t : Cpu W × LastWrites} {trace : List ((Cpu W × LastWrites) × CpuEvent W)}
    (hstep : ∀ s e s', ok s e → R s.1.clock s.2 → ClockStep env depth s e s' →
      Follows R s.2 (eventStarts env depth s.1 e) ∧ R s'.1.clock s'.2)
    (hrun : Run (ClockStep env depth) s trace t) (h : R s.1.clock s.2) (hok : AllSteps ok trace) :
    Always (fun s => R s.1.clock s.2) trace t ∧
      AllSteps (fun s e => Follows R s.2 (eventStarts env depth s.1 e)) trace := by
  induction hrun with
  | start => exact ⟨⟨h, by simp⟩, by simp [AllSteps]⟩
  | next hrun hs ih =>
    obtain ⟨hpre, hlast⟩ := allSteps_snoc.mp hok
    obtain ⟨halways, hfollows⟩ := ih hpre
    obtain ⟨hf, hr⟩ := hstep _ _ _ hlast halways.1 hs
    exact ⟨always_snoc.mpr ⟨halways, hr⟩, allSteps_snoc.mpr ⟨hfollows, hf⟩⟩

def Cpu.lastWrites (cpu : Cpu W) : LastWrites := ⟨cpu.clock.count, 0, cpu.clock.compare⟩

/-- Every read of Compare gives what was last written to it; where every write
meets the condition, every read of Count gives what was last written to it and
the ticks since. -/
theorem count_and_compare_read {depth : Nat} {s : Cpu W} {t : Cpu W × LastWrites}
    {trace : List ((Cpu W × LastWrites) × CpuEvent W)} (henv : KeepsDivisor env)
    (hrun : Run (ClockStep env depth) (s, s.lastWrites) trace t) :
    (Always (fun s => CompareReads s.1 s.2) trace t ∧
      AllSteps (ReadsIn CompareReads env depth) trace) ∧
    (AllSteps (ClockOk env depth) trace →
      Always (fun s => CountReads s.1 s.2) trace t ∧ AllSteps (ReadsIn CountReads env depth) trace) := by
  constructor
  · obtain ⟨halways, hfollows⟩ := run_follows (R := CompareAgrees)
      (fun s e s' (_ : True) h hs => clockStep_follows henv compareAgrees_after (fun _ _ _ => h)
        (fun _ _ => trivial) h hs) hrun rfl fun _ _ => trivial
    refine ⟨⟨compareReads_of_agrees halways.1, fun x hx => ?_⟩, fun x hx => ?_⟩
    · exact compareReads_of_agrees (halways.2 x hx)
    · exact readsIn_of_follows (fun _ _ h => compareReads_of_agrees h) (hfollows x hx)
  · intro hok
    have hstart : CountAgrees s.clock s.lastWrites := by
      simp only [CountAgrees, Cpu.lastWrites, BitVec.mul_zero, BitVec.add_zero]
    obtain ⟨halways, hfollows⟩ := run_follows (R := CountAgrees)
      (fun s e s' (hok : ClockOk env depth s e) h hs => by
        refine clockStep_follows henv countAgrees_after (fun shared rebuild he => ?_)
          (fun p hp => ?_) h hs
        · subst he
          have hdiv : shared.vm.clockDivisor = s.1.clock.divisor := hok
          rw [hdiv]
          exact h
        · cases e with
          | turn => exact hok p hp
          | outside shared rebuild => cases hp) hrun hstart hok
    refine ⟨⟨countReads_of_agrees halways.1, fun x hx => ?_⟩, fun x hx => ?_⟩
    · exact countReads_of_agrees (halways.2 x hx)
    · refine readsIn_of_follows (fun cpu w h => ?_) (hfollows x hx)
      refine countReads_of_agrees ?_
      rw [clock_incCp0Cnt]
      exact countAgrees_tick h

/-- `mtc0 $2,$9` and `mfc0 $3,$9` -/
def countCpu (value : BitVec 64) : Cpu Unit :=
  ramCpu [0x40824800, 0x40034800] (fun i => if i = 2 then value else 0) pairTlb

theorem quiet_keepsDivisor : KeepsDivisor quietEnv := fun _ _ _ _ _ _ => rfl

instance (p : Cpu W × Insn) : Decidable (WriteOk p) :=
  decidable_of_iff
    ((writesCp0 mipsCp0Count p.2 →
        (p.1.clock.compare - operand p.1 p.2) % p.1.clock.divisor = 0) ∧
      (writesCp0 mipsCp0Compare p.2 →
        storedCount p.1 + (operand p.1 p.2 - storedCount p.1) % p.1.clock.divisor =
          p.1.clock.count + p.1.clock.divisor))
    ⟨fun h => ⟨h.1, h.2⟩, fun h => ⟨h.count, h.compare⟩⟩

theorem clockStep_turn {depth : Nat} {s t : Cpu W} (w : LastWrites)
    (h : execTurn env depth s = some t) :
    ClockStep env depth (s, w) .turn (t, w.through (turnStarts env depth s)) := by
  have hs : CpuStep env depth s .turn t := h
  exact ⟨hs, rfl⟩

theorem clockRun_two {depth : Nat} {s mid t : Cpu W} (w : LastWrites)
    (h1 : execTurn env depth s = some mid) (h2 : execTurn env depth mid = some t) :
    Run (ClockStep env depth) (s, w)
      [((s, w), .turn), ((mid, w.through (turnStarts env depth s)), .turn)]
      (t, (w.through (turnStarts env depth s)).through (turnStarts env depth mid)) :=
  Run.cons (clockStep_turn w h1) (Run.cons (clockStep_turn _ h2) Run.start)

theorem count_and_compare_read_moves :
    ∃ trace t, Run (ClockStep quietEnv 1) (countCpu 4, (countCpu 4).lastWrites) trace t ∧
      t.1.gpr 3 = 8 ∧ CountReads t.1 t.2 := by
  have hfirst : ∀ p ∈ turnStarts quietEnv 1 (countCpu 4), WriteOk p := by decide
  have hend : (execTurn quietEnv 1 (countCpu 4)).any (fun mid =>
      decide (∀ p ∈ turnStarts quietEnv 1 mid, WriteOk p) &&
      (execTurn quietEnv 1 mid).any fun t => t.gpr 3 == 8) := by decide
  simp only [Option.any_eq_true, Bool.and_eq_true, decide_eq_true_eq, beq_iff_eq] at hend
  obtain ⟨mid, h1, hsecond, t, h2, hgpr⟩ := hend
  have hrun := clockRun_two (countCpu 4).lastWrites h1 h2
  refine ⟨_, _, hrun, hgpr, ((count_and_compare_read quiet_keepsDivisor hrun).2 ?_).1.1⟩
  intro x hx
  simp only [List.mem_cons, List.not_mem_nil, or_false] at hx
  obtain rfl | rfl := hx
  · exact hfirst
  · exact hsecond

/-- A write of 1 to Count, which reads back as 4. -/
theorem not_count_read : ¬ ∀ (env : Env Unit) (depth : Nat) (s : Cpu Unit)
    (t : Cpu Unit × LastWrites) (trace : List ((Cpu Unit × LastWrites) × CpuEvent Unit)),
      KeepsDivisor env → Run (ClockStep env depth) (s, s.lastWrites) trace t →
        CountReads t.1 t.2 := by
  intro h
  have hend : (execTurn quietEnv 1 (countCpu 1)).any
      (fun t => cp0GetReg t mipsCp0Count == some 4) := by decide
  have hwrite : (countCpu 1).lastWrites.through (turnStarts quietEnv 1 (countCpu 1)) =
      ⟨1, 0, 0⟩ := by decide
  simp only [Option.any_eq_true, beq_iff_eq] at hend
  obtain ⟨t, h1, hfour⟩ := hend
  have hrun := Run.cons (clockStep_turn (countCpu 1).lastWrites h1) Run.start
  have hread := h _ _ _ _ _ quiet_keepsDivisor hrun
  simp only [hwrite, CountReads, LastWrites.reading, hfour, BitVec.mul_zero, Option.some.injEq]
    at hread
  exact absurd hread (by decide)

end Dynamips.Mips64
