import Dynamips.Mips64Run

/-! A delay slot whose instruction sets the pc itself: the branch writes the pc
last, and no exception records that it came from a delay slot. -/
set_option autoImplicit false

namespace Dynamips.Mips64

variable {W : Type} {env : Env W} {cpu cpu' : Cpu W}

def NotInSlot (cpu : Cpu W) : Prop := cpu.cp0.reg mipsCp0Cause &&& mipsCp0CauseBdSlot = 0

theorem and_bdSlot (cause code : BitVec 64) (h : code &&& mipsCp0CauseBdSlot = 0) :
    ((cause &&& mipsCp0CauseImask) ||| code) &&& mipsCp0CauseBdSlot = 0 := by
  have hd : ((cause &&& mipsCp0CauseImask) ||| code) &&& mipsCp0CauseBdSlot =
      (cause &&& (mipsCp0CauseImask &&& mipsCp0CauseBdSlot)) ||| (code &&& mipsCp0CauseBdSlot) := by
    ext i hi
    simp only [BitVec.getElem_and, BitVec.getElem_or, Bool.and_or_distrib_right, Bool.and_assoc]
  have hm : mipsCp0CauseImask &&& mipsCp0CauseBdSlot = 0 := by decide
  rw [hd, h, hm]
  simp

theorem excCode_bdSlot (exc : ExcCode) :
    (exc.code <<< 2).setWidth 64 &&& mipsCp0CauseBdSlot = 0 := by
  cases exc <;> decide

theorem triggerException_notInSlot (cpu : Cpu W) (exc : ExcCode) :
    NotInSlot (triggerException cpu exc false) := by
  have hne : mipsCp0Cause ≠ mipsCp0Status := by decide
  have hmask : ∀ cause : BitVec 64, cause &&& mipsCp0CauseImask &&& 0x7fffffff =
      cause &&& mipsCp0CauseImask := by
    intro cause
    rw [BitVec.and_assoc]
    rfl
  simp only [NotInSlot, triggerException, Cpu.reg_setCp0_ne _ _ hne]
  split
  · simp only [Bool.false_eq_true, if_false, hmask, Cpu.reg_setCp0_self]
    exact and_bdSlot _ _ (excCode_bdSlot exc)
  · simp only [Cpu.reg_setCp0_self]
    exact and_bdSlot _ _ (excCode_bdSlot exc)

theorem accessSpecial_notInSlot (vaddr data : BitVec 64) (mask : MtsAcc) (opCode : MemOp)
    (opType : MtsOp) :
    (accessSpecial cpu vaddr mask opCode opType data).Post (fun _ => True) NotInSlot := by
  cases mask with
  | u => trivial
  | t =>
    simp only [accessSpecial]
    split
    · trivial
    · exact triggerException_notInSlot _ _
  | ae =>
    simp only [accessSpecial]
    split
    · trivial
    · exact triggerException_notInSlot _ _

theorem mtsMap_notInSlot (opType : MtsOp) (map : MtsMap) (bucket : BitVec 14) :
    (mtsMap env cpu opType map bucket).Post (fun _ => True) NotInSlot := by
  simp only [mtsMap]
  split
  · trivial
  split
  · split <;> trivial
  split <;> trivial

theorem slowLookup_notInSlot (vaddr data : BitVec 64) (opCode : MemOp) (opType : MtsOp) :
    (slowLookup env cpu vaddr opCode opType data).Post (fun _ => True) NotInSlot := by
  simp only [slowLookup]
  split
  · exact (accessSpecial_notInSlot _ _ _ _ _).bind fun _ _ _ => trivial
  · refine (mtsMap_notInSlot _ _ _).bind fun entry _ _ => ?_
    cases entry with
    | some entry => trivial
    | none => exact (accessSpecial_notInSlot _ _ _ _ _).bind fun _ _ _ => trivial

theorem accessEntry_notInSlot (vaddr data : BitVec 64) (opSize : Nat) (opType : MtsOp)
    (entry : MtsEntry) :
    (accessEntry env cpu vaddr opSize opType entry data).Post (fun _ => True) NotInSlot := by
  simp only [accessEntry, devAccessFast]
  split
  · split <;> trivial
  · trivial

theorem mtsAccess_notInSlot (vaddr data : BitVec 64) (opCode : MemOp) (opSize : Nat)
    (opType : MtsOp) :
    (mtsAccess env cpu vaddr opCode opSize opType data).Post (fun _ => True) NotInSlot := by
  simp only [mtsAccess]
  split
  · trivial
  · refine (slowLookup_notInSlot _ _ _ _).bind fun res _ _ => ?_
    split
    · trivial
    · exact accessEntry_notInSlot _ _ _ _ _

theorem mtsLookup_notInSlot (vaddr : BitVec 64) :
    (mtsLookup env cpu vaddr).Post (fun _ => True) NotInSlot :=
  (mtsAccess_notInSlot _ _ _ _ _).bind fun _ _ _ => trivial

theorem mtsRead_notInSlot (vaddr : BitVec 64) (op : MemOp) (size : Nat) :
    (mtsRead env cpu vaddr op size).Post (fun _ => True) NotInSlot := by
  refine (mtsAccess_notInSlot _ _ _ _ _).bind fun res _ _ => ?_
  split <;> trivial

theorem mtsWrite_notInSlot (vaddr data : BitVec 64) (op : MemOp) (size : Nat) :
    (mtsWrite env cpu vaddr op size data).Post (fun _ => True) NotInSlot := by
  refine (mtsAccess_notInSlot _ _ _ _ _).bind fun res _ _ => ?_
  split <;> trivial

theorem memOpFn_notInSlot (op : MemOp) (vaddr : BitVec 64) (reg : RegNum) :
    (memOpFn op env cpu vaddr reg).Post (fun _ => True) NotInSlot := by
  cases op with
  | lb | lbu | lh | lhu | lw | lwu | ld | lwl | lwr | ldl | ldr | ll | ldc1 =>
    exact (mtsRead_notInSlot _ _ _).bind fun _ _ _ => trivial
  | sb | sh | sw | sd | sdc1 => exact mtsWrite_notInSlot _ _ _ _
  | swl | swr | sdl | sdr =>
    exact (mtsRead_notInSlot _ _ _).bind fun _ _ _ => mtsWrite_notInSlot _ _ _ _
  | sc =>
    simp only [memOpFn, mtsSc]
    split
    · exact (mtsWrite_notInSlot _ _ _ _).bind fun _ _ _ => trivial
    · trivial
  | cache | lookup => trivial

theorem execFetch_notInSlot (pc : BitVec 64) :
    (execFetch env cpu pc).Post (fun _ => True) NotInSlot := by
  simp only [execFetch]
  split
  · refine Outcome.Post.bind (Q := fun _ => True) ?_ fun _ mid _ => ?_
    · exact (mtsLookup_notInSlot _).bind fun _ _ _ => trivial
    · split <;> trivial
  · rw [Outcome.bind]
    split <;> trivial

def ctlTags : List ((BitVec 32 × BitVec 32) × (Cpu W → Insn → Bool × Cpu W)) :=
  mips64ExecTags.filterMap fun tag =>
    match tag.exec with
    | .ctl f => some (tag.key, f)
    | _ => none

def dumpTags : List (Env W → Cpu W → Insn → Outcome W Bool) :=
  mips64ExecTags.filterMap fun tag =>
    match tag.exec with
    | .dump f => some f
    | _ => none

theorem ctlTags_eq : @ctlTags W = [((0xffffffff, 0x42000018), execERET),
    ((0xfc00003f, 0x0000000c), execSYSCALL), ((0xfc00003f, 0x00000034), execTEQ),
    ((0xfc1f0000, 0x040c0000), execTEQI)] := rfl

theorem dumpTags_eq : @dumpTags W = [execBREAK, execUnknown] := rfl

def eretInsn : Insn := 0x42000018

theorem execOf_eret : (execOf eretInsn : InsnExec W) = .ctl execERET := by
  have hval : eretInsn &&& 0xffffffff = 0x42000018 := by decide
  exact execOf_eq 50 rfl (by decide) hval

theorem trapIfEq_true {a b : BitVec 64} (h : (trapIfEq cpu a b).1 = true) :
    (trapIfEq cpu a b).2 = triggerException cpu .trap false := by
  simp only [trapIfEq] at h ⊢
  split at h
  · simp [*]
  · cases h

theorem mem_ctlTags {insn : Insn} {f : Cpu W → Insn → Bool × Cpu W} (h : execOf insn = .ctl f) :
    ∃ key, (key, f) ∈ ctlTags ∧ insn &&& key.1 = key.2 := by
  obtain ⟨tag, hmem, hcov, heq⟩ := exists_tag_of_execOf (W := W) insn
  refine ⟨tag.key, ?_, by simpa [ExecTag.covers, ExecTag.key] using hcov⟩
  rw [ctlTags, List.mem_filterMap]
  exact ⟨tag, hmem, by rw [← heq, h]⟩

theorem ctl_cases {insn : Insn} {f : Cpu W → Insn → Bool × Cpu W}
    (h : execOf insn = .ctl f) : insn = eretInsn ∨
      ((f cpu insn).1 = true → ∃ exc, (f cpu insn).2 = triggerException cpu exc false) := by
  obtain ⟨key, hctl, hkey⟩ := mem_ctlTags h
  simp only [ctlTags_eq, List.mem_cons, Prod.mk.injEq, List.not_mem_nil, or_false] at hctl
  obtain ⟨rfl, -⟩ | ⟨-, rfl⟩ | ⟨-, rfl⟩ | ⟨-, rfl⟩ := hctl
  · left
    have hall : insn &&& 0xffffffff = insn := BitVec.and_allOnes
    exact hall.symm.trans hkey
  · exact Or.inr fun _ => ⟨.syscall, rfl⟩
  · exact Or.inr fun ht => ⟨.trap, trapIfEq_true ht⟩
  · exact Or.inr fun ht => ⟨.trap, trapIfEq_true ht⟩

theorem dumpRegs_notInSlot : (dumpRegs env cpu).Post (fun _ => True) NotInSlot := by
  refine (mtsLookup_notInSlot _).bind fun _ _ _ => ?_
  split <;> trivial

theorem dump_cases {insn : Insn} {f : Env W → Cpu W → Insn → Outcome W Bool}
    (h : execOf insn = .dump f) : f = execBREAK ∨ f = execUnknown := by
  obtain ⟨tag, hmem, -, heq⟩ := exists_tag_of_execOf (W := W) insn
  have hdump : f ∈ dumpTags := by
    rw [dumpTags, List.mem_filterMap]
    exact ⟨tag, hmem, by rw [← heq, h]⟩
  simpa [dumpTags_eq] using hdump

theorem execInsn_notInSlot {slot : Cpu W → Outcome W Unit} {insn : Insn}
    (hslot : ∀ mid, (slot mid).Post (fun _ => True) NotInSlot) :
    (execInsn env slot cpu insn).Post (fun _ => True) NotInSlot := by
  simp only [execInsn]
  split
  · exact (Outcome.post_ofOption (Q := fun _ => True) _ trivial).bind fun _ _ _ => trivial
  · simp only [execBranch]
    split
    · trivial
    · exact (hslot _).bind fun _ _ _ => trivial
  · exact (Outcome.post_ofOption (Q := fun _ => True) _ trivial).bind fun _ _ _ => trivial
  · trivial
  · rename_i f hf
    cases dump_cases hf with
    | inl hb =>
      subst hb
      exact dumpRegs_notInSlot.bind fun _ _ _ => trivial
    | inr hu =>
      subst hu
      exact dumpRegs_notInSlot.bind fun _ _ _ => trivial
  · exact (memOpFn_notInSlot _ _ _).bind fun _ _ _ => trivial

theorem execSingle_notInSlot (depth : Nat) (insn : Insn) :
    (execSingleInstruction env depth cpu insn).Post (fun _ => True) NotInSlot := by
  induction depth generalizing cpu insn with
  | zero => trivial
  | succ depth ih =>
    refine execInsn_notInSlot fun mid => ?_
    exact (execFetch_notInSlot _).bind fun slot after _ => ih slot |>.bind fun _ _ _ => trivial

/-- The instruction sets the pc although it is no branch: it raises an exception,
or it is ERET. -/
def Diverts (env : Env W) (depth : Nat) (cpu : Cpu W) (insn : Insn) : Prop :=
  (∃ cpu', execSingleInstruction env depth cpu insn = .loopEnter cpu') ∨
    branchOf cpu insn = none ∧ ∃ cpu', execSingleInstruction env depth cpu insn = .done true cpu'

def Completes (o : Outcome W Bool) (cpu' : Cpu W) : Prop :=
  (∃ res, o = .done res cpu') ∨ o = .loopEnter cpu'

/-- What a branch at `cpu` should leave when its slot raised an exception or
returned from one: the pc at the vector, EPC at the branch and the delay slot
bit set, or the pc where ERET goes. -/
def SlotRespected (cpu : Cpu W) (slot : Insn) (cpu' : Cpu W) : Prop :=
  if slot = eretInsn then cpu'.pc = eretTarget cpu
  else
    cpu'.pc = excVector (cpu'.cp0.reg mipsCp0Status) ∧ cpu'.cp0.reg mipsCp0Epc = cpu.pc ∧
      cpu'.cp0.reg mipsCp0Cause &&& mipsCp0CauseBdSlot ≠ 0

instance (cpu : Cpu W) (slot : Insn) (cpu' : Cpu W) : Decidable (SlotRespected cpu slot cpu') :=
  inferInstanceAs (Decidable (if slot = eretInsn then cpu'.pc = eretTarget cpu
    else cpu'.pc = excVector (cpu'.cp0.reg mipsCp0Status) ∧ cpu'.cp0.reg mipsCp0Epc = cpu.pc ∧
      cpu'.cp0.reg mipsCp0Cause &&& mipsCp0CauseBdSlot ≠ 0))

def BranchesToEret (cpu : Cpu W) (b : Branch) (slot : Insn) : Prop :=
  slot = eretInsn ∧ b.res = true ∧ b.newPc = eretTarget cpu

theorem notRespected {slot : Insn} (hslot : slot ≠ eretInsn) (h : NotInSlot cpu') :
    ¬ SlotRespected cpu slot cpu' := by
  simp only [SlotRespected, hslot, if_false]
  exact fun hr => hr.2.2 h

theorem slotStart_cp0 {insn : Insn} {start : Cpu W × Insn}
    (hs : slotStart env cpu insn = some start) : start.1.cp0 = cpu.cp0 := by
  obtain ⟨mid, hentry, hfetch⟩ := slotStart_eq_some.mp hs
  obtain ⟨b, -, -, rfl⟩ := slotEntry_eq_some.mp hentry
  rw [execFetch_done hfetch]
  rfl

theorem eretTarget_congr (h : cpu'.cp0 = cpu.cp0) : eretTarget cpu' = eretTarget cpu := by
  rw [eretTarget, eretTarget, h]

@[simp] theorem updateIrqFlag_pc (cpu : Cpu W) : (updateIrqFlag cpu).pc = cpu.pc := by
  simp only [updateIrqFlag]
  split <;> rfl

theorem eret_pc (cpu : Cpu W) : (eret cpu).pc = eretTarget cpu := by
  simp [eret]

theorem diverts_cases {depth : Nat} {insn : Insn} (h : Diverts env depth cpu insn) :
    insn = eretInsn ∧ execSingleInstruction env depth cpu insn = .done true (eret (incCp0Cnt cpu)) ∨
    insn ≠ eretInsn ∧ ∃ mid, NotInSlot mid ∧
      (execSingleInstruction env depth cpu insn = .done true mid ∨
        execSingleInstruction env depth cpu insn = .loopEnter mid) := by
  cases depth with
  | zero =>
    obtain ⟨_, h⟩ | ⟨_, _, h⟩ := h <;> cases h
  | succ depth =>
    by_cases he : insn = eretInsn
    · subst he
      left
      refine ⟨rfl, ?_⟩
      simp only [execSingleInstruction, execInsn, execOf_eret]
      rfl
    right
    refine ⟨he, ?_⟩
    obtain ⟨mid, hloop⟩ | ⟨hb, mid, hdone⟩ := h
    · have hpost := @execSingle_notInSlot W env cpu (depth + 1) insn
      rw [hloop] at hpost
      exact ⟨mid, hpost, Or.inr hloop⟩
    · refine ⟨mid, ?_, Or.inl hdone⟩
      simp only [execSingleInstruction, execInsn] at hdone
      simp only [branchOf] at hb
      split at hdone
      · obtain ⟨_, _, _, hdone⟩ := Outcome.bind_eq_done hdone
        cases hdone
      · rename_i hf
        simp [hf] at hb
      · obtain ⟨_, _, _, hdone⟩ := Outcome.bind_eq_done hdone
        cases hdone
      · rename_i f hf
        simp only [Outcome.done.injEq] at hdone
        obtain ⟨hres, hmid⟩ := hdone
        obtain ⟨exc, hexc⟩ := (ctl_cases hf).resolve_left he hres
        rw [← hmid, hexc]
        exact triggerException_notInSlot _ _
      · rename_i f hf
        cases dump_cases hf with
        | inl hbrk =>
          subst hbrk
          obtain ⟨_, _, _, hdone⟩ := Outcome.bind_eq_done hdone
          cases hdone
          exact triggerException_notInSlot _ _
        | inr hunk =>
          subst hunk
          obtain ⟨_, _, _, hdone⟩ := Outcome.bind_eq_done hdone
          cases hdone
      · obtain ⟨_, _, _, hdone⟩ := Outcome.bind_eq_done hdone
        cases hdone

/-- A branch and a delay slot that raises an exception or is ERET end as they
should exactly when the slot is ERET and the taken branch goes to the same
address. -/
theorem delay_slot_iff {env : Env W} {depth : Nat} {cpu : Cpu W} {insn : Insn} {b : Branch}
    {start : Cpu W × Insn} (hb : branchOf cpu insn = some b)
    (hs : slotStart env cpu insn = some start) (hd : Diverts env depth start.1 start.2) :
    ∃ cpu', Completes (execSingleInstruction env (depth + 1) cpu insn) cpu' ∧
      (SlotRespected cpu start.2 cpu' ↔ BranchesToEret cpu b start.2) := by
  rw [execSingle_branch hb hs]
  obtain ⟨heret, hdone⟩ | ⟨hne, mid, hbd, hdone | hloop⟩ := diverts_cases hd
  · rw [hdone]
    refine ⟨_, Or.inl ⟨true, rfl⟩, ?_⟩
    have htarget : (eret (incCp0Cnt start.1)).pc = eretTarget cpu := by
      rw [eret_pc]
      exact eretTarget_congr (slotStart_cp0 hs)
    simp only [SlotRespected, BranchesToEret, heret, if_true, htarget, true_and]
    cases hres : b.res with
    | true => simp
    | false =>
      have hne : eretTarget cpu + 8 ≠ eretTarget cpu := by bv_omega
      simp only [Bool.false_eq_true, if_false, false_and, iff_false]
      exact hne
  · rw [hdone]
    refine ⟨_, Or.inl ⟨true, rfl⟩, iff_of_false (notRespected hne ?_) fun h => hne h.1⟩
    exact hbd
  · rw [hloop]
    exact ⟨mid, Or.inr rfl, iff_of_false (notRespected hne hbd) fun h => hne h.1⟩

/-- `jr $2` to address 0 with ERET in the delay slot, while EPC is 0. -/
def jrEretCpu : Cpu Unit := ramCpu [0x00400008, 0x42000018] (fun _ => 0) fun _ => ⟨0, 0, 0, 0⟩

theorem delay_slot_jr_eret :
    ∃ cpu', Completes (execSingleInstruction quietEnv 2 jrEretCpu 0x00400008) cpu' ∧
      SlotRespected jrEretCpu eretInsn cpu' := by
  obtain ⟨cpu', hc, hiff⟩ := @delay_slot_iff Unit quietEnv 1 jrEretCpu 0x00400008 _ _ rfl rfl
    (Or.inr ⟨rfl, _, rfl⟩)
  exact ⟨cpu', hc, hiff.mpr ⟨rfl, rfl, by decide⟩⟩

/-- `b` over one word with SYSCALL in the delay slot. -/
def branchSyscallCpu : Cpu Unit :=
  ramCpu [0x10000002, 0x0000000c] (fun _ => 0) fun _ => ⟨0, 0, 0, 0⟩

/-- The branch writes the pc over the vector, and the delay slot bit is clear. -/
theorem not_delay_slot_respected :
    ¬ ∀ (env : Env Unit) (depth : Nat) (cpu cpu' : Cpu Unit) (insn : Insn) (b : Branch)
      (start : Cpu Unit × Insn), branchOf cpu insn = some b → slotStart env cpu insn = some start →
      Diverts env depth start.1 start.2 →
      Completes (execSingleInstruction env (depth + 1) cpu insn) cpu' →
      SlotRespected cpu start.2 cpu' := by
  intro h
  have hslot := h quietEnv 1 branchSyscallCpu _ 0x10000002 _ _ rfl rfl (Or.inr ⟨rfl, _, rfl⟩)
    (Or.inl ⟨true, rfl⟩)
  exact absurd hslot (by decide)

end Dynamips.Mips64
