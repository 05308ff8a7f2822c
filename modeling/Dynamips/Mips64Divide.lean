import Dynamips.Mips64DelaySlot

/-! The divisions of the host: DIV and DIVU, the random index of TLBWR, Random
and the register dump, and the timer registers. -/
set_option autoImplicit false

namespace Dynamips.Mips64

variable {W : Type} {env : Env W} {cpu cpu' : Cpu W} {insn : Insn}

/-- The instruction makes the host divide by zero, or the smallest integer by
minus one. A register dump divides once its lookup of the pc is over. -/
def DividesBadly (env : Env W) (cpu : Cpu W) (insn : Insn) : Prop :=
  match execOf insn with
  | .alu f => f cpu.toRegs insn = none
  | .cop f => f (incCp0Cnt cpu) insn = none
  | .dump _ => ∃ ptr mid, mtsLookup env (incCp0Cnt cpu) cpu.pc = .done ptr mid ∧
      cp0GetRandomReg mid = none
  | .branch _ | .ctl _ | .mem _ => False

def isDiv (insn : Insn) : Prop := insn &&& 0xfc00ffff = 0x0000001a

def isDivu (insn : Insn) : Prop := insn &&& 0xfc00ffff = 0x0000001b

def movesFromCp0 (insn : Insn) : Prop :=
  insn &&& 0xffe007ff = 0x40000000 ∨ insn &&& 0xffe007f8 = 0x40200000

def movesToCp0 (insn : Insn) : Prop :=
  insn &&& 0xffe007ff = 0x40800000 ∨ insn &&& 0xffe007f8 = 0x40a00000

instance (insn : Insn) : Decidable (movesToCp0 insn) := inferInstanceAs (Decidable (_ ∨ _))

def tlbwrInsn : Insn := 0x42000006

/-- BREAK, or a word that no entry of the array but the last one takes. -/
def Dumps (W : Type) (insn : Insn) : Prop := ∃ f, (execOf insn : InsnExec W) = .dump f

def AllWired (cpu : Cpu W) : Prop :=
  (cpu.cp0.reg mipsCp0Wired).setWidth 32 = BitVec.ofNat 32 cpu.cp0.tlbEntries

structure DivisorsOk (env : Env W) (cpu : Cpu W) (insn : Insn) : Prop where
  div : isDiv insn → lo32 (cpu.gpr (rt insn)) ≠ 0 ∧
    ¬ (lo32 (cpu.gpr (rs insn)) = 0x80000000 ∧ lo32 (cpu.gpr (rt insn)) = 0xffffffff)
  divu : isDivu insn → cpu.gpr (rt insn) = 0 ∨ lo32 (cpu.gpr (rt insn)) ≠ 0
  random : movesFromCp0 insn ∧ rd insn = mipsCp0Random ∨ insn = tlbwrInsn → ¬ AllWired cpu
  dump : Dumps W insn → (∃ ptr mid, mtsLookup env (incCp0Cnt cpu) cpu.pc = .done ptr mid) →
    ¬ AllWired cpu
  timer : movesToCp0 insn → rd insn = mipsCp0Count ∨ rd insn = mipsCp0Compare →
    cpu.vm.clockDivisor ≠ 0

theorem cp0GetRandomReg_eq_none : cp0GetRandomReg cpu = none ↔ AllWired cpu := by
  have hsub : ∀ a b : BitVec 32, a - b = 0 ↔ b = a := by
    intro a b
    constructor <;> intro h <;> bv_omega
  simp only [cp0GetRandomReg, ite_eq_left_iff, reduceCtorEq, imp_false, not_not, hsub, AllWired]

theorem cp0GetReg_eq_none {reg : RegNum} :
    cp0GetReg cpu reg = none ↔ reg = mipsCp0Random ∧ AllWired cpu := by
  have hne : mipsCp0Random ≠ mipsCp0Count ∧ mipsCp0Random ≠ mipsCp0Compare ∧
    mipsCp0Random ≠ mipsCp0Info := by decide
  by_cases hreg : reg = mipsCp0Random
  · subst hreg
    simp only [cp0GetReg, hne, if_true, if_false, Option.map_eq_none_iff, cp0GetRandomReg_eq_none,
      true_and]
  · simp only [cp0GetReg, hreg, if_false, false_and, iff_false]
    split_ifs <;> simp

theorem updateIrqFlag_vm (cpu : Cpu W) : (updateIrqFlag cpu).vm = cpu.vm := by
  simp only [updateIrqFlag]
  split <;> rfl

theorem setVirtCmp_eq_none {delta : BitVec 32} :
    setVirtCmp cpu delta = none ↔ cpu.vm.clockDivisor = 0 := by
  simp only [setVirtCmp, ite_eq_left_iff, reduceCtorEq, imp_false, not_not]

theorem cp0SetReg_eq_none {reg : RegNum} {val : BitVec 64} : cp0SetReg cpu reg val = none ↔
    (reg = mipsCp0Count ∨ reg = mipsCp0Compare) ∧ cpu.vm.clockDivisor = 0 := by
  have hcount : mipsCp0Count ≠ mipsCp0Status ∧ mipsCp0Count ≠ mipsCp0Cause ∧
    mipsCp0Count ≠ mipsCp0Pagemask ∧ mipsCp0Count ≠ mipsCp0Compare := by decide
  have hcompare : mipsCp0Compare ≠ mipsCp0Status ∧ mipsCp0Compare ≠ mipsCp0Cause ∧
    mipsCp0Compare ≠ mipsCp0Pagemask := by decide
  by_cases hc : reg = mipsCp0Count
  · subst hc
    simp only [cp0SetReg, hcount, or_self, if_true, if_false, setVirtCmp_eq_none, true_or, true_and]
    rfl
  by_cases hm : reg = mipsCp0Compare
  · subst hm
    simp only [cp0SetReg, hcompare, or_self, if_true, if_false, setVirtCmp_eq_none, or_true,
      true_and]
    rw [Cpu.setCp0, updateIrqFlag_vm]
    rfl
  · simp only [cp0SetReg, hc, hm, if_false, or_self, false_and, iff_false]
    split_ifs <;> simp

theorem execDIV_eq_none {r : Regs} : execDIV r insn = none ↔ lo32 (r.gpr (rt insn)) = 0 ∨
    lo32 (r.gpr (rs insn)) = 0x80000000 ∧ lo32 (r.gpr (rt insn)) = 0xffffffff := by
  simp only [execDIV, ite_eq_left_iff, reduceCtorEq, imp_false, not_not]

theorem execDIVU_eq_none {r : Regs} : execDIVU r insn = none ↔
    r.gpr (rt insn) ≠ 0 ∧ lo32 (r.gpr (rt insn)) = 0 := by
  simp only [execDIVU]
  split_ifs with h0 hlo
  · simp only [false_iff, not_and]
    exact fun hne => absurd h0 hne
  · exact ⟨fun _ => ⟨h0, hlo⟩, fun _ => rfl⟩
  · simp only [false_iff, not_and]
    exact fun _ => hlo

theorem aluTags_total : ∀ e ∈ aluTags, e.1 = (0xfc00ffff, 0x0000001a) ∧ e.2 = execDIV ∨
    e.1 = (0xfc00ffff, 0x0000001b) ∧ e.2 = execDIVU ∨ ∀ r insn, e.2 r insn ≠ none := by
  simp only [aluTags, mips64ExecTags, ExecTag.key, List.filterMap_cons, List.filterMap_nil,
    List.forall_mem_cons]
  simp [opRd, opRt, opSa, execADD, execADDI, execADDIU, execADDU, execAND, execANDI, execDADDIU,
    execDADDU, execDSLL, execDSLL32, execDSLLV, execDSRA, execDSRA32, execDSRAV, execDSRL,
    execDSRL32, execDSRLV, execDSUBU, execLI, execLUI, execMFHI, execMFLO, execMOVE, execMTHI,
    execMTLO, execMUL, execMULT, execMULTU, execNOP, execNOR, execOR, execORI, execPREF,
    execPREFI, execSLL, execSLLV, execSLT, execSLTI, execSLTIU, execSLTU, execSRA, execSRAV,
    execSRL, execSRLV, execSUB, execSUBU, execSYNC, execXOR, execXORI]

theorem copTags_eq : @copTags W = [((0xffe007ff, 0x40400000), execCFC0),
    ((0xffe007ff, 0x40600000), execCTC0), ((0xffe007f8, 0x40200000), execDMFC0),
    ((0xffe007ff, 0x44200000), execDMFC1), ((0xffe007f8, 0x40a00000), execDMTC0),
    ((0xffe007ff, 0x44a00000), execDMTC1), ((0xffe007ff, 0x40000000), execMFC0),
    ((0xffe007ff, 0x40000001), execCFC0), ((0xffe007ff, 0x44000000), execMFC1),
    ((0xffe007ff, 0x40800000), execMTC0), ((0xffe007ff, 0x44800000), execMTC1),
    ((0xffffffff, 0x42000008), execTLBP), ((0xffffffff, 0x42000001), execTLBR),
    ((0xffffffff, 0x42000002), execTLBWI), ((0xffffffff, 0x42000006), execTLBWR)] := rfl

theorem dividesBadly_div (h : isDiv insn) :
    DividesBadly env cpu insn ↔ lo32 (cpu.gpr (rt insn)) = 0 ∨
      lo32 (cpu.gpr (rs insn)) = 0x80000000 ∧ lo32 (cpu.gpr (rt insn)) = 0xffffffff := by
  rw [DividesBadly, execOf_eq 34 rfl (by decide) h]
  exact execDIV_eq_none

theorem dividesBadly_divu (h : isDivu insn) : DividesBadly env cpu insn ↔
    cpu.gpr (rt insn) ≠ 0 ∧ lo32 (cpu.gpr (rt insn)) = 0 := by
  rw [DividesBadly, execOf_eq 35 rfl (by decide) h]
  exact execDIVU_eq_none

theorem dividesBadly_from (h : movesFromCp0 insn) :
    DividesBadly env cpu insn ↔ rd insn = mipsCp0Random ∧ AllWired cpu := by
  cases h with
  | inl h =>
    rw [DividesBadly, execOf_eq 69 rfl (by decide) h]
    exact Option.map_eq_none_iff.trans cp0GetReg_eq_none
  | inr h =>
    rw [DividesBadly, execOf_eq 36 rfl (by decide) h]
    exact Option.map_eq_none_iff.trans cp0GetReg_eq_none

theorem dividesBadly_to (h : movesToCp0 insn) : DividesBadly env cpu insn ↔
    (rd insn = mipsCp0Count ∨ rd insn = mipsCp0Compare) ∧ cpu.vm.clockDivisor = 0 := by
  cases h with
  | inl h =>
    rw [DividesBadly, execOf_eq 74 rfl (by decide) h]
    exact cp0SetReg_eq_none
  | inr h =>
    rw [DividesBadly, execOf_eq 38 rfl (by decide) h]
    exact cp0SetReg_eq_none

theorem dividesBadly_tlbwr : DividesBadly env cpu tlbwrInsn ↔ AllWired cpu := by
  have hval : tlbwrInsn &&& 0xffffffff = 0x42000006 := by decide
  rw [DividesBadly, execOf_eq 116 rfl (by decide) hval]
  exact Option.map_eq_none_iff.trans cp0GetRandomReg_eq_none

theorem mtsLookup_cp0 {vaddr : BitVec 64} {ptr : Option HostAddr}
    (h : mtsLookup env cpu vaddr = .done ptr cpu') : cpu'.cp0 = cpu.cp0 := by
  obtain ⟨_, _, ha, h⟩ := Outcome.bind_eq_done h
  cases h
  rw [mtsAccess_done ha]

theorem dividesBadly_dump (h : Dumps W insn) : DividesBadly env cpu insn ↔
    (∃ ptr mid, mtsLookup env (incCp0Cnt cpu) cpu.pc = .done ptr mid) ∧ AllWired cpu := by
  obtain ⟨f, hf⟩ := h
  have hwired : ∀ {ptr mid}, mtsLookup env (incCp0Cnt cpu) cpu.pc = .done ptr mid →
      (cp0GetRandomReg mid = none ↔ AllWired cpu) := by
    intro ptr mid hl
    rw [cp0GetRandomReg_eq_none, AllWired, mtsLookup_cp0 hl]
    rfl
  simp only [DividesBadly, hf]
  constructor
  · rintro ⟨ptr, mid, hl, hr⟩
    exact ⟨⟨ptr, mid, hl⟩, (hwired hl).mp hr⟩
  · rintro ⟨⟨ptr, mid, hl⟩, hw⟩
    exact ⟨ptr, mid, hl, (hwired hl).mpr hw⟩

theorem cop_cases {f : Cpu W → Insn → Option (Cpu W)} (h : execOf insn = .cop f) :
    movesFromCp0 insn ∨ movesToCp0 insn ∨ insn = tlbwrInsn ∨ ∀ cpu : Cpu W, f cpu insn ≠ none := by
  obtain ⟨key, hmem, hkey⟩ := mem_copTags h
  have hall : insn &&& 0xffffffff = insn := BitVec.and_allOnes
  simp only [copTags_eq, List.mem_cons, Prod.mk.injEq, List.not_mem_nil, or_false] at hmem
  obtain ⟨-, rfl⟩ | ⟨-, rfl⟩ | ⟨rfl, -⟩ | ⟨-, rfl⟩ | ⟨rfl, -⟩ | ⟨-, rfl⟩ | ⟨rfl, -⟩ | ⟨-, rfl⟩ |
    ⟨-, rfl⟩ | ⟨rfl, -⟩ | ⟨-, rfl⟩ | ⟨-, rfl⟩ | ⟨-, rfl⟩ | ⟨-, rfl⟩ | ⟨rfl, -⟩ := hmem
  case inr.inr.inl => exact Or.inl (Or.inr hkey)
  case inr.inr.inr.inr.inl => exact Or.inr (Or.inl (Or.inr hkey))
  case inr.inr.inr.inr.inr.inr.inl => exact Or.inl (Or.inl hkey)
  case inr.inr.inr.inr.inr.inr.inr.inr.inr.inl => exact Or.inr (Or.inl (Or.inl hkey))
  all_goals right; right
  case inr.inr.inr.inr.inr.inr.inr.inr.inr.inr.inr.inr.inr.inr => exact Or.inl (hall.symm.trans hkey)
  all_goals exact Or.inr fun _ => Option.some_ne_none _

theorem alu_cases {f : Regs → Insn → Option Regs} (h : (execOf insn : InsnExec W) = .alu f) :
    isDiv insn ∨ isDivu insn ∨ ∀ r, f r insn ≠ none := by
  obtain ⟨key, hmem, hkey⟩ := mem_aluTags h
  obtain ⟨rfl, -⟩ | ⟨rfl, -⟩ | htotal := aluTags_total _ hmem
  · exact Or.inl hkey
  · exact Or.inr (Or.inl hkey)
  · exact Or.inr (Or.inr fun r => htotal r insn)

theorem dividesBadly_cases (h : DividesBadly env cpu insn) :
    isDiv insn ∨ isDivu insn ∨ movesFromCp0 insn ∨ movesToCp0 insn ∨ insn = tlbwrInsn ∨
      Dumps W insn := by
  cases hexec : (execOf insn : InsnExec W) with
  | alu f =>
    simp only [DividesBadly, hexec] at h
    obtain hd | hu | ht := alu_cases hexec
    · exact Or.inl hd
    · exact Or.inr (Or.inl hu)
    · exact absurd h (ht _)
  | cop f =>
    simp only [DividesBadly, hexec] at h
    obtain hm | hm | hw | ht := cop_cases hexec
    · exact Or.inr (Or.inr (Or.inl hm))
    · exact Or.inr (Or.inr (Or.inr (Or.inl hm)))
    · exact Or.inr (Or.inr (Or.inr (Or.inr (Or.inl hw))))
    · exact absurd h (ht _)
  | dump f => exact Or.inr (Or.inr (Or.inr (Or.inr (Or.inr ⟨f, hexec⟩))))
  | branch f => simp [DividesBadly, hexec] at h
  | ctl f => simp [DividesBadly, hexec] at h
  | mem m => simp [DividesBadly, hexec] at h

/-- The host divides by zero or overflows in no instruction that meets the
condition and in every one that does not. -/
theorem divisions_ok_iff (env : Env W) (cpu : Cpu W) (insn : Insn) :
    ¬ DividesBadly env cpu insn ↔ DivisorsOk env cpu insn := by
  constructor
  · intro h
    exact
      { div := fun hd => not_or.mp fun hz => h ((dividesBadly_div hd).mpr hz)
        divu := fun hd => by
          by_contra hz
          exact h ((dividesBadly_divu hd).mpr (by push Not at hz; exact hz))
        random := fun hr hw => by
          cases hr with
          | inl hr => exact h ((dividesBadly_from hr.1).mpr ⟨hr.2, hw⟩)
          | inr hr =>
            subst hr
            exact h (dividesBadly_tlbwr.mpr hw)
        dump := fun hd hl hw => h ((dividesBadly_dump hd).mpr ⟨hl, hw⟩)
        timer := fun hm hreg hz => h ((dividesBadly_to hm).mpr ⟨hreg, hz⟩) }
  · intro hok h
    obtain hc | hc | hc | hc | hc | hc := dividesBadly_cases h
    · obtain hz | hz := (dividesBadly_div hc).mp h
      · exact (hok.div hc).1 hz
      · exact (hok.div hc).2 hz
    · obtain ⟨hne, hz⟩ := (dividesBadly_divu hc).mp h
      exact (hok.divu hc).elim hne fun hlo => hlo hz
    · obtain ⟨hreg, hw⟩ := (dividesBadly_from hc).mp h
      exact hok.random (Or.inl ⟨hc, hreg⟩) hw
    · obtain ⟨hreg, hz⟩ := (dividesBadly_to hc).mp h
      exact hok.timer hc hreg hz
    · subst hc
      exact hok.random (Or.inr rfl) (dividesBadly_tlbwr.mp h)
    · obtain ⟨hl, hw⟩ := (dividesBadly_dump hc).mp h
      exact hok.dump hc hl hw

/-- `div $2,$3` with register 3 zero. -/
theorem not_divisions_ok :
    ¬ ∀ (env : Env Unit) (cpu : Cpu Unit) (insn : Insn), ¬ DividesBadly env cpu insn := by
  intro h
  refine h quietEnv (ramCpu [] (fun _ => 0) fun _ => ⟨0, 0, 0, 0⟩) 0x0043001a ?_
  have hdiv : isDiv 0x0043001a := show (0x0043001a : Insn) &&& 0xfc00ffff = 0x0000001a by decide
  rw [dividesBadly_div hdiv]
  exact Or.inl rfl

end Dynamips.Mips64
