import Dynamips.Mips64Run

/-! The virtual instructions at the head of the instruction array. Their words are words of
other instructions of the array as well, with register 0 in a field. -/
set_option autoImplicit false

namespace Dynamips.Mips64

variable {W : Type}

/-- What `mips64_exec_single_instruction` does once the counter has advanced. -/
def InsnExec.run (env : Env W) (slot : Cpu W → Outcome W Unit) (cpu : Cpu W) (insn : Insn) :
    InsnExec W → Outcome W Bool
  | .alu f =>
    (Outcome.ofOption cpu (f cpu.toRegs insn)).bind fun regs cpu =>
      .done false { cpu with toRegs := regs }
  | .branch f => execBranch slot cpu (f cpu.toRegs cpu.pc insn)
  | .cop f => (Outcome.ofOption cpu (f cpu insn)).bind fun cpu _ => .done false cpu
  | .ctl f => .done (f cpu insn).1 (f cpu insn).2
  | .dump f => f env cpu insn
  | .mem m =>
    (execMemop2 env cpu m (rs insn) (imm insn) (rt insn)).bind fun _ cpu => .done false cpu

theorem execInsn_run (env : Env W) (slot : Cpu W → Outcome W Unit) (cpu : Cpu W) (insn : Insn) :
    execInsn env slot cpu insn = (execOf insn).run env slot (incCp0Cnt cpu) insn := by
  rw [execInsn]
  cases execOf insn <;> rfl

def nrVirtual : Nat := 6

def virtualTags : List (ExecTag W) := mips64ExecTags.take nrVirtual

def genericTags : List (ExecTag W) := mips64ExecTags.drop nrVirtual

def genericOf (insn : Insn) : InsnExec W :=
  match genericTags.find? (ExecTag.covers · insn) with
  | some tag => tag.exec
  | none => .dump execUnknown

/-- LI, MOVE, B, BAL, BEQZ and BNEZ with the instructions that they are in the manual. -/
def virtualPairs : List (ExecTag W × InsnExec W) :=
  virtualTags.zip [.alu execADDIU, .alu execADDU, .branch execBEQ, .branch execBGEZAL,
    .branch execBEQ, .branch execBNE]

theorem mem_virtualPairs {tag : ExecTag W} (h : tag ∈ virtualTags) :
    ∃ x, (tag, x) ∈ virtualPairs := by
  simp only [virtualPairs, virtualTags, nrVirtual, mips64ExecTags, List.take_succ_cons,
    List.take_zero, List.zip_cons_cons, List.zip_nil_left, List.mem_cons, List.not_mem_nil,
    or_false, Prod.mk.injEq] at h ⊢
  rcases h with rfl | rfl | rfl | rfl | rfl | rfl <;> simp

/-! The fields of a word. -/

theorem bits_and {insn mask : Insn} {start stop : Nat}
    (h : (mask >>> start) &&& ((1#32 <<< (stop - start + 1)) - 1#32) =
      (1#32 <<< (stop - start + 1)) - 1#32) :
    bits (insn &&& mask) start stop = bits insn start stop := by
  rw [bits, bits, BitVec.ushiftRight_and_distrib, BitVec.and_assoc, h]

section Fields

variable {insn mask value : Insn}

theorem rs_of_and (h : insn &&& mask = value) (hmask : (mask >>> 21) &&& 31 = 31) :
    rs insn = rs value := by
  rw [rs, rs, ← h, bits_and hmask]

theorem rt_of_and (h : insn &&& mask = value) (hmask : (mask >>> 16) &&& 31 = 31) :
    rt insn = rt value := by
  rw [rt, rt, ← h, bits_and hmask]

theorem and_of_and {mask' value' : Insn} (h : insn &&& mask = value) (hmask : mask &&& mask' = mask')
    (hvalue : value &&& mask' = value') : insn &&& mask' = value' := by
  rw [← hvalue, ← h, BitVec.and_assoc, hmask]

end Fields

/-! Sign extensions. -/

theorem signExtend_eq (x : BitVec 64) {len : Nat} (h0 : 0 < len) (h : len ≤ 64) :
    signExtend x len = (x.setWidth len).signExtend 64 := by
  apply BitVec.eq_of_getLsbD_eq
  intro i hi
  rw [signExtend_getLsbD x h0 h hi, BitVec.getLsbD_signExtend, BitVec.msb_eq_getLsbD_last,
    BitVec.getLsbD_setWidth, BitVec.getLsbD_setWidth]
  by_cases hlen : i < len
  · have hmin : min i (len - 1) = i := by omega
    simp [hi, hlen, hmin]
  · have hmin : min i (len - 1) = len - 1 := by omega
    have hlast : len - 1 < len := by omega
    simp [hi, hlen, hmin, hlast]

theorem sext32_lo32 (x : BitVec 64) : sext32 (lo32 x) = signExtend x 32 := by
  rw [sext32, lo32, signExtend_eq _ (by decide) (by decide), signExtend_eq _ (by decide) (by decide),
    BitVec.setWidth_setWidth_of_le _ (by decide), BitVec.setWidth_eq]

theorem signExtend_signExtend (x : BitVec 16) :
    ((x.signExtend 64).setWidth 32).signExtend 64 = x.signExtend 64 := by
  apply BitVec.eq_of_getLsbD_eq
  intro i hi
  simp only [BitVec.getLsbD_signExtend, BitVec.msb_eq_getLsbD_last, BitVec.getLsbD_setWidth]
  by_cases h32 : i < 32
  · by_cases h16 : i < 16 <;> simp [hi, h32, h16]
  · have h16 : ¬ i < 16 := by omega
    simp [hi, h32, h16]

theorem sext32_simm (insn : Insn) : sext32 (lo32 (simm insn)) = simm insn := by
  rw [sext32_lo32, simm, signExtend_eq _ (by decide) (by decide),
    signExtend_eq _ (by decide) (by decide), signExtend_signExtend]

/-! The six pairs. -/

section Pairs

variable {r : Regs} {insn : Insn} {pc : BitVec 64}

theorem execLI_eq (h0 : r.gpr 0 = 0) (hrs : rs insn = 0) : execLI r insn = execADDIU r insn := by
  have hzero : ∀ x, lo32 0 + x = x := BitVec.zero_add
  rw [execLI, execADDIU, opRt, opRt, hrs, h0, hzero, sext32_simm]

theorem execMOVE_eq (h0 : r.gpr 0 = 0) (hrt : rt insn = 0) : execMOVE r insn = execADDU r insn := by
  have hzero : ∀ x, x + lo32 0 = x := BitVec.add_zero
  rw [execMOVE, execADDU, opRd, opRd, hrt, h0, hzero, sext32_lo32]

theorem execB_eq (hrs : rs insn = 0) (hrt : rt insn = 0) : execB r pc insn = execBEQ r pc insn := by
  simp only [execB, execBEQ, branchIf, hrs, hrt, beq_self_eq_true]

theorem execBAL_eq (h0 : r.gpr 0 = 0) (hrs : rs insn = 0) :
    execBAL r pc insn = execBGEZAL r pc insn := by
  have hlink : (r.setGpr mipsGprRa (pc + 8)).gpr 0 = 0 := by
    rw [Regs.gpr_setGpr_ne r _ (by decide), h0]
  simp only [execBAL, execBGEZAL, branchIf, if_true, hrs, hlink]
  rfl

theorem execBEQZ_eq (h0 : r.gpr 0 = 0) (hrt : rt insn = 0) :
    execBEQZ r pc insn = execBEQ r pc insn := by
  simp only [execBEQZ, execBEQ, branchIf, hrt, Bool.false_eq_true, if_false, h0]

theorem execBNEZ_eq (h0 : r.gpr 0 = 0) (hrt : rt insn = 0) :
    execBNEZ r pc insn = execBNE r pc insn := by
  simp only [execBNEZ, execBNE, branchIf, hrt, Bool.false_eq_true, if_false, h0]

end Pairs

/-- The masks and values of the instruction array without the virtual instructions. -/
def genericKeys : List (BitVec 32 × BitVec 32) := execKeys.drop nrVirtual

/-- No word of the entry at an index is taken by an entry before it. -/
def firstGeneric (n : Nat) : Bool :=
  match genericKeys[n]? with
  | some key => (genericKeys.take n).all (disjointKeys · key)
  | none => false

theorem genericOf_eq {tag : ExecTag W} {insn : Insn} (n : Nat)
    (htag : (@genericTags W)[n]? = some tag)
    (hfirst : firstGeneric n) (h : insn &&& tag.mask = tag.value) : genericOf insn = tag.exec := by
  have hcov : tag.covers insn := by rw [ExecTag.covers, h, beq_self_eq_true]
  have hkeys : genericKeys = (@genericTags W).map ExecTag.key := rfl
  have hkey : genericKeys[n]? = some tag.key := by
    rw [hkeys, List.getElem?_map, htag, Option.map_some]
  rw [firstGeneric, hkey] at hfirst
  rw [genericOf, find?_covers htag hfirst hcov]

theorem virtualPairs_run (env : Env W) (slot : Cpu W → Outcome W Unit) {cpu : Cpu W}
    (h0 : cpu.gpr mipsGprZero = 0) {insn : Insn} {pair : ExecTag W × InsnExec W}
    (hpair : pair ∈ virtualPairs) (hcov : pair.1.covers insn) :
    genericOf insn = pair.2 ∧ pair.1.exec.run env slot cpu insn = pair.2.run env slot cpu insn := by
  have hregs : cpu.toRegs.gpr 0 = 0 := h0
  simp only [virtualPairs, virtualTags, nrVirtual, mips64ExecTags, List.take_succ_cons,
    List.take_zero, List.zip_cons_cons, List.zip_nil_left, List.mem_cons, List.not_mem_nil,
    or_false] at hpair
  obtain rfl | rfl | rfl | rfl | rfl | rfl := hpair
  · have hword : insn &&& 0xffe00000 = 0x24000000 := beq_iff_eq.mp hcov
    have hgeneric : insn &&& 0xfc000000 = 0x24000000 := and_of_and hword rfl rfl
    refine ⟨genericOf_eq 2 rfl (by decide) hgeneric, ?_⟩
    simp only [InsnExec.run, execLI_eq hregs (rs_of_and hword rfl)]
  · have hword : insn &&& 0xfc1f07ff = 0x00000021 := beq_iff_eq.mp hcov
    have hgeneric : insn &&& 0xfc0007ff = 0x00000021 := and_of_and hword rfl rfl
    refine ⟨genericOf_eq 3 rfl (by decide) hgeneric, ?_⟩
    simp only [InsnExec.run, execMOVE_eq hregs (rt_of_and hword rfl)]
  · have hword : insn &&& 0xffff0000 = 0x10000000 := beq_iff_eq.mp hcov
    have hgeneric : insn &&& 0xfc000000 = 0x10000000 := and_of_and hword rfl rfl
    refine ⟨genericOf_eq 6 rfl (by decide) hgeneric, ?_⟩
    simp only [InsnExec.run, execB_eq (rs_of_and hword rfl) (rt_of_and hword rfl)]
  · have hword : insn &&& 0xffff0000 = 0x04110000 := beq_iff_eq.mp hcov
    have hgeneric : insn &&& 0xfc1f0000 = 0x04110000 := and_of_and hword rfl rfl
    refine ⟨genericOf_eq 9 rfl (by decide) hgeneric, ?_⟩
    simp only [InsnExec.run, execBAL_eq hregs (rs_of_and hword rfl)]
  · have hword : insn &&& 0xfc1f0000 = 0x10000000 := beq_iff_eq.mp hcov
    have hgeneric : insn &&& 0xfc000000 = 0x10000000 := and_of_and hword rfl rfl
    refine ⟨genericOf_eq 6 rfl (by decide) hgeneric, ?_⟩
    simp only [InsnExec.run, execBEQZ_eq hregs (rt_of_and hword rfl)]
  · have hword : insn &&& 0xfc1f0000 = 0x14000000 := beq_iff_eq.mp hcov
    have hgeneric : insn &&& 0xfc000000 = 0x14000000 := and_of_and hword rfl rfl
    refine ⟨genericOf_eq 20 rfl (by decide) hgeneric, ?_⟩
    simp only [InsnExec.run, execBNEZ_eq hregs (rt_of_and hword rfl)]

/-- The handler of each virtual instruction does what the instruction does that its words
are without it, so an instruction does the same without the virtual entries. -/
theorem virtual_same (env : Env W) (slot : Cpu W → Outcome W Unit) {cpu : Cpu W}
    (h0 : cpu.gpr mipsGprZero = 0) (insn : Insn) :
    (∀ pair ∈ virtualPairs, pair.1.covers insn → genericOf insn = pair.2 ∧
      pair.1.exec.run env slot cpu insn = pair.2.run env slot cpu insn) ∧
    execInsn env slot cpu insn = (genericOf insn).run env slot (incCp0Cnt cpu) insn := by
  refine ⟨fun pair hpair hcov => virtualPairs_run env slot h0 hpair hcov, ?_⟩
  have htags : @mips64ExecTags W = virtualTags ++ genericTags := (List.take_append_drop _ _).symm
  have hcpu : (incCp0Cnt cpu).gpr mipsGprZero = 0 := h0
  rw [execInsn_run, execOf, htags, List.find?_append]
  cases hfind : (@virtualTags W).find? (ExecTag.covers · insn) with
  | some tag =>
    have hcov : tag.covers insn := by simpa using List.find?_some hfind
    obtain ⟨x, hx⟩ := mem_virtualPairs (List.mem_of_find?_eq_some hfind)
    obtain ⟨hgeneric, hrun⟩ := virtualPairs_run env slot hcpu hx hcov
    rw [Option.some_or, hgeneric]
    exact hrun
  | none =>
    rw [Option.none_or]
    rfl

/-- LI of 5 into register 2 -/
theorem virtual_same_li :
    execInsn quietEnv (fun cpu => .done () cpu)
        (ramCpu [] (fun _ => 0) fun _ => ⟨0, 0, 0, 0⟩) 0x24020005 =
      (genericOf 0x24020005).run quietEnv (fun cpu => .done () cpu)
        (incCp0Cnt (ramCpu [] (fun _ => 0) fun _ => ⟨0, 0, 0, 0⟩)) 0x24020005 :=
  (@virtual_same Unit quietEnv (fun cpu => .done () cpu)
    (ramCpu [] (fun _ => 0) fun _ => ⟨0, 0, 0, 0⟩) rfl 0x24020005).2

end Dynamips.Mips64
