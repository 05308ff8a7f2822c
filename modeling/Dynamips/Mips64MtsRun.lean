import Dynamips.Mips64MtsTlb

/-! The accesses that a turn of the main loop makes, and what the virtual TLB
gives them over the runs of the interpreter. -/
set_option autoImplicit false

namespace Dynamips.Mips64
open Runs TagCache

variable {W : Type} {env : Env W} {cpu cpu' : Cpu W} {insn : Insn}

def readAt (env : Env W) (cpu : Cpu W) (vaddr : BitVec 64) (op : MemOp) (size : Nat) : Access W :=
  ⟨cpu, vaddr, op, size, .read, env.data⟩

def writeAt (cpu : Cpu W) (vaddr : BitVec 64) (op : MemOp) (size : Nat) (data : BitVec 64) :
    Access W :=
  ⟨cpu, vaddr, op, size, .write, data⟩

def Outcome.after {α : Type} (o : Outcome W α) (l : α → Cpu W → List (Access W)) :
    List (Access W) :=
  match o with
  | .done a cpu => l a cpu
  | _ => []

def mergeAccesses (op : MemOp) (size : Nat)
    (merge : BitVec 64 → BitVec 64 → BitVec 64 → BitVec 64) (env : Env W) (cpu : Cpu W)
    (vaddr naddr : BitVec 64) (reg : RegNum) : List (Access W) :=
  readAt env cpu naddr op size ::
    (mtsRead env cpu naddr op size).after fun data cpu =>
      [writeAt cpu naddr op size (merge (cpu.gpr reg) vaddr data)]

/-- The accesses of an entry of `mem_op_fn`, in order. -/
def memAccesses (op : MemOp) (env : Env W) (cpu : Cpu W) (vaddr : BitVec 64) (reg : RegNum) :
    List (Access W) :=
  match op with
  | .lb | .lbu => [readAt env cpu vaddr op 1]
  | .lh | .lhu => [readAt env cpu vaddr op 2]
  | .lw | .lwu | .ll => [readAt env cpu vaddr op 4]
  | .ld | .ldc1 => [readAt env cpu vaddr op 8]
  | .lwl | .lwr => [readAt env cpu (vaddr &&& ~~~0x03) op 4]
  | .ldl | .ldr => [readAt env cpu (vaddr &&& ~~~0x07) op 8]
  | .sb => [writeAt cpu vaddr op 1 (cpu.gpr reg &&& 0xff)]
  | .sh => [writeAt cpu vaddr op 2 (cpu.gpr reg &&& 0xffff)]
  | .sw => [writeAt cpu vaddr op 4 (cpu.gpr reg &&& 0xffffffff)]
  | .sd => [writeAt cpu vaddr op 8 (cpu.gpr reg)]
  | .sdc1 => [writeAt cpu vaddr op 8 (cpu.fpu reg)]
  | .swl => mergeAccesses op 4 swlData env cpu vaddr (vaddr &&& ~~~0x03) reg
  | .swr => mergeAccesses op 4 swrData env cpu vaddr (vaddr &&& ~~~0x03) reg
  | .sdl => mergeAccesses op 8 sdlData env cpu vaddr (vaddr &&& ~~~0x07) reg
  | .sdr => mergeAccesses op 8 sdrData env cpu vaddr (vaddr &&& ~~~0x07) reg
  | .sc => if cpu.llBit ≠ 0 then [writeAt cpu vaddr op 4 (cpu.gpr reg &&& 0xffffffff)] else []
  | .cache | .lookup => []

/-- What a function that makes these accesses preserves: if the condition holds of
each of them, each starts in a state with the property, and so does what follows
the function. -/
def Preserves {α : Type} (P : Cpu W → Prop) (ok : Access W → Prop) (l : List (Access W))
    (o : Outcome W α) : Prop :=
  (∀ a ∈ l, ok a) → (∀ a ∈ l, P a.cpu) ∧ o.Post P P

/-- What a function that makes these accesses keeps: every access starts in a
coherent state, and so does what follows the function. -/
def Keeps {α : Type} (env : Env W) (l : List (Access W)) (o : Outcome W α) : Prop :=
  (∀ a ∈ l, AccessOk env a) → (∀ a ∈ l, Coherent a.cpu) ∧ o.Post Coherent Coherent

/-- The access of `mips64_exec_fetch`, which remembers the last page. -/
def fetchAccesses (env : Env W) (cpu : Cpu W) (pc : BitVec 64) : List (Access W) :=
  let execPage := pc &&& ~~~mipsMinPageImask
  if execPage ≠ cpu.njmExecPage then
    [readAt env { cpu with njmExecPage := execPage } execPage .lookup 4]
  else []

def memop2Accesses (env : Env W) (cpu : Cpu W) (m : MemInsn) (base : RegNum) (offset : BitVec 64)
    (dstReg : RegNum) : List (Access W) :=
  let vaddr := cpu.gpr base + signExtend offset 16
  let cpu := if m.keepLlBit then cpu else { cpu with llBit := 0 }
  memAccesses m.memop env cpu vaddr dstReg

/-- The accesses of one instruction: those of its opcode, or the fetch of its
delay slot. -/
def insnAccesses (env : Env W) (cpu : Cpu W) (insn : Insn) : List (Access W) :=
  match (execOf insn : InsnExec W) with
  | .mem m => memop2Accesses env (incCp0Cnt cpu) m (rs insn) (imm insn) (rt insn)
  | .dump _ => [readAt env (incCp0Cnt cpu) cpu.pc .lookup 4]
  | .branch _ =>
    match slotEntry cpu insn with
    | some cpu => fetchAccesses env cpu (cpu.pc + 4)
    | none => []
  | .alu _ | .cop _ | .ctl _ => []

def turnAccesses (env : Env W) (depth : Nat) (cpu : Cpu W) : List (Access W) :=
  if cpu.state ≠ .running ∨ (execHead cpu).irqPending ≠ 0 then []
  else
    fetchAccesses env (execHead cpu) (execHead cpu).pc ++
      (turnStarts env depth cpu).flatMap fun p => insnAccesses env p.1 p.2

/-- What the virtual TLB and the page that the CPU executes from depend on. -/
def Cpu.fetchState (cpu : Cpu W) : MtsState × BitVec 64 × Option HostAddr :=
  (cpu.mtsState, cpu.njmExecPage, cpu.njmExecPtr)

theorem fetchState_updateIrqFlag (cpu : Cpu W) : (updateIrqFlag cpu).fetchState = cpu.fetchState := by
  rw [Cpu.fetchState, mtsState_updateIrqFlag]
  simp only [updateIrqFlag]
  split <;> rfl

theorem fetchState_triggerException (cpu : Cpu W) (exc : ExcCode) (bdSlot : Bool) :
    (triggerException cpu exc bdSlot).fetchState = cpu.fetchState := by
  rw [Cpu.fetchState, mtsState_triggerException]
  simp only [triggerException]
  split <;> rfl

theorem fetchState_setCp0 (cpu : Cpu W) {reg : RegNum} (val : BitVec 64) (h : mipsCp0TlbHi ≠ reg) :
    (cpu.setCp0 reg val).fetchState = cpu.fetchState := by
  rw [Cpu.fetchState, mtsState_setCp0 _ _ h]
  rfl

theorem fetchState_eret (cpu : Cpu W) : (eret cpu).fetchState = cpu.fetchState := by
  have hstatus : mipsCp0TlbHi ≠ mipsCp0Status := by decide
  simp only [eret, fetchState_updateIrqFlag]
  exact fetchState_setCp0 _ _ hstatus

theorem fetchState_triggerIrq (cpu : Cpu W) : (triggerIrq cpu).fetchState = cpu.fetchState := by
  simp only [triggerIrq]
  split
  · rfl
  split
  · rw [fetchState_triggerException, fetchState_updateIrqFlag]
  · exact fetchState_updateIrqFlag cpu

theorem fetchState_triggerTimerIrq (cpu : Cpu W) :
    (triggerTimerIrq cpu).fetchState = cpu.fetchState := by
  have hcount : mipsCp0TlbHi ≠ mipsCp0Count := by decide
  simp only [triggerTimerIrq, fetchState_updateIrqFlag]
  exact fetchState_setCp0 _ _ hcount

theorem fetchState_execHead (cpu : Cpu W) : (execHead cpu).fetchState = cpu.fetchState := by
  have htimer : (execTimer cpu).fetchState = cpu.fetchState := by
    simp only [execTimer]
    split
    · split
      · exact (fetchState_triggerIrq _).trans (fetchState_triggerTimerIrq _)
      · rfl
    · rfl
  exact htimer

section Preserved

variable {P : Cpu W → Prop} {ok : Access W → Prop} {okCop : Cpu W → Insn → Prop}

theorem preserves_done {α : Type} {a : α} (h : P cpu) : Preserves P ok [] (.done a cpu) :=
  fun _ => ⟨by simp, h⟩

theorem Preserves.bind {α β : Type} {l : List (Access W)} {o : Outcome W α}
    {f : α → Cpu W → Outcome W β} {l' : α → Cpu W → List (Access W)} (h : Preserves P ok l o)
    (hf : ∀ a cpu, P cpu → Preserves P ok (l' a cpu) (f a cpu)) :
    Preserves P ok (l ++ o.after l') (o.bind f) := by
  intro hok
  rw [List.forall_mem_append] at hok ⊢
  obtain ⟨hl, hpost⟩ := h hok.1
  cases o with
  | done a cpu =>
    obtain ⟨hl', hpost'⟩ := hf a cpu hpost hok.2
    exact ⟨⟨hl, hl'⟩, hpost'⟩
  | loopEnter cpu => exact ⟨⟨hl, by simp [Outcome.after]⟩, hpost⟩
  | fault => exact ⟨⟨hl, by simp [Outcome.after]⟩, trivial⟩

theorem Preserves.map {α β : Type} {l : List (Access W)} {o : Outcome W α}
    {f : α → Cpu W → Outcome W β} (h : Preserves P ok l o)
    (hf : ∀ a cpu, P cpu → (f a cpu).Post P P) : Preserves P ok l (o.bind f) := by
  intro hok
  obtain ⟨hl, hpost⟩ := h hok
  exact ⟨hl, hpost.bind hf⟩

/-- A property of the state that a turn preserves where the accesses and the
coprocessor instructions meet their conditions. -/
structure TurnInvariant (env : Env W) (P : Cpu W → Prop) (ok : Access W → Prop)
    (okCop : Cpu W → Insn → Prop) : Prop where
  congr : ∀ {cpu cpu' : Cpu W}, P cpu → cpu'.fetchState = cpu.fetchState → P cpu'
  access : ∀ {a : Access W}, P a.cpu → ok a → (a.run env).Post P P
  fetch : ∀ {cpu : Cpu W} {pc : BitVec 64}, P cpu → (∀ a ∈ fetchAccesses env cpu pc, ok a) →
    (execFetch env cpu pc).Post P P
  cop : ∀ {cpu cpu' : Cpu W} {insn : Insn} {f : Cpu W → Insn → Option (Cpu W)},
    execOf insn = .cop f → P cpu → okCop cpu insn → f cpu insn = some cpu' → P cpu'

variable (inv : TurnInvariant env P ok okCop)
include inv

theorem preserves_access {a : Access W} (h : P a.cpu) : Preserves P ok [a] (a.run env) := by
  intro hok
  rw [List.forall_mem_singleton] at hok ⊢
  exact ⟨h, inv.access h hok⟩

theorem mtsRead_preserves (h : P cpu) (vaddr : BitVec 64) (op : MemOp) (size : Nat) :
    Preserves P ok [readAt env cpu vaddr op size] (mtsRead env cpu vaddr op size) := by
  refine Preserves.map (preserves_access inv h) fun res mid hmid => ?_
  split
  · exact hmid
  · exact hmid

theorem mtsWrite_preserves (h : P cpu) (vaddr : BitVec 64) (op : MemOp) (size : Nat)
    (data : BitVec 64) :
    Preserves P ok [writeAt cpu vaddr op size data] (mtsWrite env cpu vaddr op size data) := by
  refine Preserves.map (preserves_access inv h) fun res mid hmid => ?_
  split
  · exact inv.congr hmid rfl
  · exact hmid

theorem mtsMerge_preserves (h : P cpu) (op : MemOp) (size : Nat)
    (merge : BitVec 64 → BitVec 64 → BitVec 64 → BitVec 64) (vaddr naddr : BitVec 64) (reg : RegNum) :
    Preserves P ok (mergeAccesses op size merge env cpu vaddr naddr reg)
      (mtsMerge op size merge env cpu vaddr naddr reg) :=
  (mtsRead_preserves inv h naddr op size).bind fun _ _ hmid =>
    mtsWrite_preserves inv hmid naddr op size _

theorem memOpFn_preserves (h : P cpu) (op : MemOp) (vaddr : BitVec 64) (reg : RegNum) :
    Preserves P ok (memAccesses op env cpu vaddr reg) (memOpFn op env cpu vaddr reg) := by
  cases op with
  | lb | lbu | lh | lhu | lw | lwu | ld | lwl | lwr | ldl | ldr | ll | ldc1 =>
    exact (mtsRead_preserves inv h _ _ _).map fun _ _ hmid => inv.congr hmid rfl
  | sb | sh | sw | sd | sdc1 => exact mtsWrite_preserves inv h _ _ _ _
  | swl | swr | sdl | sdr => exact mtsMerge_preserves inv h _ _ _ _ _ _
  | sc =>
    simp only [memOpFn, mtsSc, memAccesses]
    split
    · exact (mtsWrite_preserves inv h _ _ _ _).map fun _ _ hmid => inv.congr hmid rfl
    · exact (preserves_done h).map fun _ _ hmid => inv.congr hmid rfl
  | cache | lookup => exact preserves_done h

theorem dumpRegs_preserves (h : P cpu) :
    Preserves P ok [readAt env cpu cpu.pc .lookup 4] (dumpRegs env cpu) := by
  refine Preserves.map (Preserves.map (preserves_access inv h) fun _ _ hmid => hmid)
    fun _ mid hmid => ?_
  split
  · exact hmid
  · trivial

theorem execMemop2_preserves (h : P cpu) (m : MemInsn) (base : RegNum) (offset : BitVec 64)
    (dstReg : RegNum) :
    Preserves P ok (memop2Accesses env cpu m base offset dstReg)
      (execMemop2 env cpu m base offset dstReg) := by
  refine memOpFn_preserves inv ?_ _ _ _
  split
  · exact h
  · exact inv.congr h rfl

theorem ctl_preserves {f : Cpu W → Insn → Bool × Cpu W} (hf : execOf insn = .ctl f)
    (h : P cpu) : P (f cpu insn).2 := by
  obtain ⟨key, hctl, -⟩ := mem_ctlTags hf
  have htrap : ∀ a b, P (trapIfEq cpu a b).2 := by
    intro a b
    simp only [trapIfEq]
    split
    · exact inv.congr h (fetchState_triggerException _ _ _)
    · exact h
  simp only [ctlTags_eq, List.mem_cons, Prod.mk.injEq, List.not_mem_nil, or_false] at hctl
  obtain ⟨-, rfl⟩ | ⟨-, rfl⟩ | ⟨-, rfl⟩ | ⟨-, rfl⟩ := hctl
  · exact inv.congr h (fetchState_eret cpu)
  · exact inv.congr h (fetchState_triggerException _ _ _)
  · exact htrap _ _
  · exact htrap _ _

theorem slotEntry_preserves (h : P cpu) (hs : slotEntry cpu insn = some cpu') : P cpu' := by
  obtain ⟨b, -, -, rfl⟩ := slotEntry_eq_some.mp hs
  exact inv.congr h rfl

theorem execInsn_preserves {slot : Cpu W → Outcome W Unit} (h : P cpu)
    (hacc : ∀ a ∈ insnAccesses env cpu insn, ok a) (hcop : okCop (incCp0Cnt cpu) insn)
    (hslot : ∀ mid, slotEntry cpu insn = some mid → (slot mid).Post P P) :
    (execInsn env slot cpu insn).Post P P := by
  have hcnt : P (incCp0Cnt cpu) := inv.congr h rfl
  simp only [insnAccesses] at hacc
  simp only [execInsn]
  cases hexec : (execOf insn : InsnExec W) with
  | alu f =>
    exact (Outcome.post_ofOption _ hcnt).bind fun _ _ hmid => inv.congr hmid rfl
  | branch f =>
    have hb : branchOf cpu insn = some (f cpu.toRegs cpu.pc insn) :=
      branchOf_eq_some.mpr ⟨f, hexec, rfl⟩
    change (execBranch slot (incCp0Cnt cpu) (f cpu.toRegs cpu.pc insn)).Post P P
    simp only [execBranch]
    split
    · exact inv.congr h rfl
    · rename_i hl
      refine (hslot _ ?_).bind fun _ _ hmid => inv.congr hmid rfl
      exact slotEntry_eq_some.mpr ⟨_, hb, by simpa using hl, rfl⟩
  | cop f =>
    simp only
    cases hf : f (incCp0Cnt cpu) insn with
    | none => trivial
    | some after => exact inv.cop hexec hcnt hcop hf
  | ctl f => exact ctl_preserves inv hexec hcnt
  | dump f =>
    simp only [hexec] at hacc
    have hdump := (dumpRegs_preserves inv hcnt hacc).2
    cases dump_cases hexec with
    | inl hb =>
      subst hb
      exact hdump.bind fun _ _ hmid => inv.congr hmid (fetchState_triggerException _ _ _)
    | inr hu =>
      subst hu
      exact hdump.bind fun _ _ hmid => hmid
  | mem m =>
    simp only [hexec] at hacc
    exact (execMemop2_preserves inv hcnt m _ _ _ hacc).2.bind fun _ _ hmid => hmid

omit inv in
theorem insnAccesses_branch (hs : slotEntry cpu insn = some cpu') :
    insnAccesses env cpu insn = fetchAccesses env cpu' (cpu'.pc + 4) := by
  obtain ⟨b, hb, -, -⟩ := slotEntry_eq_some.mp hs
  obtain ⟨f, hexec, -⟩ := branchOf_eq_some.mp hb
  simp only [insnAccesses, hexec, hs]

theorem slotFetch_preserves (h : P cpu) (hacc : ∀ a ∈ insnAccesses env cpu insn, ok a)
    (hs : slotEntry cpu insn = some cpu') : (execFetch env cpu' (cpu'.pc + 4)).Post P P := by
  rw [insnAccesses_branch hs] at hacc
  exact inv.fetch (slotEntry_preserves inv h hs) hacc

theorem execSingle_preserves {depth : Nat} (h : P cpu)
    (hok : ∀ p ∈ startsFrom env depth cpu insn,
      (∀ a ∈ insnAccesses env p.1 p.2, ok a) ∧ okCop (incCp0Cnt p.1) p.2) :
    (execSingleInstruction env depth cpu insn).Post P P ∧
      ∀ p ∈ startsFrom env depth cpu insn, P p.1 := by
  induction depth generalizing cpu insn with
  | zero => exact ⟨trivial, by simp [startsFrom]⟩
  | succ depth ih =>
    simp only [startsFrom, List.forall_mem_cons] at hok ⊢
    obtain ⟨⟨hacc, hcop⟩, hrest⟩ := hok
    have hnext : ∀ next, slotStart env cpu insn = some next →
        (execSingleInstruction env depth next.1 next.2).Post P P ∧
          ∀ p ∈ startsFrom env depth next.1 next.2, P p.1 := by
      intro next hn
      simp only [hn] at hrest
      obtain ⟨mid, hentry, hfetch⟩ := slotStart_eq_some.mp hn
      have hpost := slotFetch_preserves inv h hacc hentry
      rw [hfetch] at hpost
      exact ih hpost hrest
    refine ⟨execInsn_preserves inv h hacc hcop fun mid hmid => ?_, h, ?_⟩
    · have hfetch := slotFetch_preserves inv h hacc hmid
      simp only [execBdslot]
      cases hf : execFetch env mid (mid.pc + 4) with
      | done slot after =>
        have hn : slotStart env cpu insn = some (after, slot) :=
          slotStart_eq_some.mpr ⟨mid, hmid, hf⟩
        exact (hnext _ hn).1.bind fun _ _ hafter => hafter
      | loopEnter after =>
        rw [hf] at hfetch
        exact hfetch
      | fault => trivial
    · cases hn : slotStart env cpu insn with
      | none => simp
      | some next => exact (hnext next hn).2

theorem execTurn_preserves {depth : Nat} (h : P cpu)
    (hrun : ¬ (cpu.state ≠ .running ∨ (execHead cpu).irqPending ≠ 0) →
      ((execFetch env (execHead cpu) (execHead cpu).pc).bind fun insn cpu =>
        execSingleInstruction env depth cpu insn).Post P P)
    (ht : execTurn env depth cpu = some cpu') : P cpu' := by
  simp only [execTurn] at ht
  split_ifs at ht with hstop hirq
  · cases ht
    exact inv.congr h ((fetchState_triggerIrq _).trans (fetchState_execHead cpu))
  have hpost := hrun (not_or.mpr ⟨hstop, hirq⟩)
  split at ht
  · rename_i res after ho
    rw [ho] at hpost
    cases ht
    split
    · exact hpost
    · exact inv.congr hpost rfl
  · rename_i after ho
    rw [ho] at hpost
    cases ht
    exact hpost
  · cases ht

theorem turn_preserves {depth : Nat} (h : P cpu) (hacc : ∀ a ∈ turnAccesses env depth cpu, ok a)
    (hcops : ∀ p ∈ turnStarts env depth cpu, okCop (incCp0Cnt p.1) p.2) :
    (∀ p ∈ turnStarts env depth cpu, P p.1) ∧
      ∀ cpu', execTurn env depth cpu = some cpu' → P cpu' := by
  by_cases hidle : cpu.state ≠ .running ∨ (execHead cpu).irqPending ≠ 0
  · rw [turnStarts, if_pos hidle]
    exact ⟨by simp, fun cpu' => execTurn_preserves inv h fun hrun => absurd hidle hrun⟩
  rw [turnAccesses, if_neg hidle, List.forall_mem_append] at hacc
  obtain ⟨hfetchOk, hinsnsOk⟩ := hacc
  have hpost := inv.fetch (inv.congr h (fetchState_execHead cpu)) hfetchOk
  rw [turnStarts, if_neg hidle] at hcops hinsnsOk ⊢
  cases hf : execFetch env (execHead cpu) (execHead cpu).pc with
  | fault =>
    refine ⟨by simp, fun cpu' => execTurn_preserves inv h fun _ => ?_⟩
    rw [hf]
    trivial
  | loopEnter mid =>
    rw [hf] at hpost
    refine ⟨by simp, fun cpu' => execTurn_preserves inv h fun _ => ?_⟩
    rw [hf]
    exact hpost
  | done insn mid =>
    rw [hf] at hpost
    simp only [hf, List.forall_mem_flatMap] at hcops hinsnsOk ⊢
    obtain ⟨hsingle, hstarts⟩ := @execSingle_preserves W env mid insn P ok okCop inv depth hpost
      fun p hp => ⟨hinsnsOk p hp, hcops p hp⟩
    refine ⟨hstarts, fun cpu' => execTurn_preserves inv h fun _ => ?_⟩
    rw [hf]
    exact hsingle

end Preserved

theorem execFetch_keeps (h : Coherent cpu) (pc : BitVec 64) :
    Keeps env (fetchAccesses env cpu pc) (execFetch env cpu pc) := by
  simp only [fetchAccesses, execFetch]
  have hmoved : Coherent { cpu with njmExecPage := pc &&& ~~~mipsMinPageImask } := h.congr rfl
  refine Preserves.map (P := Coherent) ?_ fun _ mid hmid => ?_
  · split_ifs
    · intro ok
      rw [List.forall_mem_singleton] at ok ⊢
      have hlookup : (mtsLookup env _ _).Post Coherent Coherent :=
        (access_coherent hmoved ok).bind fun _ _ hmid => hmid
      exact ⟨hmoved, hlookup.bind fun _ _ hmid => hmid.congr rfl⟩
    · exact preserves_done h
  · split
    · exact hmid
    · trivial

theorem coherent_invariant : TurnInvariant env Coherent (AccessOk env) CopOk where
  congr h hs := h.congr (congrArg Prod.fst hs)
  access := access_coherent
  fetch h ok := (execFetch_keeps h _ ok).2
  cop := coherent_cop

/-- The accesses of the instruction are fine, and so is what it does as a
coprocessor instruction. -/
structure InsnOk (env : Env W) (cpu : Cpu W) (insn : Insn) : Prop where
  accesses : ∀ a ∈ insnAccesses env cpu insn, AccessOk env a
  cop : CopOk (incCp0Cnt cpu) insn

theorem insnAccesses_coherent (h : Coherent cpu) (ok : InsnOk env cpu insn) :
    ∀ a ∈ insnAccesses env cpu insn, Coherent a.cpu := by
  have hcnt : Coherent (incCp0Cnt cpu) := h.congr rfl
  have hacc := ok.accesses
  simp only [insnAccesses] at hacc ⊢
  split
  · rename_i m hm
    simp only [hm] at hacc
    exact (execMemop2_preserves coherent_invariant hcnt m _ _ _ hacc).1
  · rename_i hd
    simp only [hd] at hacc
    exact (dumpRegs_preserves coherent_invariant hcnt hacc).1
  · rename_i hb
    simp only [hb] at hacc
    split
    · rename_i mid hmid
      simp only [hmid] at hacc
      exact (execFetch_keeps (slotEntry_preserves (@coherent_invariant W env) h hmid) _ hacc).1
    · simp
  · simp
  · simp
  · simp

structure TurnOk (env : Env W) (depth : Nat) (cpu : Cpu W) : Prop where
  accesses : ∀ a ∈ turnAccesses env depth cpu, AccessOk env a
  cops : ∀ p ∈ turnStarts env depth cpu, CopOk (incCp0Cnt p.1) p.2

theorem turn_coherent {depth : Nat} (h : Coherent cpu) (ok : TurnOk env depth cpu) :
    (∀ a ∈ turnAccesses env depth cpu, Coherent a.cpu) ∧
      ∀ cpu', execTurn env depth cpu = some cpu' → Coherent cpu' := by
  obtain ⟨hacc, hcops⟩ := ok
  obtain ⟨hstarts, hend⟩ := turn_preserves coherent_invariant h hacc hcops
  refine ⟨?_, hend⟩
  by_cases hidle : cpu.state ≠ .running ∨ (execHead cpu).irqPending ≠ 0
  · rw [turnAccesses, if_pos hidle]
    simp
  · rw [turnAccesses, if_neg hidle, List.forall_mem_append, List.forall_mem_flatMap] at hacc ⊢
    have hhead := h.congr (congrArg Prod.fst (fetchState_execHead cpu))
    refine ⟨(execFetch_keeps hhead _ hacc.1).1, fun p hp => ?_⟩
    exact insnAccesses_coherent (hstarts p hp) ⟨hacc.2 p hp, hcops p hp⟩

def StepOk (env : Env W) (depth : Nat) (cpu : Cpu W) (e : CpuEvent W) : Prop :=
  match e with
  | .turn => TurnOk env depth cpu
  | .outside shared rebuild => rebuild = true ∨ KeepsHosts cpu shared.vm

def eventAccesses (env : Env W) (depth : Nat) (cpu : Cpu W) (e : CpuEvent W) : List (Access W) :=
  match e with
  | .turn => turnAccesses env depth cpu
  | .outside _ _ => []

theorem step_coherent {depth : Nat} {e : CpuEvent W} (h : Coherent cpu)
    (ok : StepOk env depth cpu e) (hs : CpuStep env depth cpu e cpu') : Coherent cpu' := by
  cases e with
  | turn => exact (turn_coherent h ok).2 cpu' hs
  | outside shared rebuild =>
    simp only [CpuStep] at hs
    subst hs
    split
    · exact coherent_invalidate h.masks
    · rename_i hr
      exact h.of_kept rfl rfl (ok.resolve_left hr)

def HitsAgree (env : Env W) (cpu : Cpu W) : Prop :=
  ∀ vaddr opCode opSize opType data, Canonical cpu.addrMode vaddr →
    HitAgrees env ⟨cpu, vaddr, opCode, opSize, opType, data⟩

/-- In a run that starts with an empty virtual TLB and whose steps all meet the
condition, the fast path agrees with the slow path in every state, and at every
access that a turn makes. -/
theorem mts_agrees {env : Env W} {depth : Nat} {s t : Cpu W} {trace : List (Cpu W × CpuEvent W)}
    (hrun : CpuRun env depth s trace t) (hmasks : MasksOk s)
    (hempty : ∀ b, s.mtsCache b = MtsEntry.invalid s.addrMode)
    (hok : AllSteps (StepOk env depth) trace) :
    Always (HitsAgree env) trace t ∧
      AllSteps (fun cpu e => ∀ a ∈ eventAccesses env depth cpu e, HitAgrees env a) trace := by
  have hstart : Coherent s := by
    refine ⟨hmasks, agrees_of_empty fun b => ?_⟩
    rw [hempty]
    exact invalid_not_valid s.addrMode
  have hall : Always Coherent trace t := hrun.invariant (fun _ _ _ => step_coherent) hstart hok
  have hhits : ∀ cpu, Coherent cpu → HitsAgree env cpu :=
    fun cpu h vaddr opCode opSize opType data hc => hit_agrees h hc opCode opSize opType data
  refine ⟨⟨hhits t hall.1, fun x hx => hhits x.1 (hall.2 x hx)⟩, fun x hx a ha => ?_⟩
  obtain ⟨cpu, e⟩ := x
  have hx' := hok _ hx
  cases e with
  | turn =>
    have hturn : TurnOk env depth cpu := hx'
    have ha' := (turn_coherent (hall.2 _ hx) hturn).1 a ha
    exact hit_agrees ha' (hturn.accesses a ha).canonical _ _ _ _
  | outside shared rebuild => cases ha

theorem accessOk_load {a : Access W} (hload : a.opType = .read)
    (hc : Canonical a.cpu.addrMode a.vaddr) (hd : (deviceReply env a).isNone) : AccessOk env a :=
  { canonical := hc
    alone := fun _ _ _ hunshares => by
      rw [hload] at hunshares
      cases hunshares.1
    device := fun reply hr => by
      rw [hr] at hd
      cases hd }

theorem copOk_of_not_mem (hm : ¬ movesToCp0 insn) (ht : insn ∉ [tlbrInsn, tlbwiInsn, tlbwrInsn]) :
    CopOk cpu insn := by
  simp only [List.mem_cons, List.not_mem_nil, or_false, not_or] at ht
  exact
    { entryHi := fun h => absurd h hm
      tlbr := fun h => absurd h ht.1
      tlbwi := fun h => absurd h ht.2.1
      tlbwr := fun h => absurd h ht.2.2 }

/-- A TLB entry of address space 0 that maps the page pair at address 0. -/
def pairTlb (i : Fin 64) : TlbEntry :=
  if i.val = 0 then ⟨0, 0, 0x1a, 0x5a⟩ else ⟨0, 0x80000000, 0, 0⟩

theorem masksOk_pair (words : List Insn) (gpr : RegNum → BitVec 64) :
    MasksOk (ramCpu words gpr pairTlb) := by
  intro i
  simp only [ramCpu, pairTlb]
  split <;> rfl

/-- `lw $3,0($2)` and `lw $3,4($2)` from a mapped page -/
def loadsCpu : Cpu Unit :=
  ramCpu [0x8c430000, 0x8c430004] (fun i => if i = 2 then 0x1000 else 0) pairTlb

def loadsOnly (cpu : Cpu Unit) : Bool :=
  (turnAccesses quietEnv 1 cpu).all (fun a =>
    a.opType == .read && decide (Canonical a.cpu.addrMode a.vaddr) &&
      (deviceReply quietEnv a).isNone) &&
  (turnStarts quietEnv 1 cpu).all fun p =>
    !decide (movesToCp0 p.2) && decide (p.2 ∉ [tlbrInsn, tlbwiInsn, tlbwrInsn])

theorem turnOk_loads {cpu : Cpu Unit} (h : loadsOnly cpu) : TurnOk quietEnv 1 cpu := by
  simp only [loadsOnly, Bool.and_eq_true, List.all_eq_true, beq_iff_eq, decide_eq_true_eq,
    Bool.not_eq_true', decide_eq_false_iff_not] at h
  exact
    { accesses := fun a ha => accessOk_load (h.1 a ha).1.1 (h.1 a ha).1.2 (h.1 a ha).2
      cops := fun p hp => copOk_of_not_mem (h.2 p hp).1 (h.2 p hp).2 }

theorem run_two {depth : Nat} {s mid t : Cpu W} (h1 : execTurn env depth s = some mid)
    (h2 : execTurn env depth mid = some t) :
    CpuRun env depth s [(s, .turn), (mid, .turn)] t := by
  have hs1 : CpuStep env depth s .turn mid := h1
  have hs2 : CpuStep env depth mid .turn t := h2
  exact Run.cons hs1 (Run.cons hs2 Run.start)

theorem mts_agrees_loads :
    ∃ mid t, CpuRun quietEnv 1 loadsCpu [(loadsCpu, .turn), (mid, .turn)] t ∧
      (fastHit t 0x1000 .read).isSome ∧ HitsAgree quietEnv t := by
  have hfirst : loadsOnly loadsCpu := by decide
  have hend : (execTurn quietEnv 1 loadsCpu).any (fun mid => loadsOnly mid &&
      (execTurn quietEnv 1 mid).any fun t => (fastHit t 0x1000 .read).isSome) := by decide
  simp only [Option.any_eq_true, Bool.and_eq_true] at hend
  obtain ⟨mid, h1, hsecond, t, h2, hhit⟩ := hend
  have hrun := run_two h1 h2
  refine ⟨mid, t, hrun, hhit, (mts_agrees hrun (masksOk_pair _ _) (fun _ => rfl) ?_).1.1⟩
  intro x hx
  simp only [List.mem_cons, List.not_mem_nil, or_false] at hx
  obtain rfl | rfl := hx
  · exact turnOk_loads hfirst
  · exact turnOk_loads hsecond

/-- `lw $3,0($2)` from a mapped page and `mtc0 $4,$10`, which selects address
space 1 -/
def switchCpu : Cpu Unit :=
  ramCpu [0x8c430000, 0x40845000] (fun i => if i = 2 then 0x1000 else if i = 4 then 1 else 0)
    pairTlb

def slowServes (env : Env W) (a : Access W) : Bool :=
  match slowLookup env a.cpu a.vaddr a.opCode a.opType a.data with
  | .done (some _, _) _ => true
  | _ => false

/-- The page of the first address space is still there in the second one, which
has no entry for it. -/
theorem not_mts_agrees : ¬ ∀ (env : Env Unit) (depth : Nat) (s t : Cpu Unit)
    (trace : List (Cpu Unit × CpuEvent Unit)), CpuRun env depth s trace t → MasksOk s →
      (∀ b, s.mtsCache b = MtsEntry.invalid s.addrMode) → HitsAgree env t := by
  intro h
  have hend : ((execTurn quietEnv 1 switchCpu).bind (execTurn quietEnv 1)).any (fun cpu =>
      (fastHit cpu 0x1000 .read).isSome && !slowServes quietEnv (readAt quietEnv cpu 0x1000 .lw 4)) := by
    decide
  simp only [Option.any_eq_true, Option.bind_eq_some_iff, Bool.and_eq_true, Bool.not_eq_true',
    Option.isSome_iff_exists] at hend
  obtain ⟨t, ⟨mid, h1, h2⟩, ⟨entry, hhit⟩, hslow⟩ := hend
  have hdirect : ¬ isKseg01 0x1000 := by decide
  have hagree := h _ _ _ _ _ (run_two h1 h2) (masksOk_pair _ _) (fun _ => rfl) 0x1000 .lw 4 .read
    quietEnv.data fun _ hk => absurd hk hdirect
  obtain ⟨_, _, hserved, -⟩ := hagree entry hhit
  simp only at hserved
  simp only [slowServes, readAt, hserved] at hslow
  cases hslow

end Dynamips.Mips64
