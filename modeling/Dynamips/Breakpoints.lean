import Dynamips.Lib.Runs
import Dynamips.Lib.Sweep

/-! The virtual breakpoints of a CPU (mips64.c and ppc32.c). -/
set_option autoImplicit false

namespace Dynamips.Breakpoints

open Runs Sweep

inductive Arch where
  | MIPS64
  | PPC32
deriving DecidableEq, Repr

/-- The width of the breakpoints: addresses come with 64 bits for both CPUs. -/
def Arch.width : Arch → Nat
  | MIPS64 => 64
  | PPC32 => 32

/-- `MIPS64_MAX_BREAKPOINTS` and `PPC32_MAX_BREAKPOINTS` -/
def MAX_BREAKPOINTS : Nat := 8

structure Cpu (w : Nat) where
  breakpoints : List (BitVec w)
  breakpoints_enabled : Bool

variable {w : Nat} {cpu : Cpu w} {pc b : BitVec 64}

/-- `mips64_add_breakpoint` and `ppc32_add_breakpoint`, with whether there was a free slot -/
def add_breakpoint (cpu : Cpu w) (pc : BitVec 64) : Bool × Cpu w :=
  let i := cpu.breakpoints.findIdx (· == 0#w)
  if i = MAX_BREAKPOINTS then (false, cpu)
  else (true, ⟨cpu.breakpoints.set i (pc.setWidth w), true⟩)

def sameAddress (pc : BitVec 64) (slot : BitVec w) : Bool := slot.setWidth 64 == pc

/-- `mips64_remove_breakpoint` and `ppc32_remove_breakpoint` -/
def remove_breakpoint (cpu : Cpu w) (pc : BitVec 64) : Cpu w :=
  let breakpoints := sweep (sameAddress pc) 0#w cpu.breakpoints
  if breakpoints.any (· != 0#w) then { cpu with breakpoints }
  else ⟨breakpoints, false⟩

inductive Op where
  | add (pc : BitVec 64)
  | remove (pc : BitVec 64)

/-- A CPU with the addresses that were inserted and not removed since. -/
structure State (w : Nat) where
  cpu : Cpu w
  inserted : List (BitVec 64)

def State.reset (w : Nat) : State w := ⟨⟨List.replicate MAX_BREAKPOINTS 0#w, false⟩, []⟩

def State.step (s : State w) : Op → State w
  | .add pc =>
    let (added, cpu) := add_breakpoint s.cpu pc
    ⟨cpu, if added then pc :: s.inserted else s.inserted⟩
  | .remove pc => ⟨remove_breakpoint s.cpu pc, s.inserted.filter (· ≠ pc)⟩

def IsBreakpoint (cpu : Cpu w) (pc : BitVec 64) : Prop :=
  ∃ slot ∈ cpu.breakpoints, slot ≠ 0#w ∧ slot.setWidth 64 = pc

/-- After a removal the address is no breakpoint, the others that were inserted are,
and the flag tells whether there is one. -/
def RemovalOk (s : State w) : Op → Prop
  | .add _ => True
  | .remove pc =>
    ¬ IsBreakpoint (s.step (.remove pc)).cpu pc ∧
      (∀ b ∈ s.inserted, b ≠ pc → IsBreakpoint (s.step (.remove pc)).cpu b) ∧
      ((s.step (.remove pc)).cpu.breakpoints_enabled = true ↔
        ∃ b, IsBreakpoint (s.step (.remove pc)).cpu b)

def Holdable (w : Nat) : Op → Prop
  | .add pc => pc ≠ 0 ∧ (pc.setWidth w).setWidth 64 = pc
  | .remove _ => True

def NoTwins (s : State w) : Op → Prop
  | .add _ => True
  | .remove pc => pc = 0 ∨ ¬ Twins (sameAddress pc) 0#w s.cpu.breakpoints

structure Ok (s : State w) : Prop where
  length : s.cpu.breakpoints.length = MAX_BREAKPOINTS
  inserted : ∀ b ∈ s.inserted, IsBreakpoint s.cpu b
  enabled : (∃ b, IsBreakpoint s.cpu b) → s.cpu.breakpoints_enabled = true

variable {s : State w}

theorem ok_reset : Ok (State.reset w) := by
  refine ⟨List.length_replicate, by simp [State.reset], ?_⟩
  rintro ⟨b, slot, hmem, hne, -⟩
  exact absurd (List.eq_of_mem_replicate hmem) hne

theorem any_ne_zero : cpu.breakpoints.any (· != 0#w) = true ↔ ∃ b, IsBreakpoint cpu b := by
  simp only [List.any_eq_true, bne_iff_ne, IsBreakpoint]
  constructor
  · rintro ⟨slot, hmem, hne⟩
    exact ⟨_, slot, hmem, hne, rfl⟩
  · rintro ⟨b, slot, hmem, hne, -⟩
    exact ⟨slot, hmem, hne⟩

theorem breakpoints_remove : (remove_breakpoint cpu pc).breakpoints =
    sweep (sameAddress pc) 0#w cpu.breakpoints := by
  simp only [remove_breakpoint]
  split
  · rfl
  · rfl

theorem isBreakpoint_remove (hne : b ≠ pc) :
    IsBreakpoint (remove_breakpoint cpu pc) b ↔ IsBreakpoint cpu b := by
  simp only [IsBreakpoint, breakpoints_remove]
  constructor
  · rintro ⟨slot, hmem, hslot, hb⟩
    exact ⟨slot, (mem_of_mem_sweep hmem).resolve_right hslot, hslot, hb⟩
  · rintro ⟨slot, hmem, hslot, hb⟩
    have hother : sameAddress pc slot = false := by
      rw [sameAddress, beq_eq_false_iff_ne, hb]
      exact hne
    exact ⟨slot, mem_sweep hother hmem, hslot, hb⟩

theorem isBreakpoint_of_remove (h : IsBreakpoint (remove_breakpoint cpu pc) b) :
    IsBreakpoint cpu b := by
  obtain ⟨slot, hmem, hslot, hb⟩ := h
  rw [breakpoints_remove] at hmem
  exact ⟨slot, (mem_of_mem_sweep hmem).resolve_right hslot, hslot, hb⟩

theorem isBreakpoint_remove_self (hzero : pc ≠ 0) :
    ¬ IsBreakpoint (remove_breakpoint cpu pc) pc ↔
      ¬ Twins (sameAddress pc) 0#w cpu.breakpoints := by
  have hhole : sameAddress pc 0#w = false := by
    rw [sameAddress, beq_eq_false_iff_ne]
    simpa using hzero.symm
  rw [← sweep_removes_iff hhole, ← breakpoints_remove]
  simp only [IsBreakpoint, sameAddress, beq_eq_false_iff_ne, not_exists, not_and]
  constructor
  · intro h slot hmem heq
    refine h slot hmem ?_ heq
    rintro rfl
    exact hzero (by simpa using heq.symm)
  · intro h slot hmem _ heq
    exact h slot hmem heq

theorem findIdx_lt (h : cpu.breakpoints.length = MAX_BREAKPOINTS)
    (hfree : cpu.breakpoints.findIdx (· == 0#w) ≠ MAX_BREAKPOINTS) :
    cpu.breakpoints.findIdx (· == 0#w) < cpu.breakpoints.length := by
  have hle := @List.findIdx_le_length _ (· == 0#w) cpu.breakpoints
  omega

theorem isBreakpoint_add (h : cpu.breakpoints.length = MAX_BREAKPOINTS)
    (hb : IsBreakpoint cpu b) : IsBreakpoint (add_breakpoint cpu pc).2 b := by
  obtain ⟨slot, hmem, hslot, hb⟩ := hb
  simp only [add_breakpoint]
  split
  · exact ⟨slot, hmem, hslot, hb⟩
  · rename_i hfree
    have hlt := findIdx_lt h hfree
    obtain ⟨j, hj, rfl⟩ := List.getElem_of_mem hmem
    have hne : cpu.breakpoints.findIdx (· == 0#w) ≠ j := by
      rintro rfl
      have hzero := @List.findIdx_getElem _ (· == 0#w) cpu.breakpoints hlt
      exact hslot (by simpa using hzero)
    refine ⟨cpu.breakpoints[j], ?_, hslot, hb⟩
    rw [List.mem_iff_getElem]
    exact ⟨j, by simpa using hj, List.getElem_set_ne hne _⟩

theorem add_spec (h : cpu.breakpoints.length = MAX_BREAKPOINTS) :
    (add_breakpoint cpu pc).2.breakpoints.length = MAX_BREAKPOINTS ∧
      ((add_breakpoint cpu pc).1 = false → (add_breakpoint cpu pc).2 = cpu) ∧
      ((add_breakpoint cpu pc).1 = true → (add_breakpoint cpu pc).2.breakpoints_enabled = true ∧
        pc.setWidth w ∈ (add_breakpoint cpu pc).2.breakpoints) := by
  simp only [add_breakpoint]
  split
  · exact ⟨h, fun _ => rfl, by simp⟩
  · rename_i hfree
    have hlt := findIdx_lt h hfree
    refine ⟨by rw [List.length_set]; exact h, by simp, fun _ => ⟨rfl, ?_⟩⟩
    exact List.mem_set hlt _

theorem enabled_remove (h : (∃ b, IsBreakpoint cpu b) → cpu.breakpoints_enabled = true) :
    (remove_breakpoint cpu pc).breakpoints_enabled = true ↔
      ∃ b, IsBreakpoint (remove_breakpoint cpu pc) b := by
  rw [← any_ne_zero, breakpoints_remove]
  constructor
  · intro hflag
    by_contra hnone
    rw [remove_breakpoint, if_neg hnone] at hflag
    cases hflag
  · intro hany
    have hsome : ∃ b, IsBreakpoint (remove_breakpoint cpu pc) b := by
      rw [← any_ne_zero, breakpoints_remove]
      exact hany
    obtain ⟨b, hb⟩ := hsome
    rw [remove_breakpoint, if_pos hany]
    exact h ⟨b, isBreakpoint_of_remove hb⟩

theorem ok_step (h : Ok s) {op : Op} (hop : Holdable w op) : Ok (s.step op) := by
  cases op with
  | add pc =>
    obtain ⟨hne, hback⟩ := hop
    obtain ⟨hlen, hfull, hadded⟩ := @add_spec w s.cpu pc h.length
    refine ⟨hlen, ?_, ?_⟩
    · intro b hb
      simp only [State.step] at hb ⊢
      cases hres : (add_breakpoint s.cpu pc).1 with
      | false =>
        rw [hfull hres]
        exact h.inserted b (by simpa [hres] using hb)
      | true =>
        rw [hres, if_pos rfl] at hb
        rcases List.mem_cons.mp hb with rfl | hb
        · refine ⟨_, (hadded hres).2, ?_, hback⟩
          intro hzero
          rw [hzero] at hback
          exact hne (by simpa using hback.symm)
        · exact isBreakpoint_add h.length (h.inserted b hb)
    · intro hsome
      simp only [State.step] at hsome ⊢
      cases hres : (add_breakpoint s.cpu pc).1 with
      | false =>
        rw [hfull hres] at hsome ⊢
        exact h.enabled hsome
      | true => exact (hadded hres).1
  | remove pc =>
    refine ⟨?_, ?_, (enabled_remove h.enabled).mpr⟩
    · simp only [State.step, breakpoints_remove]
      exact length_sweep.trans h.length
    · intro b hb
      simp only [State.step, List.mem_filter, decide_eq_true_eq] at hb
      exact (isBreakpoint_remove hb.2).mpr (h.inserted b hb.1)

theorem removalOk_iff (hw : w ≤ 64) (h : Ok s) (op : Op) : RemovalOk s op ↔ NoTwins s op := by
  cases op with
  | add pc => exact Iff.rfl
  | remove pc =>
    have hkept : ∀ b ∈ s.inserted, b ≠ pc → IsBreakpoint (s.step (.remove pc)).cpu b :=
      fun b hb hne => (isBreakpoint_remove hne).mpr (h.inserted b hb)
    have hflag : (s.step (.remove pc)).cpu.breakpoints_enabled = true ↔
        ∃ b, IsBreakpoint (s.step (.remove pc)).cpu b := enabled_remove h.enabled
    simp only [RemovalOk, NoTwins, and_iff_left (And.intro hkept hflag)]
    by_cases hzero : pc = 0
    · refine iff_of_true ?_ (.inl hzero)
      rintro ⟨slot, -, hslot, hpc⟩
      have hslot0 := congrArg (BitVec.setWidth w) (hpc.trans hzero)
      rw [BitVec.setWidth_setWidth_of_le _ hw] at hslot0
      exact hslot (by simpa using hslot0)
    · rw [or_iff_right hzero]
      exact isBreakpoint_remove_self hzero

theorem allSteps_removalOk (hw : w ≤ 64) (h : Ok s) {ops : List Op}
    (hops : ∀ op ∈ ops, Holdable w op) :
    AllSteps RemovalOk (history State.step s ops) ↔
      AllSteps NoTwins (history State.step s ops) := by
  induction ops generalizing s with
  | nil => simp [history, AllSteps]
  | cons op ops ih =>
    have hnext := ok_step h (hops op List.mem_cons_self)
    simp only [history, allSteps_cons, removalOk_iff hw h op,
      ih hnext fun o ho => hops o (List.mem_cons_of_mem op ho)]

/-- Over every sequence of insertions and removals whose addresses fit the slots: the
removals are right exactly when no removed address is in two slots next to each other. -/
theorem breakpoints_ok_iff (arch : Arch) (ops : List Op)
    (hops : ∀ op ∈ ops, Holdable arch.width op) :
    AllSteps RemovalOk (history State.step (State.reset arch.width) ops) ↔
      AllSteps NoTwins (history State.step (State.reset arch.width) ops) :=
  allSteps_removalOk (by cases arch <;> decide) ok_reset hops

theorem breakpoints_ok_two :
    AllSteps RemovalOk (history State.step (State.reset 32) [.add 4, .add 8, .remove 4]) := by
  refine (breakpoints_ok_iff .PPC32 [.add 4, .add 8, .remove 4] ?_).mpr ?_
  · simp only [List.forall_mem_cons]
    exact ⟨⟨by decide, by decide⟩, ⟨by decide, by decide⟩, trivial, by simp⟩
  · simp only [history, allSteps_cons]
    refine ⟨trivial, trivial, .inr ?_, by simp [AllSteps]⟩
    rw [← sweep_removes_iff rfl]
    have hsweep : sweep (sameAddress 4) 0#32 [4, 8, 0, 0, 0, 0, 0, 0] = [8, 0, 0, 0, 0, 0, 0, 0] :=
      rfl
    change ∀ x ∈ sweep (sameAddress 4) 0#32 [4, 8, 0, 0, 0, 0, 0, 0], sameAddress 4 x = false
    rw [hsweep]
    simp [sameAddress]

/-- Address 4 is inserted twice and still a breakpoint after its removal. -/
theorem not_breakpoints_ok : ¬ ∀ (arch : Arch) (ops : List Op),
    AllSteps RemovalOk (history State.step (State.reset arch.width) ops) := by
  intro h
  have hbad := h .MIPS64 [.add 4, .add 4, .remove 4]
  simp only [history, allSteps_cons] at hbad
  refine hbad.2.2.1.1 ⟨4, ?_, by decide, by decide⟩
  decide

end Dynamips.Breakpoints
