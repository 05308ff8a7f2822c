import Dynamips.Lib.Scan
import Dynamips.Mips64Run

/-! TLBP against the lookup: the probe compares the VPN2 without the page mask
of the entry and keeps the last match, the lookup stops at the first one. -/
set_option autoImplicit false

namespace Dynamips.Mips64
open Scan

variable {W : Type} {cpu : Cpu W} {vaddr : BitVec 64}

def lookupTest (cpu : Cpu W) (vaddr : BitVec 64) (i : Fin 64) : Bool :=
  decide (i.val < cpu.cp0.tlbEntries) && (cpu.cp0.tlb i).covers cpu.addrMode vaddr &&
    (cpu.cp0.tlb i).inSpace cpu.asid

def Cpu.vpn2 (cpu : Cpu W) : BitVec 64 := cpu.cp0.reg mipsCp0TlbHi &&& cpu.addrMode.vpn2Mask

def probeTest (cpu : Cpu W) (i : Fin 64) : Bool :=
  decide (i.val < cpu.cp0.tlbEntries) &&
    ((cpu.cp0.tlb i).hi &&& cpu.addrMode.vpn2Mask == cpu.vpn2) && (cpu.cp0.tlb i).inSpace cpu.asid

def indexOf (entry : Option (Fin 64)) : BitVec 64 :=
  entry.elim 0xffffffff80000000 fun i => BitVec.ofNat 64 i.val

theorem indexOf_injective : Function.Injective indexOf := by
  have hlt : ∀ i : Fin 64, (BitVec.ofNat 64 i.val).toNat = i.val := fun i =>
    Nat.mod_eq_of_lt (by omega)
  have hmiss : ∀ i : Fin 64, BitVec.ofNat 64 i.val ≠ 0xffffffff80000000 := by
    intro i h
    have hi := congrArg BitVec.toNat h
    rw [hlt i, show (0xffffffff80000000 : BitVec 64).toNat = 0xffffffff80000000 by rfl] at hi
    omega
  intro a b h
  cases a with
  | none =>
    cases b with
    | none => rfl
    | some j => exact absurd h.symm (hmiss j)
  | some i =>
    cases b with
    | none => exact absurd h (hmiss i)
    | some j =>
      have hij := congrArg BitVec.toNat h
      simp only [indexOf, Option.elim, hlt] at hij
      exact congrArg some (Fin.ext hij)

theorem tlbMatch_eq (cpu : Cpu W) (vaddr : BitVec 64) :
    tlbMatch cpu vaddr = (List.finRange 64).find? (lookupTest cpu vaddr) := rfl

theorem index_tlbp (cpu : Cpu W) : (cp0ExecTlbp cpu).cp0.reg mipsCp0Index =
    indexOf ((List.finRange 64).reverse.find? (probeTest cpu)) := by
  have hmiss : (cpu.setCp0 mipsCp0Index 0xffffffff80000000).cp0.reg mipsCp0Index =
      0xffffffff80000000 := Cpu.reg_setCp0_self _ _ _
  rw [indexOf, ← hmiss, cp0ExecTlbp]
  refine get_foldl (g := fun s : Cpu W => s.cp0.reg mipsCp0Index)
    (I := fun s => s.cp0.tlb = cpu.cp0.tlb ∧ s.cp0.tlbEntries = cpu.cp0.tlbEntries) ?_ ?_
    (List.finRange 64) ⟨rfl, rfl⟩
  · intro s i hs
    split
    · exact hs
    · exact hs
  · intro s i hs
    simp only [hs.1, hs.2, probeTest, Cpu.vpn2, Cpu.asid, Bool.and_eq_true, decide_eq_true_eq, beq_iff_eq, and_assoc]
    split
    · exact Cpu.reg_setCp0_self _ _ _
    · rfl

def TlbpAgrees (cpu : Cpu W) (vaddr : BitVec 64) : Prop :=
  (cp0ExecTlbp cpu).cp0.reg mipsCp0Index = indexOf (tlbMatch cpu vaddr)

/-- The first entry that the lookup accepts has no bit of the VPN2 of EntryHi
under its page mask and is the last one with this VPN2, and an entry with this
VPN2 is only there if the lookup accepts one. -/
structure ProbedAlone (cpu : Cpu W) (vaddr : BitVec 64) : Prop where
  unmasked : ∀ i, First (lookupTest cpu vaddr) i →
    cpu.vpn2 &&& ~~~((cpu.cp0.tlb i).mask + 0x1FFF) = cpu.vpn2
  last : ∀ i, First (lookupTest cpu vaddr) i → ∀ j, i < j → ¬ probeTest cpu j
  covered : ∀ i, probeTest cpu i → ∃ j, lookupTest cpu vaddr j

theorem probeTest_iff {i : Fin 64} (hv : vaddr &&& cpu.addrMode.vpn2Mask = cpu.vpn2)
    (h : lookupTest cpu vaddr i) :
    probeTest cpu i ↔ cpu.vpn2 &&& ~~~((cpu.cp0.tlb i).mask + 0x1FFF) = cpu.vpn2 := by
  simp only [lookupTest, TlbEntry.covers, Bool.and_eq_true, decide_eq_true_eq, beq_iff_eq, hv] at h
  simp only [probeTest, Bool.and_eq_true, decide_eq_true_eq, beq_iff_eq, h, true_and, and_true]

/-- TLBP agrees with the lookup exactly when one entry alone answers it. -/
theorem tlbp_agrees_iff (hv : vaddr &&& cpu.addrMode.vpn2Mask = cpu.vpn2) :
    TlbpAgrees cpu vaddr ↔ ProbedAlone cpu vaddr := by
  rw [TlbpAgrees, index_tlbp, tlbMatch_eq, indexOf_injective.eq_iff, last_eq_first_iff]
  constructor
  · intro h
    exact ⟨fun i hi => (probeTest_iff hv hi.1).mp (h.1 i hi).1, fun i hi => (h.1 i hi).2, h.2⟩
  · intro h
    exact ⟨fun i hi => ⟨(probeTest_iff hv hi.1).mpr (h.unmasked i hi), h.last i hi⟩, h.covered⟩

def pairCpu : Cpu Unit :=
  ramCpu [] (fun _ => 0) fun i => if i = 0 then ⟨0, 0, 0x2, 0x2⟩ else ⟨0, 0x80000000, 0, 0⟩

theorem tlbp_agrees_pair : TlbpAgrees pairCpu 0 := by
  have hlookup : ∀ i, lookupTest pairCpu 0 i ↔ i = 0 := by decide
  have hprobe : ∀ i, probeTest pairCpu i ↔ i = 0 := by decide
  refine (tlbp_agrees_iff (by decide)).mpr ⟨fun i hi => ?_, fun i hi j hij => ?_, fun i hi => ?_⟩
  · rw [(hlookup i).mp hi.1]
    decide
  · rw [(hlookup i).mp hi.1] at hij
    rw [hprobe]
    exact hij.ne'
  · exact ⟨i, (hlookup i).mpr ((hprobe i).mp hi)⟩

/-- A TLB whose first entry maps two pages of 16 KB at address 0, and EntryHi in
the second of the page pairs of 4 KB that it covers. -/
def bigPageCpu : Cpu Unit :=
  (ramCpu [] (fun _ => 0) fun i =>
    if i = 0 then ⟨0x6000, 0, 0x2, 0x2⟩ else ⟨0, 0x80000000, 0, 0⟩).setCp0 mipsCp0TlbHi 0x2000

/-- The lookup uses entry 0 and TLBP reports a miss. -/
theorem not_tlbp_agrees : ¬ ∀ (cpu : Cpu Unit) (vaddr : BitVec 64),
    vaddr &&& cpu.addrMode.vpn2Mask = cpu.vpn2 → TlbpAgrees cpu vaddr := by
  intro h
  have hagrees := h bigPageCpu 0x2000 (by decide)
  have hmatch : tlbMatch bigPageCpu 0x2000 = some 0 := by decide
  have hmiss : ∀ i, ¬ probeTest bigPageCpu i := by decide
  rw [TlbpAgrees, index_tlbp, (find?_eq_none_of_mem (by simp)).mpr hmiss, hmatch] at hagrees
  cases indexOf_injective hagrees

end Dynamips.Mips64
