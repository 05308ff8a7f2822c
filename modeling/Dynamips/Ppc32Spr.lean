import Dynamips.Lib.Runs
import Dynamips.Ppc32Mts
import Dynamips.Ppc32Rotate

/-! The special-purpose registers of a PowerPC CPU: MFSPR and MTSPR
(ppc32_exec.c), and the page table that SDR1 names (`ppc32_set_sdr1`). -/
set_option autoImplicit false

namespace Dynamips.Ppc32

open Mips64 (bits)
open Runs

@[match_pattern] def PPC32_SPR_DSISR : Nat := 18

@[match_pattern] def PPC32_SPR_DAR : Nat := 19

@[match_pattern] def PPC32_SPR_TBL_READ : Nat := 268

@[match_pattern] def PPC32_SPR_TBU_READ : Nat := 269

@[match_pattern] def PPC32_SPR_PVR : Nat := 287

def PPC32_XER_CA_BIT : Nat := 29

def PPC32_SDR1_HTABORG_MASK : BitVec 32 := 0xFFFF0000

def PPC32_SDR1_HTABEXT_MASK : BitVec 32 := 0x0000E000

/-- `cpu_ppc_t` with the registers that only these instructions are about. -/
structure SprCpu (W : Type) extends Cpu W where
  lr : BitVec 32
  ctr : BitVec 32
  tb : BitVec 64
  pvr : BitVec 32
  mpc860Immr : BitVec 32

variable {W : Type}

def getBatSpr (cpu : Cpu W) (spr : BitVec 10) : BitVec 32 :=
  let cid := if spr.getLsbD 3 then Cid.dcache else Cid.icache
  let index : BitVec 3 := ((spr >>> 1).setWidth 2).setWidth 3
  let index := if spr &&& 0x20 ≠ 0 then index + 4 else index
  if spr.getLsbD 0 then (cpu.bat cid index).lower else (cpu.bat cid index).upper

/-- The switch of `ppc32_exec_MFSPR` -/
def getSpr (cpu : SprCpu W) (spr : Nat) : BitVec 32 :=
  match spr with
  | PPC32_SPR_XER => cpu.xer ||| (cpu.carry <<< PPC32_XER_CA_BIT)
  | PPC32_SPR_DSISR => cpu.dsisr
  | PPC32_SPR_DAR => cpu.dar
  | PPC32_SPR_DEC => cpu.dec
  | PPC32_SPR_SDR1 => cpu.sdr1
  | PPC32_SPR_SRR0 => cpu.srr0
  | PPC32_SPR_SRR1 => cpu.srr1
  | PPC32_SPR_TBL_READ => cpu.tb.setWidth 32
  | PPC32_SPR_TBU_READ => (cpu.tb >>> 32).setWidth 32
  | PPC32_SPR_SPRG0 => cpu.sprg 0
  | PPC32_SPR_SPRG1 => cpu.sprg 1
  | PPC32_SPR_SPRG2 => cpu.sprg 2
  | PPC32_SPR_SPRG3 => cpu.sprg 3
  | PPC32_SPR_PVR => cpu.pvr
  | PPC32_SPR_HID0 => cpu.hid0
  | PPC32_SPR_HID1 => cpu.hid1
  | PPC405_SPR_PID => cpu.ppc405Pid
  | 638 => cpu.mpc860Immr
  | _ => 0

def SprCpu.setGpr (cpu : SprCpu W) (reg : RegNum) (val : BitVec 32) : SprCpu W :=
  { cpu with toRegs := cpu.toRegs.setGpr reg val }

def execMFLR (cpu : SprCpu W) (insn : Insn) : SprCpu W := cpu.setGpr (regD insn) cpu.lr

def execMTLR (cpu : SprCpu W) (insn : Insn) : SprCpu W := { cpu with lr := cpu.gpr (regD insn) }

def execMFCTR (cpu : SprCpu W) (insn : Insn) : SprCpu W := cpu.setGpr (regD insn) cpu.ctr

def execMTCTR (cpu : SprCpu W) (insn : Insn) : SprCpu W := { cpu with ctr := cpu.gpr (regD insn) }

def execMFSPR (cpu : SprCpu W) (insn : Insn) : SprCpu W :=
  let spr1 := bits insn 11 15
  if spr1 = 0x10 ∨ spr1 = 0x11 then
    cpu.setGpr (regD insn) (getBatSpr cpu.toCpu (sprOf insn))
  else cpu.setGpr (regD insn) (getSpr cpu (sprOf insn).toNat)

def isMFSPR (insn : Insn) : Bool := insn &&& 0xfc0007ff = 0x7c0002a6

def isMTSPR (insn : Insn) : Bool := insn &&& 0xfc0007ff = 0x7c0003a6

/-- The rows of `ppc32_exec_tags` that such an instruction can match, in their order. -/
def execSprInsn (cpu : SprCpu W) (insn : Insn) : SprCpu W :=
  if insn &&& 0xfc1fffff = 0x7c0802a6 then execMFLR cpu insn
  else if insn &&& 0xfc1fffff = 0x7c0803a6 then execMTLR cpu insn
  else if insn &&& 0xfc1fffff = 0x7c0902a6 then execMFCTR cpu insn
  else if insn &&& 0xfc1fffff = 0x7c0903a6 then execMTCTR cpu insn
  else if isMFSPR insn then execMFSPR cpu insn
  else if isMTSPR insn then { cpu with toCpu := execMTSPR cpu.toCpu insn }
  else cpu

/-- The address in `ppc32_set_sdr1` -/
def sdr1PtAddr (sdr1 : BitVec 32) : BitVec 64 :=
  (sdr1 &&& PPC32_SDR1_HTABORG_MASK).setWidth 64 |||
    ((sdr1 &&& PPC32_SDR1_HTABEXT_MASK).setWidth 64 <<< 20)

def sdr1Host (vm : Vm W) (sdr1 : BitVec 32) : Option HostAddr :=
  (devLookup vm (sdr1PtAddr sdr1) true).map fun dev =>
    dev.hostAddr + (sdr1PtAddr sdr1 - dev.physAddr)

def setSdr1 (cpu : Cpu W) (sdr1 : BitVec 32) : Int × Cpu W :=
  let cpu := { cpu with sdr1 := sdr1 }
  match sdr1Host cpu.vm sdr1 with
  | none => (-1, cpu)
  | some hptr => (0, { cpu with sdr1Hptr := hptr })

inductive Spr where
  | xer | lr | ctr | dsisr | dar | dec | sdr1 | srr0 | srr1
  | sprg (index : BitVec 2)
  | hid0 | hid1 | pid
  | bat (cid : Cid) (index : BitVec 3) (lower : Bool)
  | tbl | tbu | pvr | immr
deriving DecidableEq

def sprName : Nat → Option Spr
  | PPC32_SPR_XER => some .xer
  | 8 => some .lr
  | 9 => some .ctr
  | PPC32_SPR_DSISR => some .dsisr
  | PPC32_SPR_DAR => some .dar
  | PPC32_SPR_DEC => some .dec
  | PPC32_SPR_SDR1 => some .sdr1
  | PPC32_SPR_SRR0 => some .srr0
  | PPC32_SPR_SRR1 => some .srr1
  | PPC32_SPR_TBL_READ => some .tbl
  | PPC32_SPR_TBU_READ => some .tbu
  | PPC32_SPR_SPRG0 => some (.sprg 0)
  | PPC32_SPR_SPRG1 => some (.sprg 1)
  | PPC32_SPR_SPRG2 => some (.sprg 2)
  | PPC32_SPR_SPRG3 => some (.sprg 3)
  | PPC32_SPR_PVR => some .pvr
  | PPC32_SPR_HID0 => some .hid0
  | PPC32_SPR_HID1 => some .hid1
  | PPC405_SPR_PID => some .pid
  | 638 => some .immr
  | _ => none

/-- The register that a number names. Bit 4 of the number of a BAT does not count. -/
def sprReg (spr : BitVec 10) : Option Spr :=
  if spr >>> 5 = 0x10 ∨ spr >>> 5 = 0x11 then
    let index : BitVec 3 := ((spr >>> 1).setWidth 2).setWidth 3
    some (.bat (if spr.getLsbD 3 then .dcache else .icache)
      (if spr &&& 0x20 ≠ 0 then index + 4 else index) (spr.getLsbD 0))
  else sprName spr.toNat

/-- The registers that software does not write: the time base under its numbers
for reading, the version and the IMMR. -/
def Spr.readOnly : Spr → Bool
  | .tbl | .tbu | .pvr | .immr => true
  | _ => false

def Spr.maps : Spr → Bool
  | .sdr1 | .bat _ _ _ => true
  | _ => false

def Spr.value (cpu : SprCpu W) : Spr → BitVec 32
  | .xer => cpu.xer ||| (cpu.carry <<< PPC32_XER_CA_BIT)
  | .lr => cpu.lr
  | .ctr => cpu.ctr
  | .dsisr => cpu.dsisr
  | .dar => cpu.dar
  | .dec => cpu.dec
  | .sdr1 => cpu.sdr1
  | .srr0 => cpu.srr0
  | .srr1 => cpu.srr1
  | .sprg index => cpu.sprg index
  | .hid0 => cpu.hid0
  | .hid1 => cpu.hid1
  | .pid => cpu.ppc405Pid
  | .bat cid index lower =>
    if lower then (cpu.bat cid index).lower else (cpu.bat cid index).upper
  | .tbl => cpu.tb.setWidth 32
  | .tbu => (cpu.tb >>> 32).setWidth 32
  | .pvr => cpu.pvr
  | .immr => cpu.mpc860Immr

variable {cpu : SprCpu W} {insn : Insn}

theorem bits_five_getLsbD (insn : Insn) (start i : Nat) :
    (bits insn start (start + 4)).getLsbD i = (decide (i < 5) && insn.getLsbD (start + i)) := by
  have hmask : (1#32 <<< (start + 4 - start + 1)) - 1#32 = 31#32 := by
    rw [Nat.add_sub_cancel_left]
    decide
  have hbit : (31#32).getLsbD i = decide (i < 5) := by
    by_cases hi : i < 32
    · have hall : ∀ i : Fin 32, (31#32).getLsbD i = decide (i.val < 5) := by decide
      exact hall ⟨i, hi⟩
    · rw [BitVec.getLsbD_of_ge _ _ (by omega), decide_eq_false (by omega)]
  rw [bits, hmask, BitVec.getLsbD_and, BitVec.getLsbD_ushiftRight, hbit, Bool.and_comm]

theorem sprOf_getLsbD (insn : Insn) (i : Nat) :
    (sprOf insn).getLsbD i =
      if i < 5 then insn.getLsbD (16 + i) else decide (i < 10) && insn.getLsbD (6 + i) := by
  have h16 := bits_five_getLsbD insn 16 i
  have h11 := bits_five_getLsbD insn 11 (i - 5)
  simp only [sprOf, BitVec.getLsbD_or, BitVec.getLsbD_shiftLeft, BitVec.getLsbD_setWidth, h16, h11]
  by_cases hi : i < 5
  · simp [hi]
    omega
  · have hindex : 11 + (i - 5) = 6 + i := by omega
    simp only [hi, hindex]
    grind

def sprField (spr : BitVec 10) : BitVec 32 :=
  ((spr.setWidth 5).setWidth 32 <<< 16) ||| ((spr >>> 5).setWidth 32 <<< 11)

theorem sprOf_shift (insn : Insn) : sprOf insn >>> 5 = (bits insn 11 15).setWidth 10 := by
  apply BitVec.eq_of_getLsbD_eq
  intro i hi
  have h11 := bits_five_getLsbD insn 11 i
  simp only [BitVec.getLsbD_ushiftRight, BitVec.getLsbD_setWidth, sprOf_getLsbD, h11]
  grind

theorem sprField_sprOf (insn : Insn) : sprField (sprOf insn) = insn &&& 0x1ff800 := by
  have hall : ∀ i : Fin 32, (0x1ff800#32).getLsbD i = decide (11 ≤ i.val ∧ i.val < 21) := by decide
  apply BitVec.eq_of_getLsbD_eq
  intro i hi
  have hbit : (0x1ff800#32).getLsbD i = decide (11 ≤ i ∧ i < 21) := hall ⟨i, hi⟩
  simp only [sprField, BitVec.getLsbD_or, BitVec.getLsbD_shiftLeft, BitVec.getLsbD_setWidth,
    BitVec.getLsbD_ushiftRight, BitVec.getLsbD_and, sprOf_getLsbD]
  grind

theorem sprOf_and_row (insn : Insn) : sprOf (insn &&& 0xfc1fffff) = sprOf insn := by
  have hall : ∀ i : Fin 10, (0xfc1fffff#32).getLsbD (if i.val < 5 then 16 + i.val else 6 + i.val) =
    true := by decide
  apply BitVec.eq_of_getLsbD_eq
  intro i hi
  have hbit := hall ⟨i, hi⟩
  simp only [sprOf_getLsbD, BitVec.getLsbD_and]
  grind

theorem row_iff {v b : BitVec 32} {n : BitVec 10} (hb : v &&& 0xfc0007ff = b) (hn : sprOf v = n)
    (hv : b ||| sprField n = v) :
    insn &&& 0xfc1fffff = v ↔ insn &&& 0xfc0007ff = b ∧ sprOf insn = n := by
  have hrow : insn &&& 0xfc1fffff = (insn &&& 0xfc0007ff) ||| (insn &&& 0x1ff800) := by
    rw [← BitVec.and_or_distrib_left]
    rfl
  constructor
  · intro h
    rw [← hb, ← hn, ← h, BitVec.and_assoc, sprOf_and_row]
    exact ⟨rfl, rfl⟩
  · intro h
    rw [hrow, h.1, ← sprField_sprOf, h.2, hv]

theorem row_mflr : insn &&& 0xfc1fffff = 0x7c0802a6 ↔ isMFSPR insn = true ∧ sprOf insn = 8 := by
  rw [isMFSPR, decide_eq_true_eq]
  exact row_iff (b := 0x7c0002a6) (n := 8) (by decide) (by decide) (by decide)

theorem row_mtlr : insn &&& 0xfc1fffff = 0x7c0803a6 ↔ isMTSPR insn = true ∧ sprOf insn = 8 := by
  rw [isMTSPR, decide_eq_true_eq]
  exact row_iff (b := 0x7c0003a6) (n := 8) (by decide) (by decide) (by decide)

theorem row_mfctr : insn &&& 0xfc1fffff = 0x7c0902a6 ↔ isMFSPR insn = true ∧ sprOf insn = 9 := by
  rw [isMFSPR, decide_eq_true_eq]
  exact row_iff (b := 0x7c0002a6) (n := 9) (by decide) (by decide) (by decide)

theorem row_mtctr : insn &&& 0xfc1fffff = 0x7c0903a6 ↔ isMTSPR insn = true ∧ sprOf insn = 9 := by
  rw [isMTSPR, decide_eq_true_eq]
  exact row_iff (b := 0x7c0003a6) (n := 9) (by decide) (by decide) (by decide)

theorem not_both (hf : isMFSPR insn = true) : isMTSPR insn = false := by
  simp only [isMFSPR, isMTSPR, decide_eq_true_eq, decide_eq_false_iff_not] at hf ⊢
  rw [hf]
  decide

theorem execSprInsn_mfspr (cpu : SprCpu W) (hf : isMFSPR insn = true) :
    execSprInsn cpu insn =
      if sprOf insn = 8 then execMFLR cpu insn
      else if sprOf insn = 9 then execMFCTR cpu insn
      else execMFSPR cpu insn := by
  simp only [execSprInsn, row_mflr, row_mtlr, row_mfctr, row_mtctr, hf, not_both hf, true_and,
    Bool.false_eq_true, false_and, if_false, if_true]

theorem execSprInsn_mtspr (cpu : SprCpu W) (ht : isMTSPR insn = true) :
    execSprInsn cpu insn =
      if sprOf insn = 8 then execMTLR cpu insn
      else if sprOf insn = 9 then execMTCTR cpu insn
      else { cpu with toCpu := execMTSPR cpu.toCpu insn } := by
  have hf : isMFSPR insn = false := by
    cases hf : isMFSPR insn with
    | false => rfl
    | true => rw [not_both hf] at ht; cases ht
  simp only [execSprInsn, row_mflr, row_mtlr, row_mfctr, row_mtctr, hf, ht, true_and,
    Bool.false_eq_true, false_and, if_false, if_true]

theorem bat_iff (insn : Insn) : bits insn 11 15 = 0x10 ∨ bits insn 11 15 = 0x11 ↔
    sprOf insn >>> 5 = 0x10 ∨ sprOf insn >>> 5 = 0x11 := by
  have hlt : (bits insn 11 15).toNat < 32 := toNat_bits_five insn 11
  have hx : (0x10 : BitVec 32).toNat = 16 ∧ (0x11 : BitVec 32).toNat = 17 := by decide
  have hy : (0x10 : BitVec 10).toNat = 16 ∧ (0x11 : BitVec 10).toNat = 17 := by decide
  simp only [sprOf_shift, ← BitVec.toNat_inj, BitVec.toNat_setWidth, hx, hy]
  omega

theorem getSpr_value (cpu : SprCpu W) {n : Nat} (h8 : n ≠ 8) (h9 : n ≠ 9) :
    getSpr cpu n = ((sprName n).map (Spr.value cpu)).getD 0 := by
  unfold sprName
  split <;> first | rfl | contradiction | skip
  unfold getSpr
  split <;> first | rfl | contradiction

theorem getBatSpr_value (cpu : SprCpu W) {spr : BitVec 10}
    (hbat : spr >>> 5 = 0x10 ∨ spr >>> 5 = 0x11) :
    getBatSpr cpu.toCpu spr = ((sprReg spr).map (Spr.value cpu)).getD 0 := by
  rw [sprReg, if_pos hbat]
  rfl

theorem mfspr_value (cpu : SprCpu W) (hf : isMFSPR insn = true) :
    execSprInsn cpu insn =
      cpu.setGpr (regD insn) (((sprReg (sprOf insn)).map (Spr.value cpu)).getD 0) := by
  rw [execSprInsn_mfspr cpu hf]
  by_cases h8 : sprOf insn = 8
  · rw [if_pos h8, h8]
    rfl
  by_cases h9 : sprOf insn = 9
  · rw [if_neg h8, if_pos h9, h9]
    rfl
  rw [if_neg h8, if_neg h9]
  simp only [execMFSPR, bat_iff]
  split
  next hbat => rw [getBatSpr_value cpu hbat]
  next hbat =>
    rw [sprReg, if_neg hbat, getSpr_value cpu]
    · exact fun h => h8 (BitVec.eq_of_toNat_eq h)
    · exact fun h => h9 (BitVec.eq_of_toNat_eq h)

def Spr.write (cpu : SprCpu W) (val : BitVec 32) : Spr → SprCpu W
  | .xer => { cpu with xer := val &&& ~~~PPC32_XER_CA, xerCa := val.getLsbD 29 }
  | .lr => { cpu with lr := val }
  | .ctr => { cpu with ctr := val }
  | .dec => { cpu with dec := val, timerIrqArmed := true }
  | .sdr1 => { cpu with toCpu := memInvalidateCache { cpu.toCpu with sdr1 := val } }
  | .srr0 => { cpu with srr0 := val }
  | .srr1 => { cpu with srr1 := val }
  | .sprg index => { cpu with sprg := Function.update cpu.sprg index val }
  | .hid0 => { cpu with hid0 := val }
  | .hid1 => { cpu with hid1 := val }
  | .pid => { cpu with ppc405Pid := val }
  | .bat cid index lower =>
    let bat := cpu.bat cid index
    let bat := if lower then { bat with lower := val } else { bat with upper := val }
    { cpu with
      toCpu := memInvalidateCache { cpu.toCpu with
        bat := Function.update cpu.bat cid (Function.update (cpu.bat cid) index bat) } }
  | .dsisr | .dar | .tbl | .tbu | .pvr | .immr => cpu

theorem setSpr_write (cpu : SprCpu W) (val : BitVec 32) {n : Nat} (h8 : n ≠ 8) (h9 : n ≠ 9) :
    { cpu with toCpu := setSpr cpu.toCpu n val } =
      ((sprName n).map (Spr.write cpu val)).getD cpu := by
  unfold sprName
  split <;> first | rfl | contradiction | skip
  unfold setSpr
  split <;> first | rfl | contradiction

theorem setBatSpr_write (cpu : SprCpu W) (val : BitVec 32) {spr : BitVec 10}
    (hbat : spr >>> 5 = 0x10 ∨ spr >>> 5 = 0x11) :
    { cpu with toCpu := setBatSpr cpu.toCpu spr val } =
      ((sprReg spr).map (Spr.write cpu val)).getD cpu := by
  rw [sprReg, if_pos hbat]
  rfl

theorem mtspr_write (cpu : SprCpu W) (ht : isMTSPR insn = true) :
    execSprInsn cpu insn =
      ((sprReg (sprOf insn)).map (Spr.write cpu (cpu.gpr (regD insn)))).getD cpu := by
  rw [execSprInsn_mtspr cpu ht]
  by_cases h8 : sprOf insn = 8
  · rw [if_pos h8, h8]
    rfl
  by_cases h9 : sprOf insn = 9
  · rw [if_neg h8, if_pos h9, h9]
    rfl
  rw [if_neg h8, if_neg h9]
  simp only [execMTSPR, bat_iff]
  split
  next hbat => rw [setBatSpr_write cpu _ hbat]
  next hbat =>
    rw [sprReg, if_neg hbat, setSpr_write cpu]
    · exact fun h => h8 (BitVec.eq_of_toNat_eq h)
    · exact fun h => h9 (BitVec.eq_of_toNat_eq h)

def Spr.kept : Spr → Bool
  | .dsisr | .dar | .tbl | .tbu | .pvr | .immr => false
  | _ => true

theorem xer_write (val : BitVec 32) :
    (val &&& ~~~PPC32_XER_CA) |||
      ((BitVec.ofBool (val.getLsbD 29)).setWidth 32 <<< PPC32_XER_CA_BIT) = val := by
  apply BitVec.eq_of_getLsbD_eq
  intro i hi
  have hall : ∀ i : Fin 32, PPC32_XER_CA.getLsbD i = decide (i.val = 29) := by decide
  have hbit := hall ⟨i, hi⟩
  simp only [BitVec.getLsbD_or, BitVec.getLsbD_and, BitVec.getLsbD_not, hbit,
    BitVec.getLsbD_shiftLeft, BitVec.getLsbD_setWidth, PPC32_XER_CA_BIT]
  grind

theorem value_write_self (cpu : SprCpu W) (val : BitVec 32) {r : Spr} (hr : r.kept = true) :
    r.value (r.write cpu val) = val := by
  cases r with
  | xer => exact xer_write val
  | sprg index => exact Function.update_self ..
  | bat cid index lower =>
    cases lower with
    | false => simp [Spr.value, Spr.write, memInvalidateCache]
    | true => simp [Spr.value, Spr.write, memInvalidateCache]
  | dsisr | dar | tbl | tbu | pvr | immr => cases hr
  | lr | ctr | dec | sdr1 | srr0 | srr1 | hid0 | hid1 | pid => rfl

theorem value_write_other (cpu : SprCpu W) (val : BitVec 32) {r q : Spr} (hq : q ≠ r) :
    q.value (r.write cpu val) = q.value cpu := by
  cases r with
  | sprg index =>
    cases q with
    | sprg index' => exact Function.update_of_ne (fun h => hq (by rw [h])) ..
    | _ => rfl
  | bat cid index lower =>
    cases q with
    | bat cid' index' lower' =>
      by_cases hc : cid' = cid
      · by_cases hi : index' = index
        · have hl : lower' ≠ lower := fun hl => hq (by rw [hc, hi, hl])
          subst hc hi
          cases lower <;> cases lower' <;>
            first | exact absurd rfl hl | simp [Spr.value, Spr.write, memInvalidateCache]
        · subst hc
          simp only [Spr.value, Spr.write, memInvalidateCache, Function.update_self,
            Function.update_of_ne hi]
      · simp only [Spr.value, Spr.write, memInvalidateCache, Function.update_of_ne hc]
    | _ => rfl
  | dsisr | dar | tbl | tbu | pvr | immr => rfl
  | xer | lr | ctr | dec | sdr1 | srr0 | srr1 | hid0 | hid1 | pid =>
    cases q <;> first | rfl | exact absurd rfl hq

def TableRight (cpu : Cpu W) : Prop :=
  cpu.sdr1 ≠ 0 → sdr1Host cpu.vm cpu.sdr1 = some cpu.sdr1Hptr

structure SprInsn where
  insn : Insn
  isSpr : isMFSPR insn = true ∨ isMTSPR insn = true

structure SprRun (W : Type) where
  cpu : SprCpu W
  last : Spr → Option (BitVec 32)

def SprRun.step (s : SprRun W) (i : SprInsn) : SprRun W where
  cpu := execSprInsn s.cpu i.insn
  last :=
    match sprReg (sprOf i.insn) with
    | none => s.last
    | some r =>
      if isMTSPR i.insn then Function.update s.last r (some (s.cpu.gpr (regD i.insn)))
      else s.last

/-- A register that software writes has what was written last, and the page table
is that of SDR1. -/
structure SprRight (s : SprRun W) : Prop where
  written : ∀ r val, r.readOnly = false → s.last r = some val → r.value s.cpu = val
  table : TableRight s.cpu.toCpu

/-- What an instruction has to do: a MFSPR gives the value of its register, only
the register of a MTSPR changes, and no translation from before a write of SDR1
or of a BAT is kept. -/
structure SprStepRight (s : SprRun W) (i : SprInsn) : Prop where
  reads : ∀ r, isMFSPR i.insn = true → sprReg (sprOf i.insn) = some r →
    (s.step i).cpu.gpr (regD i.insn) = r.value s.cpu
  frame : ∀ q, (isMTSPR i.insn = true → sprReg (sprOf i.insn) ≠ some q) →
    q.value (s.step i).cpu = q.value s.cpu
  translation : ∀ r, isMTSPR i.insn = true → sprReg (sprOf i.insn) = some r → r.maps = true →
    ∀ vaddr cid opType, fastHit (s.step i).cpu.toCpu vaddr cid opType = none

/-- A MTSPR to DSISR or DAR does not change it, and the value for SDR1 names the
table that the walk already reads. -/
structure SprStepOk (s : SprRun W) (i : SprInsn) : Prop where
  dsisr : isMTSPR i.insn = true → sprReg (sprOf i.insn) = some .dsisr →
    s.cpu.gpr (regD i.insn) = s.cpu.dsisr
  dar : isMTSPR i.insn = true → sprReg (sprOf i.insn) = some .dar →
    s.cpu.gpr (regD i.insn) = s.cpu.dar
  sdr1 : isMTSPR i.insn = true → sprReg (sprOf i.insn) = some .sdr1 →
    s.cpu.gpr (regD i.insn) = 0 ∨
      sdr1Host s.cpu.vm (s.cpu.gpr (regD i.insn)) = some s.cpu.sdr1Hptr

variable {s : SprRun W} {i : SprInsn}

theorem value_setGpr (cpu : SprCpu W) (reg : RegNum) (val : BitVec 32) (q : Spr) :
    q.value (cpu.setGpr reg val) = q.value cpu := by
  cases q <;> rfl

theorem step_mfspr (s : SprRun W) (hf : isMFSPR i.insn = true) :
    s.step i = ⟨s.cpu.setGpr (regD i.insn)
      (((sprReg (sprOf i.insn)).map (Spr.value s.cpu)).getD 0), s.last⟩ := by
  simp only [SprRun.step, mfspr_value s.cpu hf, not_both hf]
  split <;> rfl

theorem step_mtspr_none (s : SprRun W) (ht : isMTSPR i.insn = true)
    (hr : sprReg (sprOf i.insn) = none) : s.step i = s := by
  simp only [SprRun.step, mtspr_write s.cpu ht, hr]
  rfl

theorem step_mtspr (s : SprRun W) (ht : isMTSPR i.insn = true) {r : Spr}
    (hr : sprReg (sprOf i.insn) = some r) :
    s.step i = ⟨r.write s.cpu (s.cpu.gpr (regD i.insn)),
      Function.update s.last r (some (s.cpu.gpr (regD i.insn)))⟩ := by
  simp only [SprRun.step, mtspr_write s.cpu ht, hr, if_pos ht]
  rfl

theorem tableRight_write (cpu : SprCpu W) (val : BitVec 32) (r : Spr) :
    TableRight (r.write cpu val).toCpu ↔
      if r = .sdr1 then val = 0 ∨ sdr1Host cpu.vm val = some cpu.sdr1Hptr
      else TableRight cpu.toCpu := by
  cases r with
  | sdr1 => simp [Spr.write, TableRight, memInvalidateCache, or_iff_not_imp_left]
  | _ => simp [Spr.write, TableRight, memInvalidateCache]

def SprWriteOk (cpu : SprCpu W) (val : BitVec 32) : Spr → Prop
  | .dsisr => val = cpu.dsisr
  | .dar => val = cpu.dar
  | .sdr1 => val = 0 ∨ sdr1Host cpu.vm val = some cpu.sdr1Hptr
  | _ => True

theorem stepOk_mtspr (ht : isMTSPR i.insn = true) {r : Spr} (hr : sprReg (sprOf i.insn) = some r) :
    SprStepOk s i ↔ SprWriteOk s.cpu (s.cpu.gpr (regD i.insn)) r := by
  constructor
  · intro h
    cases r with
    | dsisr => exact h.dsisr ht hr
    | dar => exact h.dar ht hr
    | sdr1 => exact h.sdr1 ht hr
    | _ => trivial
  · intro h
    constructor <;> intro _ hr' <;> rw [hr] at hr' <;> cases hr' <;> exact h

theorem value_write_ok {cpu : SprCpu W} {val : BitVec 32} {r : Spr} (hr : r.readOnly = false)
    (hok : SprWriteOk cpu val r) : r.value (r.write cpu val) = val := by
  cases hk : r.kept with
  | true => exact value_write_self cpu val hk
  | false =>
    cases r with
    | dsisr => exact hok.symm
    | dar => exact hok.symm
    | tbl | tbu | pvr | immr => cases hr
    | _ => cases hk

theorem sprWriteOk_of_right {val : BitVec 32} {r : Spr}
    (h : SprRight ⟨r.write s.cpu val, Function.update s.last r (some val)⟩) :
    SprWriteOk s.cpu val r := by
  have hlast : Function.update s.last r (some val) r = some val := Function.update_self ..
  cases r with
  | dsisr => exact (h.written .dsisr val rfl hlast).symm
  | dar => exact (h.written .dar val rfl hlast).symm
  | sdr1 => exact (tableRight_write s.cpu val .sdr1).mp h.table
  | _ => trivial

theorem right_write (h : SprRight s) {val : BitVec 32} {r : Spr} (hok : SprWriteOk s.cpu val r) :
    SprRight ⟨r.write s.cpu val, Function.update s.last r (some val)⟩ := by
  constructor
  case written =>
    intro q v hq hlast
    by_cases hqr : q = r
    · subst hqr
      have hself : Function.update s.last q (some val) q = some val := Function.update_self ..
      cases hself.symm.trans hlast
      exact value_write_ok hq hok
    · have hsame : s.last q = some v := (Function.update_of_ne hqr ..).symm.trans hlast
      exact (value_write_other s.cpu val hqr).trans (h.written q v hq hsame)
  case table =>
    rw [tableRight_write]
    split
    next hr =>
      subst hr
      exact hok
    next => exact h.table

theorem right_setGpr (h : SprRight s) (reg : RegNum) (val : BitVec 32) :
    SprRight ⟨s.cpu.setGpr reg val, s.last⟩ where
  written r v hr hlast := (value_setGpr s.cpu reg val r).trans (h.written r v hr hlast)
  table := h.table

theorem right_step (h : SprRight s) : SprRight (s.step i) ↔ SprStepOk s i := by
  cases i.isSpr with
  | inl hf =>
    have hnot : isMTSPR i.insn ≠ true := by
      rw [not_both hf]
      decide
    rw [step_mfspr s hf]
    exact ⟨fun _ => ⟨fun ht => absurd ht hnot, fun ht => absurd ht hnot, fun ht => absurd ht hnot⟩,
      fun _ => right_setGpr h _ _⟩
  | inr ht =>
    cases hr : sprReg (sprOf i.insn) with
    | none =>
      rw [step_mtspr_none s ht hr]
      exact ⟨fun _ => ⟨by simp [hr], by simp [hr], by simp [hr]⟩, fun _ => h⟩
    | some r =>
      rw [step_mtspr s ht hr, stepOk_mtspr ht hr]
      exact ⟨sprWriteOk_of_right, right_write h⟩

theorem fastHit_invalid (cpu : Cpu W) (vaddr : BitVec 32) (cid : Cid) (opType : MtsOp) :
    fastHit (memInvalidateCache cpu) vaddr cid opType = none := by
  cases hhit : fastHit (memInvalidateCache cpu) vaddr cid opType with
  | none => rfl
  | some entry =>
    obtain ⟨he, htag, -⟩ := fastHit_eq_some.mp hhit
    have hpage : pageOf entry.gvpa = entry.gvpa := by rw [htag, pageOf_pageOf]
    rw [← he] at hpage
    exact absurd hpage (by decide : pageOf MtsEntry.invalid.gvpa ≠ MtsEntry.invalid.gvpa)

theorem sprStepRight (s : SprRun W) (i : SprInsn) : SprStepRight s i := by
  constructor
  case reads =>
    intro r hf hr
    rw [step_mfspr s hf, hr]
    exact Function.update_self ..
  case frame =>
    intro q hq
    cases i.isSpr with
    | inl hf =>
      rw [step_mfspr s hf]
      exact value_setGpr ..
    | inr ht =>
      cases hr : sprReg (sprOf i.insn) with
      | none => rw [step_mtspr_none s ht hr]
      | some r =>
        have hne : q ≠ r := fun h => hq ht (by rw [hr, h])
        rw [step_mtspr s ht hr]
        exact value_write_other s.cpu _ hne
  case translation =>
    intro r ht hr hmaps vaddr cid opType
    rw [step_mtspr s ht hr]
    cases r with
    | sdr1 => exact fastHit_invalid ..
    | bat => exact fastHit_invalid ..
    | _ => cases hmaps

def sprStart (cpu : SprCpu W) : SprRun W := ⟨cpu, fun _ => none⟩

theorem right_sprStart (cpu : SprCpu W) : SprRight (sprStart cpu) ↔ TableRight cpu.toCpu := by
  constructor
  · intro h
    exact h.table
  · intro h
    exact ⟨fun _ _ _ hlast => (by cases hlast), h⟩

/-- What the instructions wrote reads back and the page table is that of SDR1, all
along the run, exactly when each instruction is all right and the page table is
that of SDR1 to begin with. -/
theorem spr_right_iff (cpu : SprCpu W) (insns : List SprInsn) :
    (Always SprRight (history SprRun.step (sprStart cpu) insns)
        (insns.foldl SprRun.step (sprStart cpu)) ∧
      AllSteps SprStepRight (history SprRun.step (sprStart cpu) insns)) ↔
    TableRight cpu.toCpu ∧ AllSteps SprStepOk (history SprRun.step (sprStart cpu) insns) := by
  have hrun := run_history SprRun.step (sprStart cpu) insns
  have hstep : ∀ (s : SprRun W) i s', SprRight s → s' = s.step i →
      (SprRight s' ↔ SprStepOk s i) := by
    intro s i s' h hs
    rw [hs]
    exact right_step h
  constructor
  · intro h
    have hinit := hrun.head h.1
    exact ⟨(right_sprStart cpu).mp hinit, (hrun.invariant_iff hstep hinit).mp h.1⟩
  · intro h
    have hinit := (right_sprStart cpu).mpr h.1
    exact ⟨(hrun.invariant_iff hstep hinit).mpr h.2, fun x _ => sprStepRight x.1 x.2⟩

/-- `mtspr dar, r3` -/
def mtdarInsn : SprInsn := ⟨0x7c7303a6, by decide⟩

theorem not_spr_right :
    ¬ ∀ (W : Type) (cpu : SprCpu W) (insns : List SprInsn), TableRight cpu.toCpu →
      Always SprRight (history SprRun.step (sprStart cpu) insns)
        (insns.foldl SprRun.step (sprStart cpu)) ∧
      AllSteps SprStepRight (history SprRun.step (sprStart cpu) insns) := by
  intro h
  have hright := (h Unit ⟨bootCpu 5, 0, 0, 0, 0, 0⟩ [mtdarInsn] fun hne => absurd rfl hne).1.1
  exact absurd (hright.written .dar 5 rfl (by decide)) (by decide)

end Dynamips.Ppc32
