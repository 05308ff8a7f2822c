import Dynamips.AtmSwitch
import Dynamips.Lib.Crc

/-! The headers of the cells that leave the virtual ATM switch. -/
set_option autoImplicit false

namespace Dynamips.Atmsw
open Atm Buckets Crc Loop Polynomial Rxl Nio Runs

/-- What `atmsw_recv_cell` gives to `netio_send`, if anything. -/
def atmswRecvCell (t : AtmswTable) (nio : NioPtr) (atmCell : List Byte) :
    Option (Option NioPtr × List Byte) :=
  if atmCell.length ≠ cellSize then none else some (atmswHandleCell t nio atmCell)

def cellVpi (cell : List Byte) : BitVec 32 := (mNtoh32 cell &&& hdrVpiMask) >>> hdrVpiShift

def cellVci (cell : List Byte) : BitVec 32 := (mNtoh32 cell &&& hdrVciMask) >>> hdrVciShift

def cellPtiClp (cell : List Byte) : BitVec 32 := mNtoh32 cell &&& 0xf

/-- The generator of the header error control: x^8 + x^2 + x + 1. -/
noncomputable def hecPolynomial : (ZMod 2)[X] := X ^ 8 + X ^ 2 + X + 1

/-- The fifth byte is the remainder of the header, with the coset leader added. -/
def HecValid (cell : List Byte) : Prop :=
  hecPolynomial ∣ bytesPoly (cell.take 4) * X ^ 8 + poly (cell.getD 4 0 ^^^ cosetLeader)

theorem poly_hecGenerator : poly hecGenerator = hecPolynomial := by
  simp [poly, hecGenerator, hecPolynomial, Finset.sum_range_succ]
  ring

theorem and_topBit (v : BitVec 32) : v &&& 0x80 ≠ 0 ↔ v.getLsbD (8 - 1) = true := by
  have htwo : (0x80 : BitVec 32) = BitVec.twoPow 32 7 := rfl
  rw [htwo, BitVec.and_twoPow]
  have hne : BitVec.twoPow 32 7 ≠ 0#32 := by decide
  cases v.getLsbD 7 <;> simp [hne]

theorem loop_shift (v : BitVec 32) (n : Nat) :
    loop (fun _ (syndrome : BitVec 32) =>
      if syndrome &&& 0x80 ≠ 0 then (syndrome <<< 1) ^^^ hecGenerator else syndrome <<< 1) n v =
      (shift hecGenerator 8)^[n] v := by
  induction n with
  | zero => rfl
  | succ n ih =>
    rw [Function.iterate_succ_apply', ← ih, loop, shift]
    simp only [and_topBit]

theorem mk_hecSyndrome (b : BitVec 8) :
    AdjoinRoot.mk hecPolynomial (poly (hecSyndrome b)) =
      AdjoinRoot.mk hecPolynomial (X ^ 8 * poly b) := by
  have htop : hecGenerator.getLsbD 8 = true := rfl
  have hfit : Fits (8 + 1) hecGenerator := by
    intro i hi
    by_cases hlt : i < 32
    · revert hi
      interval_cases i <;> simp [hecGenerator]
    · exact BitVec.getLsbD_of_ge _ _ (by omega)
  have hb : ∀ i, 8 ≤ i → b.getLsbD i = false := fun i hi => BitVec.getLsbD_of_ge b i hi
  have hv : Fits 8 (b.setWidth 32) := by
    intro i hi
    rw [BitVec.getLsbD_setWidth, hb i hi, Bool.and_false]
  have hwide : poly (b.setWidth 32) = poly b := poly_setWidth b fun i hi => hb i (by omega)
  obtain ⟨hout, hmk⟩ := mk_shifts htop hfit (by decide) hv 8
  rw [poly_hecGenerator, hwide] at hmk
  rw [hecSyndrome, loop_shift, poly_setWidth _ hout, hmk]

theorem hecValid_insertHec {cell : List Byte} (h : hdrSize ≤ cell.length) :
    HecValid (atmInsertHec cell) := by
  have htake : (atmInsertHec cell).take 4 = cell.take 4 := by
    rw [atmInsertHec, memcpy, List.append_assoc]
    exact List.take_left' (by simp only [List.length_take, hdrSize] at h ⊢; omega)
  have hget : (atmInsertHec cell).getD 4 0 = atmComputeHec cell := by
    have hlen : (cell.take 4).length = 4 := by
      simp only [List.length_take, hdrSize] at h ⊢
      omega
    rw [atmInsertHec, memcpy, List.append_assoc, List.getD_eq_getElem?_getD,
      List.getElem?_append_right (by omega), hlen]
    rfl
  have hmk := mk_table mk_hecSyndrome (cell.take 4)
  rw [HecValid, htake, hget, atmComputeHec, BitVec.xor_assoc, BitVec.xor_self, BitVec.xor_zero,
    ← AdjoinRoot.mk_eq_zero, map_add, hmk, ← map_add, CharTwo.add_self_eq_zero, map_zero]

/-! The fields of a header. -/

theorem vpiMask_getLsbD (i : Nat) :
    hdrVpiMask.getLsbD i = (decide (20 ≤ i) && decide (i < 32)) := by
  by_cases hi : i < 32
  · revert hi
    revert i
    decide
  · rw [BitVec.getLsbD_of_ge _ _ (by omega), decide_eq_false hi, Bool.and_false]

theorem vciMask_getLsbD (i : Nat) :
    hdrVciMask.getLsbD i = (decide (4 ≤ i) && decide (i < 20)) := by
  by_cases hi : i < 32
  · revert hi
    revert i
    decide
  · have hout : ¬ i < 20 := by omega
    rw [BitVec.getLsbD_of_ge _ _ (by omega), decide_eq_false hout, Bool.and_false]

theorem lowMask_getLsbD {k : Nat} (hk : k < 32) (i : Nat) :
    (BitVec.ofNat 32 (2 ^ k - 1)).getLsbD i = decide (i < k) := by
  have hlt : 2 ^ k - 1 < 2 ^ 32 := by
    have hpow : 2 ^ k < 2 ^ 32 := Nat.pow_lt_pow_right (by omega) hk
    omega
  rw [BitVec.getLsbD, BitVec.toNat_ofNat, Nat.mod_eq_of_lt hlt, Nat.testBit_two_pow_sub_one]

theorem and_lowMask {k : Nat} (hk : k < 32) (v : BitVec 32) :
    v &&& BitVec.ofNat 32 (2 ^ k - 1) = v ↔ v.toNat < 2 ^ k := by
  have hlt : 2 ^ k - 1 < 2 ^ 32 := by
    have hpow : 2 ^ k < 2 ^ 32 := Nat.pow_lt_pow_right (by omega) hk
    omega
  rw [← BitVec.toNat_inj, BitVec.toNat_and, BitVec.toNat_ofNat, Nat.mod_eq_of_lt hlt,
    Nat.and_two_pow_sub_one_eq_mod]
  exact Nat.mod_eq_iff_lt (Nat.two_pow_pos k).ne'

section Header

variable (hdr vpiOut vciOut : BitVec 32)

/-- The header that `atmsw_vp_switch` makes. -/
def vpHeader : BitVec 32 := (hdr &&& ~~~hdrVpiMask) ||| (vpiOut <<< hdrVpiShift)

def vcHeader : BitVec 32 :=
  (hdr &&& ~~~(hdrVpiMask ||| hdrVciMask)) ||| (vpiOut <<< hdrVpiShift) |||
    (vciOut <<< hdrVciShift)

theorem vpi_vpHeader :
    (vpHeader hdr vpiOut &&& hdrVpiMask) >>> hdrVpiShift = vpiOut &&& 0xfff := by
  apply BitVec.eq_of_getLsbD_eq
  intro i hi
  have hmask : (0xfff : BitVec 32).getLsbD i = decide (i < 12) := @lowMask_getLsbD 12 (by decide) i
  simp only [vpHeader, hdrVpiShift, BitVec.getLsbD_ushiftRight, BitVec.getLsbD_and,
    BitVec.getLsbD_or, BitVec.getLsbD_not, BitVec.getLsbD_shiftLeft, vpiMask_getLsbD, hmask]
  grind

theorem vci_vpHeader : (vpHeader hdr vpiOut &&& hdrVciMask) >>> hdrVciShift =
    (hdr &&& hdrVciMask) >>> hdrVciShift := by
  apply BitVec.eq_of_getLsbD_eq
  intro i hi
  simp only [vpHeader, hdrVpiShift, hdrVciShift, BitVec.getLsbD_ushiftRight, BitVec.getLsbD_and,
    BitVec.getLsbD_or, BitVec.getLsbD_not, BitVec.getLsbD_shiftLeft, vpiMask_getLsbD,
    vciMask_getLsbD]
  grind

theorem ptiClp_vpHeader : vpHeader hdr vpiOut &&& 0xf = hdr &&& 0xf := by
  apply BitVec.eq_of_getLsbD_eq
  intro i hi
  have hmask : (0xf : BitVec 32).getLsbD i = decide (i < 4) := @lowMask_getLsbD 4 (by decide) i
  simp only [vpHeader, hdrVpiShift, BitVec.getLsbD_and, BitVec.getLsbD_or, BitVec.getLsbD_not,
    BitVec.getLsbD_shiftLeft, vpiMask_getLsbD, hmask]
  grind

theorem vpi_vcHeader : (vcHeader hdr vpiOut vciOut &&& hdrVpiMask) >>> hdrVpiShift =
    (vpiOut ||| vciOut >>> 16) &&& 0xfff := by
  apply BitVec.eq_of_getLsbD_eq
  intro i hi
  have hmask : (0xfff : BitVec 32).getLsbD i = decide (i < 12) := @lowMask_getLsbD 12 (by decide) i
  simp only [vcHeader, hdrVpiShift, hdrVciShift, BitVec.getLsbD_ushiftRight, BitVec.getLsbD_and,
    BitVec.getLsbD_or, BitVec.getLsbD_not, BitVec.getLsbD_shiftLeft, vpiMask_getLsbD,
    vciMask_getLsbD, hmask]
  grind

theorem vci_vcHeader : (vcHeader hdr vpiOut vciOut &&& hdrVciMask) >>> hdrVciShift =
    vciOut &&& 0xffff := by
  apply BitVec.eq_of_getLsbD_eq
  intro i hi
  have hmask : (0xffff : BitVec 32).getLsbD i = decide (i < 16) :=
    @lowMask_getLsbD 16 (by decide) i
  simp only [vcHeader, hdrVpiShift, hdrVciShift, BitVec.getLsbD_ushiftRight, BitVec.getLsbD_and,
    BitVec.getLsbD_or, BitVec.getLsbD_not, BitVec.getLsbD_shiftLeft, vpiMask_getLsbD,
    vciMask_getLsbD, hmask]
  grind

theorem ptiClp_vcHeader : vcHeader hdr vpiOut vciOut &&& 0xf = hdr &&& 0xf := by
  apply BitVec.eq_of_getLsbD_eq
  intro i hi
  have hmask : (0xf : BitVec 32).getLsbD i = decide (i < 4) := @lowMask_getLsbD 4 (by decide) i
  simp only [vcHeader, hdrVpiShift, hdrVciShift, BitVec.getLsbD_and, BitVec.getLsbD_or,
    BitVec.getLsbD_not, BitVec.getLsbD_shiftLeft, vpiMask_getLsbD, vciMask_getLsbD, hmask]
  grind

end Header

/-! The cells. -/

theorem atmInsertHec_eq (cell : List Byte) (hdr : BitVec 32) :
    ∃ hec, atmInsertHec (memcpy cell 0 (mHton32 hdr)) = mHton32 hdr ++ hec :: cell.drop 5 := by
  have hcopy : memcpy cell 0 (mHton32 hdr) = mHton32 hdr ++ cell.drop 4 := by
    rw [memcpy, List.take_zero, List.nil_append, length_mHton32]
  have hdrop : (mHton32 hdr ++ cell.drop 4).drop (4 + 1) = cell.drop 5 := by
    rw [List.drop_append, length_mHton32, List.drop_of_length_le (by simp), List.drop_drop]
    rfl
  refine ⟨atmComputeHec (memcpy cell 0 (mHton32 hdr)), ?_⟩
  rw [atmInsertHec, hcopy, memcpy, List.take_left' (length_mHton32 hdr), List.length_singleton,
    hdrop, List.append_assoc, List.singleton_append]

/-- The cell has the header, a valid HEC and the payload of the other cell. -/
structure Rewritten (hdr : BitVec 32) (cell cell' : List Byte) : Prop where
  length : cell'.length = cellSize
  header : mNtoh32 cell' = hdr
  hec : HecValid cell'
  payload : cell'.drop hdrSize = cell.drop hdrSize

theorem rewritten {cell : List Byte} (hlen : cell.length = cellSize) (hdr : BitVec 32) :
    Rewritten hdr cell (atmInsertHec (memcpy cell 0 (mHton32 hdr))) := by
  have hvalid : HecValid (atmInsertHec (memcpy cell 0 (mHton32 hdr))) := by
    apply hecValid_insertHec
    rw [length_memcpy (by rw [length_mHton32, hlen]; decide), hlen]
    decide
  obtain ⟨hec, heq⟩ := atmInsertHec_eq cell hdr
  rw [heq] at hvalid ⊢
  refine ⟨?_, mNtoh32_mHton32 hdr _, hvalid, ?_⟩
  · rw [List.length_append, length_mHton32, List.length_cons, List.length_drop, hlen]
    rfl
  · rw [hdrSize, List.drop_append, length_mHton32, List.drop_of_length_le (by simp)]
    rfl

def Conn.output : Conn → NioPtr
  | .vp vpc => vpc.output
  | .vc vcc => vcc.output

def Conn.switch (cell : List Byte) : Conn → List Byte
  | .vp vpc => atmswVpSwitch vpc cell
  | .vc vcc => atmswVcSwitch vcc cell

/-- The connection is the one for the cell; the VP connections come first. -/
def Conn.Matches (t : AtmswTable) (input : NioPtr) (cell : List Byte) (c : Conn) : Prop :=
  c.In t ∧ c.Accepts input (cellVpi cell) (cellVci cell) ∧
    match c with
    | .vp _ => True
    | .vc _ => ∀ vpc, Mem t.vpTable vpc → vpc.input = input → vpc.vpiIn ≠ cellVpi cell

def Conn.vpiVci (cell : List Byte) : Conn → BitVec 32 × BitVec 32
  | .vp vpc => (vpc.vpiOut, cellVci cell)
  | .vc vcc => (vcc.vpiOut, vcc.vciOut)

structure Switched (c : Conn) (cell cell' : List Byte) : Prop where
  length : cell'.length = cellSize
  label : (cellVpi cell', cellVci cell') = c.vpiVci cell
  ptiClp : cellPtiClp cell' = cellPtiClp cell
  hec : HecValid cell'
  payload : cell'.drop hdrSize = cell.drop hdrSize

def Conn.FitsHeader : Conn → Prop
  | .vp vpc => vpc.vpiOut.toNat < 2 ^ 12
  | .vc vcc => vcc.vpiOut.toNat < 2 ^ 12 ∧ vcc.vciOut.toNat < 2 ^ 16

theorem vpSwitched_iff {cell : List Byte} (hlen : cell.length = cellSize) (vpc : AtmswVpConn) :
    Switched (.vp vpc) cell (atmswVpSwitch vpc cell) ↔ vpc.vpiOut.toNat < 2 ^ 12 := by
  have hcell : Rewritten (vpHeader (mNtoh32 cell) vpc.vpiOut) cell (atmswVpSwitch vpc cell) :=
    rewritten hlen _
  have hvpi : cellVpi (atmswVpSwitch vpc cell) = vpc.vpiOut &&& 0xfff := by
    rw [cellVpi, hcell.header, vpi_vpHeader]
  have hvci : cellVci (atmswVpSwitch vpc cell) = cellVci cell := by
    rw [cellVci, hcell.header, vci_vpHeader, cellVci]
  have hiff := @and_lowMask 12 (by decide) vpc.vpiOut
  constructor
  · intro h
    have hlabel := congrArg Prod.fst h.label
    rw [← hiff]
    exact hvpi.symm.trans hlabel
  · intro h
    refine ⟨hcell.length, ?_, ?_, hcell.hec, hcell.payload⟩
    · rw [hvpi, hvci, Conn.vpiVci]
      exact congrArg (·, cellVci cell) (hiff.mpr h)
    · rw [cellPtiClp, hcell.header, ptiClp_vpHeader, cellPtiClp]

theorem vcSwitched_iff {cell : List Byte} (hlen : cell.length = cellSize) (vcc : AtmswVcConn) :
    Switched (.vc vcc) cell (atmswVcSwitch vcc cell) ↔
      vcc.vpiOut.toNat < 2 ^ 12 ∧ vcc.vciOut.toNat < 2 ^ 16 := by
  have hcell : Rewritten (vcHeader (mNtoh32 cell) vcc.vpiOut vcc.vciOut) cell
    (atmswVcSwitch vcc cell) := rewritten hlen _
  have hvpi : cellVpi (atmswVcSwitch vcc cell) = (vcc.vpiOut ||| vcc.vciOut >>> 16) &&& 0xfff := by
    rw [cellVpi, hcell.header, vpi_vcHeader]
  have hvci : cellVci (atmswVcSwitch vcc cell) = vcc.vciOut &&& 0xffff := by
    rw [cellVci, hcell.header, vci_vcHeader]
  have hvpiIff := @and_lowMask 12 (by decide) vcc.vpiOut
  have hvciIff := @and_lowMask 16 (by decide) vcc.vciOut
  have hnone : vcc.vciOut.toNat < 2 ^ 16 → vcc.vpiOut ||| vcc.vciOut >>> 16 = vcc.vpiOut := by
    intro h
    have hzero : vcc.vciOut >>> 16 = 0#32 := by
      apply BitVec.eq_of_toNat_eq
      rw [BitVec.toNat_ushiftRight, Nat.shiftRight_eq_div_pow, Nat.div_eq_of_lt h]
      rfl
    rw [hzero, BitVec.or_zero]
  constructor
  · intro h
    have hvciOut : vcc.vciOut.toNat < 2 ^ 16 :=
      hvciIff.mp (hvci.symm.trans (congrArg Prod.snd h.label))
    have hlabel := congrArg Prod.fst h.label
    rw [hvpi, hnone hvciOut] at hlabel
    exact ⟨hvpiIff.mp hlabel, hvciOut⟩
  · rintro ⟨hvpiOut, hvciOut⟩
    refine ⟨hcell.length, ?_, ?_, hcell.hec, hcell.payload⟩
    · rw [hvpi, hvci, hnone hvciOut, Conn.vpiVci]
      exact congrArg₂ Prod.mk (hvpiIff.mpr hvpiOut) (hvciIff.mpr hvciOut)
    · rw [cellPtiClp, hcell.header, ptiClp_vcHeader, cellPtiClp]

theorem recvCell_matches {t : AtmswTable} {input : NioPtr} {cell : List Byte} {c : Conn}
    (hplaced : Placed t) (hlen : cell.length = cellSize) (hc : c.Matches t input cell) :
    atmswRecvCell t input cell = some (some c.output, c.switch cell) := by
  rw [atmswRecvCell, if_neg (by simp [hlen]), atmswHandleCell]
  obtain ⟨hin, haccepts, hfirst⟩ := hc
  cases c with
  | vp vpc =>
    have hfind := (hplaced.vps.find_eq_some (input, cellVpi cell)).mpr
      ⟨hin, Prod.ext haccepts.1 haccepts.2⟩
    have hlookup : atmswVpLookup t (some input) (cellVpi cell) = some vpc := by
      simpa only [atmswVpLookup, Option.some.injEq, vpKey, Prod.mk.injEq] using hfind
    rw [cellVpi] at hlookup
    simp only [hlookup, Conn.output, Conn.switch]
  | vc vcc =>
    have hnone := hplaced.vpLookup_eq_none.mpr hfirst
    have hfind := (hplaced.vcs.find_eq_some (input, cellVpi cell, cellVci cell)).mpr
      ⟨hin, Prod.ext haccepts.1 (Prod.ext haccepts.2.1 haccepts.2.2)⟩
    have hlookup : atmswVcLookup t (some input) (cellVpi cell) (cellVci cell) = some vcc := by
      simpa only [atmswVcLookup, Option.some.injEq, vcKey, Prod.mk.injEq] using hfind
    rw [cellVpi] at hnone hlookup
    rw [cellVci] at hlookup
    simp only [hnone, hlookup, Conn.output, Conn.switch]

/-- In every state of the switch, a connection switches the cells that it is for
as configured exactly if its output VPI and VCI fit in the header. -/
theorem cell_switched_iff {n : Nios} {trace : List (State × Event)} {s : State} {input : NioPtr}
    {cell : List Byte} {c : Conn} (hrun : Run Step (State.init n) trace s)
    (hlen : cell.length = cellSize) (hc : c.Matches s.table input cell) :
    (∃ cell', atmswRecvCell s.table input cell = some (some c.output, cell') ∧
      Switched c cell cell') ↔ c.FitsHeader := by
  have hplaced : Placed s.table :=
    (hrun.always (fun _ _ _ h hs => placed_step h hs) (placed_init n)).1
  rw [recvCell_matches hplaced hlen hc]
  simp only [Option.some.injEq, Prod.mk.injEq, true_and, exists_eq_left']
  cases c with
  | vp vpc => exact vpSwitched_iff hlen vpc
  | vc vcc => exact vcSwitched_iff hlen vcc

def labelledCell : List Byte := [0x00, 0x10, 0x00, 0x70] ++ List.replicate 49 0xa5

def vccTo (vciOut : BitVec 32) : State :=
  step (.init twoNios) (.createVcc "A" 1 7 "B" 2 vciOut true true)

theorem vccTo_run (vciOut : BitVec 32) :
    Run Step (.init twoNios) [(.init twoNios, .createVcc "A" 1 7 "B" 2 vciOut true true)]
      (vccTo vciOut) :=
  Run.next Run.start rfl

theorem vccTo_matches (vciOut : BitVec 32) :
    (Conn.vc ⟨0, 1, 1, 7, 2, vciOut⟩).Matches (vccTo vciOut).table 0 labelledCell := by
  have hvcc : (vccTo vciOut).table.vcTable =
      push (empty _ _) (atmswVccHash 1 7) ⟨0, 1, 1, 7, 2, vciOut⟩ := rfl
  refine ⟨?_, ⟨rfl, rfl, rfl⟩, fun _ h => absurd h not_mem_empty⟩
  rw [Conn.In, hvcc]
  exact mem_push.mpr (Or.inl rfl)

theorem cell_switched_vcc : ∃ cell', atmswRecvCell (vccTo 9).table 0 labelledCell =
    some (some 1, cell') ∧ Switched (.vc ⟨0, 1, 1, 7, 2, 9⟩) labelledCell cell' :=
  (cell_switched_iff (vccTo_run 9) rfl (vccTo_matches 9)).mpr ⟨by decide, by decide⟩

/-- The bit of the VCI goes over into the VPI. -/
theorem not_cell_switched : ¬ ∀ (trace : List (State × Event)) (s : State) (input : NioPtr)
    (cell : List Byte) (c : Conn), Run Step (.init twoNios) trace s → cell.length = cellSize →
    c.Matches s.table input cell →
    ∃ cell', atmswRecvCell s.table input cell = some (some c.output, cell') ∧
      Switched c cell cell' := by
  intro h
  obtain ⟨cell', hrecv, hswitched⟩ :=
    h _ _ 0 labelledCell _ (vccTo_run 0x10007) rfl (vccTo_matches 0x10007)
  have hplaced : Placed (vccTo 0x10007).table := placed_step (placed_init twoNios) rfl
  rw [recvCell_matches hplaced rfl (vccTo_matches 0x10007), Option.some.injEq,
    Prod.mk.injEq] at hrecv
  rw [← hrecv.2] at hswitched
  have hlabel := hswitched.label
  revert hlabel
  decide

end Dynamips.Atmsw
