import Dynamips.ClassBitmap
import Dynamips.Lib.Loop
import Dynamips.Lib.Numbering
import Mathlib.Data.Fintype.Pi
set_option autoImplicit false

namespace Dynamips.Ilt
open Loop

variable {Insn : Type} {ilt : InsnTable Insn}

def rfcArrayMaxsize : Nat := 65536

/-- `rfc_array_t`. `eqID` has the length that was allocated behind the header;
`cbm_hash` and `id2cbm` are the two directions of one numbering, whose count is
`nr_eqid`. -/
structure RfcArray (ilt : InsnTable Insn) where
  nrElements : Nat
  eqID : Array Int
  classes : Numbering (Cbm ilt)

def RfcArray.nrEqid (rfct : RfcArray ilt) : Nat := rfct.classes.count

/-- `cbm_get_eqclass`; the `assert` on the number of classes aborts. -/
def cbmGetEqclass (rfct : RfcArray ilt) (cbm : Cbm ilt) : Option (RfcArray ilt × Nat) :=
  match h : rfct.classes.idOf cbm with
  | some id => some (rfct, id)
  | none =>
    if rfct.nrEqid < rfct.nrElements then
      some ({ rfct with classes := rfct.classes.push cbm h }, rfct.nrEqid)
    else none

def RfcArray.setEqID (rfct : RfcArray ilt) (index id : Nat) : Option (RfcArray ilt) :=
  if index < rfct.eqID.size then some { rfct with eqID := rfct.eqID.setIfInBounds index id } else none

/-- `total_size` of `rfc_alloc_array`: a `size_t` sum kept in an `int`. -/
def rfcTotalSize (nrElements : Nat) : Int :=
  ((nrElements * 4 + 40 : Nat) : Int).bmod (2 ^ 32)

/-- `rfc_alloc_array`: a negative size makes `malloc` fail and one below the
40 bytes of the header cannot hold the fields that are written there. -/
def rfcAllocArray (nrElements : Nat) : Option (RfcArray ilt) :=
  if rfcTotalSize nrElements < 40 then none
  else some {
    nrElements := nrElements
    eqID := Array.replicate (((rfcTotalSize nrElements).toNat - 40) / 4) 0
    classes := Numbering.empty }

/-- One turn of either phase: the class of a bitmap is stored at an index. -/
def rfcFill (rfct : RfcArray ilt) (index : Nat) (cbm : Cbm ilt) : Option (RfcArray ilt) := do
  let (rfct, id) ← cbmGetEqclass rfct cbm
  rfct.setEqID index id

def rfcPhase0Turn (pcheck : Insn → Nat → Bool) (i : Nat) (s : Cbm ilt × RfcArray ilt) :
    Option (Cbm ilt × RfcArray ilt) := do
  let bmp := rfcCheckInsn ilt pcheck i s.1
  let rfct ← rfcFill s.2 i bmp
  some (bmp, rfct)

def rfcPhase0 (ilt : InsnTable Insn) (pcheck : Insn → Nat → Bool) : Option (RfcArray ilt) := do
  let rfct ← rfcAllocArray rfcArrayMaxsize
  let s ← loopM (rfcPhase0Turn pcheck) rfcArrayMaxsize (cbmCreate, rfct)
  some s.2

/-- A product of two `int`s that must not overflow. -/
def intMul (a b : Nat) : Option Nat := if a * b < 2 ^ 31 then some (a * b) else none

/-- The body of the two nested loops of `rfc_phase_j`; the state is `index` and
the array. -/
def rfcPhaseJTurn (p0 p1 : RfcArray ilt) (i j : Nat) (s : Nat × RfcArray ilt) :
    Option (Nat × RfcArray ilt) := do
  let c0 ← p0.classes.keyAt i
  let c1 ← p1.classes.keyAt j
  let rfct ← rfcFill s.2 s.1 (cbmBitwiseAnd c0 c1)
  some (s.1 + 1, rfct)

def rfcPhaseJ (p0 p1 : RfcArray ilt) : Option (RfcArray ilt) := do
  let nrElements ← intMul p0.nrEqid p1.nrEqid
  let rfct ← rfcAllocArray nrElements
  let s ← loopM (fun i => loopM (rfcPhaseJTurn p0 p1 i) p1.nrEqid) p0.nrEqid (0, rfct)
  some s.2

def iltPostprocessingTurn (i : Nat) (rfct : RfcArray ilt) : Option (RfcArray ilt) := do
  let id ← rfct.eqID[i]?
  let cbm ← rfct.classes.keyAt id.toNat
  some { rfct with eqID := rfct.eqID.setIfInBounds i (cbmFirstMatch cbm) }

def iltPostprocessing (rfct : RfcArray ilt) : Option (RfcArray ilt) :=
  loopM iltPostprocessingTurn rfct.nrElements rfct

/-- The three arrays of a compiled `insn_lookup_t`. -/
structure InsnLookup (ilt : InsnTable Insn) where
  hi : RfcArray ilt
  lo : RfcArray ilt
  cross : RfcArray ilt

def iltCompile (ilt : InsnTable Insn) : Option (InsnLookup ilt) := do
  let hi ← rfcPhase0 ilt ilt.chkHi
  let lo ← rfcPhase0 ilt ilt.chkLo
  let cross ← rfcPhaseJ hi lo
  let cross ← iltPostprocessing cross
  some ⟨hi, lo, cross⟩

def iltGetIndex (a1 a2 : RfcArray ilt) (i1 i2 : Nat) : Option Int := do
  let e1 ← a1.eqID[i1]?
  let e2 ← a2.eqID[i2]?
  some (e1 * a2.nrEqid + e2)

/-- `ilt_lookup`; a read outside of an array has no result. -/
def iltLookup (t : InsnLookup ilt) (insn : BitVec 32) : Option Int := do
  let id ← iltGetIndex t.hi t.lo (insn >>> 16).toNat (insn &&& 0xFFFF).toNat
  if id < 0 then none else t.cross.eqID[id.toNat]?

/-- The first `n` entries carry the classes of the bitmaps `g 0 … g (n-1)`, and
no other bitmap has a class. -/
structure Filled (rfct : RfcArray ilt) (n : Nat) (g : Nat → Cbm ilt) : Prop where
  entry : ∀ t < n, ∃ id : Nat, rfct.eqID[t]? = some (id : Int) ∧ rfct.classes.idOf (g t) = some id
  known : ∀ c, (rfct.classes.idOf c).isSome ↔ ∃ t < n, g t = c

theorem Filled.count_eq {rfct : RfcArray ilt} {n : Nat} {g : Nat → Cbm ilt}
    (h : Filled rfct n g) : rfct.nrEqid = ((Finset.range n).image g).card := by
  apply Numbering.count_eq_card
  intro c
  rw [h.known]
  simp

theorem Filled.count_le {rfct : RfcArray ilt} {n : Nat} {g : Nat → Cbm ilt}
    (h : Filled rfct n g) : rfct.nrEqid ≤ n := by
  rw [h.count_eq]
  exact Finset.card_image_le.trans_eq (Finset.card_range n)

theorem filled_zero {nrElements : Nat} {eqID : Array Int} (g : Nat → Cbm ilt) :
    @Filled _ ilt ⟨nrElements, eqID, Numbering.empty⟩ 0 g where
  entry := by simp
  known := by simp [Numbering.empty]

theorem cbmGetEqclass_spec {rfct : RfcArray ilt} (cbm : Cbm ilt)
    (h : rfct.nrEqid < rfct.nrElements) :
    ∃ rfct' id, cbmGetEqclass rfct cbm = some (rfct', id) ∧
      rfct'.nrElements = rfct.nrElements ∧ rfct'.eqID = rfct.eqID ∧
      rfct'.classes.idOf cbm = some id ∧
      (∀ c i, rfct.classes.idOf c = some i → rfct'.classes.idOf c = some i) ∧
      ∀ c, (rfct'.classes.idOf c).isSome ↔ c = cbm ∨ (rfct.classes.idOf c).isSome := by
  unfold cbmGetEqclass
  split
  · rename_i id hid
    refine ⟨rfct, id, rfl, rfl, rfl, hid, fun c i hc => hc, fun c => ?_⟩
    by_cases hc : c = cbm <;> simp [hc, hid]
  · rename_i hid
    rw [if_pos h]
    exact ⟨_, _, rfl, rfl, rfl, Numbering.idOf_push_self _ _ hid,
      fun c i hc => Numbering.idOf_push_of_some hid hc, fun c => Numbering.isSome_idOf_push _ _ c hid⟩

theorem rfcFill_filled {rfct : RfcArray ilt} {n : Nat} {g : Nat → Cbm ilt}
    (h : Filled rfct n g) (hn : n < rfct.nrElements) (hsize : n < rfct.eqID.size) :
    ∃ rfct', rfcFill rfct n (g n) = some rfct' ∧ Filled rfct' (n + 1) g ∧
      rfct'.nrElements = rfct.nrElements ∧ rfct'.eqID.size = rfct.eqID.size := by
  have hcount := h.count_le
  obtain ⟨mid, id, hget, hnr, heq, hid, hold, hknown⟩ :=
    cbmGetEqclass_spec (g n) (show rfct.nrEqid < rfct.nrElements by omega)
  have hmid : n < mid.eqID.size := by rw [heq]; exact hsize
  refine ⟨{ mid with eqID := mid.eqID.setIfInBounds n id }, ?_, ⟨?_, ?_⟩, hnr, by simp [heq]⟩
  · simp [rfcFill, hget, RfcArray.setEqID, hmid]
  · intro t ht
    by_cases htn : t = n
    · subst htn
      exact ⟨id, by simp [hmid], hid⟩
    · obtain ⟨i, hi, hc⟩ := h.entry t (by omega)
      exact ⟨i, by simp [Ne.symm htn, heq, hi], hold _ _ hc⟩
  · intro c
    rw [hknown, h.known]
    constructor
    · rintro (rfl | ⟨t, ht, rfl⟩)
      · exact ⟨n, by omega, rfl⟩
      · exact ⟨t, by omega, rfl⟩
    · rintro ⟨t, ht, rfl⟩
      by_cases htn : t = n
      · exact .inl (by rw [htn])
      · exact .inr ⟨t, by omega, rfl⟩

theorem rfcFill_bound {rfct rfct' : RfcArray ilt} {n : Nat} {c : Cbm ilt}
    (h : rfcFill rfct n c = some rfct') :
    n < rfct.eqID.size ∧ rfct'.eqID.size = rfct.eqID.size := by
  have hget : ∀ r id, cbmGetEqclass rfct c = some (r, id) → r.eqID = rfct.eqID := by
    intro r id hr
    unfold cbmGetEqclass at hr
    split at hr
    · cases hr; rfl
    · split at hr
      · cases hr; rfl
      · cases hr
  obtain ⟨⟨r, id⟩, hr, hset⟩ := Option.bind_eq_some_iff.mp h
  have heq := hget r id hr
  simp only [RfcArray.setEqID] at hset
  split at hset
  · cases hset
    rename_i hlt
    exact ⟨by rw [← heq]; exact hlt, by simp [heq]⟩
  · cases hset

theorem rfcTotalSize_small {n : Nat} (h : n * 4 + 40 < 2 ^ 31) :
    rfcTotalSize n = (n * 4 + 40 : Nat) := by
  unfold rfcTotalSize
  exact Int.bmod_eq_of_le (by omega) (by omega)

theorem rfcTotalSize_large {n : Nat} (h : 2 ^ 31 ≤ n * 4 + 40) (hn : n < 2 ^ 31) :
    rfcTotalSize n < 40 + 4 * (n : Int) := by
  unfold rfcTotalSize
  rw [Int.bmod_def]
  split
  · omega
  · omega

theorem rfcAllocArray_small {n : Nat} (h : n * 4 + 40 < 2 ^ 31) :
    (rfcAllocArray n : Option (RfcArray ilt)) =
      some ⟨n, Array.replicate n 0, Numbering.empty⟩ := by
  have hsize := rfcTotalSize_small h
  have hcap : (((n * 4 + 40 : Nat) : Int).toNat - 40) / 4 = n := by omega
  rw [rfcAllocArray, hsize, hcap, if_neg (by omega)]

theorem rfcPhase0Turn_spec (pcheck : Insn → Nat → Bool) {i : Nat} {s : Cbm ilt × RfcArray ilt}
    (hi : i < rfcArrayMaxsize) (hpad : Padded s.1) (hfill : Filled s.2 i (valueCbm ilt pcheck))
    (hnr : s.2.nrElements = rfcArrayMaxsize) (hsize : s.2.eqID.size = rfcArrayMaxsize) :
    ∃ s', rfcPhase0Turn pcheck i s = some s' ∧ Padded s'.1 ∧
      Filled s'.2 (i + 1) (valueCbm ilt pcheck) ∧ s'.2.nrElements = rfcArrayMaxsize ∧
      s'.2.eqID.size = rfcArrayMaxsize := by
  obtain ⟨rfct, hrun, hfill', hnr', hsize'⟩ :=
    rfcFill_filled hfill (by rw [hnr]; exact hi) (by rw [hsize]; exact hi)
  have hcheck := rfcCheckInsn_eq pcheck i hpad
  refine ⟨(rfcCheckInsn ilt pcheck i s.1, rfct), ?_, padded_rfcCheckInsn pcheck i hpad,
    hfill', hnr'.trans hnr, hsize'.trans hsize⟩
  simp [rfcPhase0Turn, hcheck, hrun]

theorem rfcPhase0_spec (pcheck : Insn → Nat → Bool) :
    ∃ rfct, rfcPhase0 ilt pcheck = some rfct ∧
      Filled rfct rfcArrayMaxsize (valueCbm ilt pcheck) ∧
      rfct.nrElements = rfcArrayMaxsize ∧ rfct.eqID.size = rfcArrayMaxsize := by
  obtain ⟨s, hrun, -, hfill, hnr, hsize⟩ := loopM_total (f := @rfcPhase0Turn _ ilt pcheck)
    (n := rfcArrayMaxsize)
    (s := (cbmCreate, ⟨rfcArrayMaxsize, Array.replicate rfcArrayMaxsize 0, Numbering.empty⟩))
    (fun i s => Padded s.1 ∧ Filled s.2 i (valueCbm ilt pcheck) ∧
      s.2.nrElements = rfcArrayMaxsize ∧ s.2.eqID.size = rfcArrayMaxsize)
    ⟨padded_cbmCreate, filled_zero _, rfl, Array.size_replicate⟩
    (fun i hi s ⟨hpad, hfill, hnr, hsize⟩ => rfcPhase0Turn_spec pcheck hi hpad hfill hnr hsize)
  have halloc := @rfcAllocArray_small _ ilt rfcArrayMaxsize
    (by simp [rfcArrayMaxsize])
  exact ⟨s.2, bind_of_some halloc (bind_of_some hrun rfl), hfill, hnr, hsize⟩

/-- How many different rule sets the check selects over the 16-bit values. -/
def classCount (ilt : InsnTable Insn) (pcheck : Insn → Nat → Bool) : Nat :=
  ((Finset.range rfcArrayMaxsize).image fun v (i : Fin ilt.nrInsn) => pcheck (ilt.getInsn i) v).card

theorem classCount_eq {pcheck : Insn → Nat → Bool} {rfct : RfcArray ilt}
    (h : Filled rfct rfcArrayMaxsize (valueCbm ilt pcheck)) : rfct.nrEqid = classCount ilt pcheck := by
  rw [h.count_eq, classCount]
  let rules (v : Nat) (i : Fin ilt.nrInsn) : Bool := pcheck (ilt.getInsn i) v
  have hcomp : (Finset.range rfcArrayMaxsize).image rules =
      ((Finset.range rfcArrayMaxsize).image (valueCbm ilt pcheck)).image fun c i => cbmBit c i.val := by
    rw [Finset.image_image]
    apply Finset.image_congr
    intro v _
    funext i
    simp [rules, cbmBit_valueCbm, ruleBit]
  change _ = ((Finset.range rfcArrayMaxsize).image rules).card
  rw [hcomp, Finset.card_image_of_injOn (s := (Finset.range rfcArrayMaxsize).image _)]
  intro a ha b hb hab
  simp only [Finset.coe_image, Set.mem_image] at ha hb
  obtain ⟨v, -, rfl⟩ := ha
  obtain ⟨w, -, rfl⟩ := hb
  rw [valueCbm_eq_iff]
  intro i
  simpa [cbmBit_valueCbm, ruleBit] using congrFun hab i

/-- The bitmap of class `i`. -/
def RfcArray.cbmOf (rfct : RfcArray ilt) (i : Nat) : Cbm ilt :=
  (rfct.classes.keyAt i).getD cbmCreate

theorem keyAt_cbmOf {rfct : RfcArray ilt} {i : Nat} (h : i < rfct.nrEqid) :
    rfct.classes.keyAt i = some (rfct.cbmOf i) := by
  obtain ⟨c, hc⟩ := rfct.classes.total i h
  simp [RfcArray.cbmOf, hc]

def crossCbm (p0 p1 : RfcArray ilt) (t : Nat) : Cbm ilt :=
  cbmBitwiseAnd (p0.cbmOf (t / p1.nrEqid)) (p1.cbmOf (t % p1.nrEqid))

theorem crossCbm_index {p0 p1 : RfcArray ilt} {i j : Nat} (hj : j < p1.nrEqid) :
    crossCbm p0 p1 (i * p1.nrEqid + j) = cbmBitwiseAnd (p0.cbmOf i) (p1.cbmOf j) := by
  have hdiv : (i * p1.nrEqid + j) / p1.nrEqid = i := by
    rw [Nat.mul_comm, Nat.mul_add_div (by omega), Nat.div_eq_of_lt hj, Nat.add_zero]
  have hmod : (i * p1.nrEqid + j) % p1.nrEqid = j := by
    rw [Nat.mul_add_mod_self_right, Nat.mod_eq_of_lt hj]
  rw [crossCbm, hdiv, hmod]

theorem cross_index_lt {a b i j : Nat} (hi : i < a) (hj : j < b) : i * b + j < a * b := by
  have h := Nat.mul_le_mul_right b (Nat.succ_le_of_lt hi)
  rw [Nat.succ_mul] at h
  omega

theorem rfcPhaseJTurn_spec {p0 p1 : RfcArray ilt} {i j : Nat} {s : Nat × RfcArray ilt}
    (hi : i < p0.nrEqid) (hj : j < p1.nrEqid) (hindex : s.1 = i * p1.nrEqid + j)
    (hfill : Filled s.2 s.1 (crossCbm p0 p1))
    (hnr : s.2.nrElements = p0.nrEqid * p1.nrEqid)
    (hsize : s.2.eqID.size = p0.nrEqid * p1.nrEqid) :
    ∃ s', rfcPhaseJTurn p0 p1 i j s = some s' ∧ s'.1 = i * p1.nrEqid + (j + 1) ∧
      Filled s'.2 s'.1 (crossCbm p0 p1) ∧ s'.2.nrElements = p0.nrEqid * p1.nrEqid ∧
      s'.2.eqID.size = p0.nrEqid * p1.nrEqid := by
  have hlt := cross_index_lt hi hj
  have hcross := @crossCbm_index _ _ p0 _ i _ hj
  obtain ⟨rfct, hrun, hfill', hnr', hsize'⟩ :=
    rfcFill_filled hfill (by rw [hnr, hindex]; exact hlt) (by rw [hsize, hindex]; exact hlt)
  refine ⟨(s.1 + 1, rfct), ?_, by simp [hindex, Nat.add_assoc], hfill', hnr'.trans hnr,
    hsize'.trans hsize⟩
  rw [hindex, hcross, ← hindex] at hrun
  exact bind_of_some (keyAt_cbmOf hi) (bind_of_some (keyAt_cbmOf hj) (bind_of_some hrun rfl))

theorem rfcPhaseJ_spec {p0 p1 : RfcArray ilt} (h : p0.nrEqid * p1.nrEqid * 4 + 40 < 2 ^ 31) :
    ∃ rfct, rfcPhaseJ p0 p1 = some rfct ∧
      Filled rfct (p0.nrEqid * p1.nrEqid) (crossCbm p0 p1) ∧
      rfct.nrElements = p0.nrEqid * p1.nrEqid ∧ rfct.eqID.size = p0.nrEqid * p1.nrEqid := by
  let Inv (index : Nat) (s : Nat × RfcArray ilt) : Prop :=
    s.1 = index ∧ Filled s.2 s.1 (crossCbm p0 p1) ∧
      s.2.nrElements = p0.nrEqid * p1.nrEqid ∧ s.2.eqID.size = p0.nrEqid * p1.nrEqid
  obtain ⟨s, hrun, hindex, hfill, hnr, hsize⟩ := loopM_total
    (f := fun i => loopM (rfcPhaseJTurn p0 p1 i) p1.nrEqid) (n := p0.nrEqid)
    (s := (0, ⟨p0.nrEqid * p1.nrEqid, Array.replicate (p0.nrEqid * p1.nrEqid) 0,
      Numbering.empty⟩))
    (fun i s => Inv (i * p1.nrEqid) s)
    ⟨by simp, filled_zero _, rfl, Array.size_replicate⟩
    (by
      intro i hi s hinv
      have hrow := loopM_total (f := rfcPhaseJTurn p0 p1 i) (n := p1.nrEqid) (s := s)
        (fun j s => Inv (i * p1.nrEqid + j) s) hinv
        (fun j hj s ⟨hindex, hfill, hnr, hsize⟩ =>
          rfcPhaseJTurn_spec hi hj hindex hfill hnr hsize)
      simpa [Nat.succ_mul] using hrow)
  have hmul : intMul p0.nrEqid p1.nrEqid = some (p0.nrEqid * p1.nrEqid) :=
    if_pos (by omega)
  rw [hindex] at hfill
  exact ⟨s.2, bind_of_some hmul (bind_of_some (rfcAllocArray_small h) (bind_of_some hrun rfl)),
    hfill, hnr, hsize⟩

theorem rfcPhaseJTurn_bound {p0 p1 : RfcArray ilt} {i j : Nat} {s s' : Nat × RfcArray ilt}
    (h : rfcPhaseJTurn p0 p1 i j s = some s') :
    s'.1 = s.1 + 1 ∧ s'.1 ≤ s.2.eqID.size ∧ s'.2.eqID.size = s.2.eqID.size := by
  obtain ⟨c0, -, h⟩ := Option.bind_eq_some_iff.mp h
  obtain ⟨c1, -, h⟩ := Option.bind_eq_some_iff.mp h
  obtain ⟨rfct, hfill, h⟩ := Option.bind_eq_some_iff.mp h
  cases h
  obtain ⟨hlt, hsize⟩ := rfcFill_bound hfill
  exact ⟨rfl, hlt, hsize⟩

theorem rfcPhaseJ_overflow {p0 p1 : RfcArray ilt} (h : 2 ^ 31 ≤ p0.nrEqid * p1.nrEqid * 4 + 40) :
    rfcPhaseJ p0 p1 = none := by
  cases hrun : rfcPhaseJ p0 p1 with
  | none => rfl
  | some rfct =>
    exfalso
    obtain ⟨n, hmul, hrun⟩ := Option.bind_eq_some_iff.mp hrun
    obtain ⟨rfct0, halloc, hrun⟩ := Option.bind_eq_some_iff.mp hrun
    obtain ⟨s, hloop, -⟩ := Option.bind_eq_some_iff.mp hrun
    simp only [intMul, Option.ite_none_right_eq_some, Option.some.injEq] at hmul
    obtain ⟨hint, rfl⟩ := hmul
    have hbound := loopM_partial (f := fun i => loopM (rfcPhaseJTurn p0 p1 i) p1.nrEqid)
      (fun i s => s.1 = i * p1.nrEqid ∧ s.1 ≤ s.2.eqID.size ∧
        s.2.eqID.size = rfct0.eqID.size) (by simp)
      (by
        intro i _ s s' hinv hrow
        have hrow := loopM_partial (fun j s => s.1 = i * p1.nrEqid + j ∧
          s.1 ≤ s.2.eqID.size ∧ s.2.eqID.size = rfct0.eqID.size) hinv
          (by
            intro j _ u u' ⟨hu, hle, hsize⟩ hturn
            obtain ⟨hu', hle', hsize'⟩ := rfcPhaseJTurn_bound hturn
            exact ⟨by omega, by omega, hsize'.trans hsize⟩) hrow
        simpa [Nat.succ_mul] using hrow) hloop
    have hlarge := rfcTotalSize_large h hint
    simp only [rfcAllocArray] at halloc
    split at halloc
    · cases halloc
    · cases halloc
      simp only [Array.size_replicate] at hbound
      omega

theorem iltPostprocessingTurn_spec {rfct s : RfcArray ilt} {n i : Nat} {g : Nat → Cbm ilt}
    (hfill : Filled rfct n g) (hi : i < n) (hclasses : s.classes = rfct.classes)
    (hsize : s.eqID.size = n)
    (hentry : ∀ t < n, s.eqID[t]? = if t < i then some (cbmFirstMatch (g t)) else rfct.eqID[t]?) :
    ∃ s', iltPostprocessingTurn i s = some s' ∧ s'.nrElements = s.nrElements ∧
      s'.classes = rfct.classes ∧ s'.eqID.size = n ∧
      ∀ t < n, s'.eqID[t]? = if t < i + 1 then some (cbmFirstMatch (g t)) else rfct.eqID[t]? := by
  obtain ⟨id, hid, hclass⟩ := hfill.entry i hi
  have hread : s.eqID[i]? = some (id : Int) := by rw [hentry i hi, if_neg (by omega), hid]
  have hkey : s.classes.keyAt (id : Int).toNat = some (g i) := by
    rw [hclasses]
    exact Numbering.keyAt_idOf hclass
  refine ⟨_, bind_of_some hread (bind_of_some hkey rfl), rfl, hclasses, by simp [hsize], ?_⟩
  intro t ht
  by_cases hti : t = i
  · simp [hti, hsize, hi]
  · have hiff : t < i + 1 ↔ t < i := by omega
    simp only [Array.getElem?_setIfInBounds_ne (Ne.symm hti), hentry t ht, hiff]

theorem iltPostprocessing_spec {rfct : RfcArray ilt} {n : Nat} {g : Nat → Cbm ilt}
    (hfill : Filled rfct n g) (hnr : rfct.nrElements = n) (hsize : rfct.eqID.size = n) :
    ∃ rfct', iltPostprocessing rfct = some rfct' ∧ rfct'.nrElements = n ∧
      rfct'.classes = rfct.classes ∧ rfct'.eqID.size = n ∧
      ∀ t < n, rfct'.eqID[t]? = some (cbmFirstMatch (g t)) := by
  obtain ⟨s, hrun, hnr', hclasses, hsize', hentry⟩ := loopM_total (f := @iltPostprocessingTurn _ ilt)
    (n := n) (s := rfct)
    (fun i s => s.nrElements = n ∧ s.classes = rfct.classes ∧ s.eqID.size = n ∧
      ∀ t < n, s.eqID[t]? = if t < i then some (cbmFirstMatch (g t)) else rfct.eqID[t]?)
    ⟨hnr, rfl, hsize, by simp⟩
    (by
      intro i hi s ⟨hn, hclasses, hs, hentry⟩
      obtain ⟨s', hturn, hn', hrest⟩ := iltPostprocessingTurn_spec hfill hi hclasses hs hentry
      exact ⟨s', hturn, hn'.trans hn, hrest⟩)
  rw [iltPostprocessing, hnr]
  refine ⟨s, hrun, hnr', hclasses, hsize', fun t ht => ?_⟩
  rw [hentry t ht, if_pos ht]

def insnMatches (ilt : InsnTable Insn) (insn : BitVec 32) (i : Fin ilt.nrInsn) : Bool :=
  ilt.chkHi (ilt.getInsn i) (insn >>> 16).toNat && ilt.chkLo (ilt.getInsn i) (insn &&& 0xFFFF).toNat

/-- `r` is the smallest index accepted by `p`, or -1 when there is none. -/
def FirstIndex {n : Nat} (p : Fin n → Bool) (r : Int) : Prop :=
  (∃ i, r = i.val ∧ p i = true ∧ ∀ j < i, p j = false) ∨ (r = -1 ∧ ∀ i, p i = false)

theorem cbmFirstMatch_firstIndex (cbm : Cbm ilt) :
    FirstIndex (cbmCheckRule cbm) (cbmFirstMatch cbm) := by
  rw [cbmFirstMatch]
  cases h : (List.finRange ilt.nrInsn).find? (cbmCheckRule cbm) with
  | none => exact .inr ⟨rfl, fun i => by simpa using List.find?_eq_none.mp h i (List.mem_finRange i)⟩
  | some i =>
    obtain ⟨hi, k, hk, hget, hbefore⟩ := List.find?_eq_some_iff_getElem.mp h
    simp only [List.getElem_finRange] at hget
    refine .inl ⟨i, rfl, hi, fun j hj => ?_⟩
    have hjk : j.val < k := by
      have hval := congrArg Fin.val hget
      simp only [Fin.val_cast] at hval
      rw [hval]
      exact hj
    simpa using hbefore j.val hjk

/-- What the compiled table promises: every word has its index inside the cross
product and reads there the first rule that accepts it. -/
def IltCorrect (ilt : InsnTable Insn) : Prop :=
  ∃ t, iltCompile ilt = some t ∧ ∀ insn : BitVec 32, ∃ id : Nat,
    iltGetIndex t.hi t.lo (insn >>> 16).toNat (insn &&& 0xFFFF).toNat = some (id : Int) ∧
    id < t.cross.nrElements ∧
    ∃ r, iltLookup t insn = some r ∧ FirstIndex (insnMatches ilt insn) r

theorem cbmOf_valueCbm {pcheck : Insn → Nat → Bool} {rfct : RfcArray ilt} {v : Nat}
    (h : Filled rfct rfcArrayMaxsize (valueCbm ilt pcheck)) (hv : v < rfcArrayMaxsize) :
    ∃ id : Nat, rfct.eqID[v]? = some (id : Int) ∧ id < rfct.nrEqid ∧
      rfct.cbmOf id = valueCbm ilt pcheck v := by
  obtain ⟨id, hentry, hid⟩ := h.entry v hv
  exact ⟨id, hentry, Numbering.idOf_lt hid, by simp [RfcArray.cbmOf, Numbering.keyAt_idOf hid]⟩

theorem cbmCheckRule_cross (hi lo : Nat) (i : Fin ilt.nrInsn) :
    cbmCheckRule (cbmBitwiseAnd (valueCbm ilt ilt.chkHi hi) (valueCbm ilt ilt.chkLo lo)) i =
      (ilt.chkHi (ilt.getInsn i) hi && ilt.chkLo (ilt.getInsn i) lo) := by
  simp [cbmCheckRule_eq, cbmBit_cbmBitwiseAnd, cbmBit_valueCbm, ruleBit]

theorem insn_hi_lt (insn : BitVec 32) : (insn >>> 16).toNat < rfcArrayMaxsize := by
  have h := insn.isLt
  simp only [rfcArrayMaxsize, BitVec.toNat_ushiftRight, Nat.shiftRight_eq_div_pow]
  omega

theorem insn_lo_lt (insn : BitVec 32) : (insn &&& 0xFFFF).toNat < rfcArrayMaxsize := by
  have hle : (insn &&& 0xFFFF).toNat ≤ 0xFFFF := by
    rw [BitVec.toNat_and]
    exact Nat.and_le_right
  simp only [rfcArrayMaxsize]
  omega

theorem iltCorrect_of_fits
    (h : classCount ilt ilt.chkHi * classCount ilt ilt.chkLo * 4 + 40 < 2 ^ 31) :
    IltCorrect ilt := by
  obtain ⟨hi, hhi, hfhi, -⟩ := @rfcPhase0_spec _ ilt ilt.chkHi
  obtain ⟨lo, hlo, hflo, -⟩ := @rfcPhase0_spec _ ilt ilt.chkLo
  rw [← classCount_eq hfhi, ← classCount_eq hflo] at h
  obtain ⟨cross, hcross, hfcross, hnr, hsize⟩ := rfcPhaseJ_spec h
  obtain ⟨post, hpost, hnr', -, -, hentry⟩ := iltPostprocessing_spec hfcross hnr hsize
  refine ⟨⟨hi, lo, post⟩, bind_of_some hhi (bind_of_some hlo (bind_of_some hcross
    (bind_of_some hpost rfl))), fun insn => ?_⟩
  obtain ⟨i0, hi0, hlt0, hc0⟩ := cbmOf_valueCbm hfhi (insn_hi_lt insn)
  obtain ⟨i1, hi1, hlt1, hc1⟩ := cbmOf_valueCbm hflo (insn_lo_lt insn)
  have hlt := cross_index_lt hlt0 hlt1
  have hindex : iltGetIndex hi lo (insn >>> 16).toNat (insn &&& 0xFFFF).toNat =
      some ((i0 * lo.nrEqid + i1 : Nat) : Int) :=
    bind_of_some hi0 (bind_of_some hi1 (by push_cast; rfl))
  have hlook : iltLookup ⟨hi, lo, post⟩ insn =
      some (cbmFirstMatch (crossCbm hi lo (i0 * lo.nrEqid + i1))) := by
    refine bind_of_some hindex ?_
    rw [if_neg (by omega), Int.toNat_natCast]
    exact hentry _ hlt
  have hrules : cbmCheckRule (crossCbm hi lo (i0 * lo.nrEqid + i1)) = insnMatches ilt insn := by
    rw [crossCbm_index hlt1, hc0, hc1]
    exact funext (cbmCheckRule_cross _ _)
  have hfirst := cbmFirstMatch_firstIndex (crossCbm hi lo (i0 * lo.nrEqid + i1))
  rw [hrules] at hfirst
  exact ⟨_, hindex, by rw [hnr']; exact hlt, _, hlook, hfirst⟩

theorem iltCompile_overflow
    (h : 2 ^ 31 ≤ classCount ilt ilt.chkHi * classCount ilt ilt.chkLo * 4 + 40) :
    iltCompile ilt = none := by
  obtain ⟨hi, hhi, hfhi, -⟩ := @rfcPhase0_spec _ ilt ilt.chkHi
  obtain ⟨lo, hlo, hflo, -⟩ := @rfcPhase0_spec _ ilt ilt.chkLo
  rw [← classCount_eq hfhi, ← classCount_eq hflo] at h
  exact bind_of_some hhi (bind_of_some hlo (bind_of_none (rfcPhaseJ_overflow h)))

/-- The compiler is right exactly when the size of the cross product, in bytes
with its header, is an `int`. -/
theorem iltCorrect_iff :
    IltCorrect ilt ↔ classCount ilt ilt.chkHi * classCount ilt ilt.chkLo * 4 + 40 < 2 ^ 31 := by
  constructor
  · intro ⟨t, ht, _⟩
    by_contra h
    rw [iltCompile_overflow (by omega)] at ht
    cases ht
  · exact iltCorrect_of_fits

/-- Fifteen rules test one bit each of the upper half word, fifteen of the lower. -/
def bitRules : InsnTable Nat where
  nrInsn := 30
  getInsn := Fin.val
  chkHi := fun insn value => decide (insn < 15) && value.testBit insn
  chkLo := fun insn value => decide (15 ≤ insn) && value.testBit (insn - 15)
  nrInsn_lt := by decide

theorem classCount_ge {pcheck : Insn → Nat → Bool} {n : Nat} (hn : n ≤ rfcArrayMaxsize)
    (h : ∀ v < n, ∀ w < n, (∀ i, pcheck (ilt.getInsn i) v = pcheck (ilt.getInsn i) w) → v = w) :
    n ≤ classCount ilt pcheck := by
  let rules (v : Nat) (i : Fin ilt.nrInsn) : Bool := pcheck (ilt.getInsn i) v
  have hinj : Set.InjOn rules (Finset.range n) := by
    intro v hv w hw hvw
    exact h v (Finset.mem_range.mp hv) w (Finset.mem_range.mp hw) (congrFun hvw)
  have hsub : (Finset.range n).image rules ⊆ (Finset.range rfcArrayMaxsize).image rules :=
    Finset.image_subset_image (Finset.range_subset_range.mpr hn)
  have hcard := Finset.card_le_card hsub
  rw [Finset.card_image_of_injOn hinj, Finset.card_range] at hcard
  exact hcard

theorem classCount_le {pcheck : Insn → Nat → Bool} {n : Nat}
    (h : ∀ v < rfcArrayMaxsize, ∃ w < n, ∀ i, pcheck (ilt.getInsn i) v = pcheck (ilt.getInsn i) w) :
    classCount ilt pcheck ≤ n := by
  let rules (v : Nat) (i : Fin ilt.nrInsn) : Bool := pcheck (ilt.getInsn i) v
  have hsub : (Finset.range rfcArrayMaxsize).image rules ⊆ (Finset.range n).image rules := by
    intro c hc
    obtain ⟨v, hv, rfl⟩ := Finset.mem_image.mp hc
    obtain ⟨w, hw, hvw⟩ := h v (Finset.mem_range.mp hv)
    exact Finset.mem_image.mpr ⟨w, Finset.mem_range.mpr hw, funext fun i => (hvw i).symm⟩
  have hcard := (Finset.card_le_card hsub).trans Finset.card_image_le
  rwa [Finset.card_range] at hcard

theorem eq_of_low_bits {n v w : Nat} (hv : v < 2 ^ n) (hw : w < 2 ^ n)
    (h : ∀ k < n, v.testBit k = w.testBit k) : v = w := by
  apply Nat.eq_of_testBit_eq
  intro k
  by_cases hk : k < n
  · exact h k hk
  · have hpow : 2 ^ n ≤ 2 ^ k := Nat.pow_le_pow_right (by omega) (by omega)
    rw [Nat.testBit_lt_two_pow (by omega), Nat.testBit_lt_two_pow (by omega)]

theorem classCount_bitRules :
    2 ^ 15 ≤ classCount bitRules bitRules.chkHi ∧ 2 ^ 15 ≤ classCount bitRules bitRules.chkLo := by
  constructor
  · apply classCount_ge (by simp [rfcArrayMaxsize])
    intro v hv w hw h
    apply eq_of_low_bits hv hw
    intro k hk
    simpa [bitRules, hk] using h ⟨k, by simp only [bitRules]; omega⟩
  · apply classCount_ge (by simp [rfcArrayMaxsize])
    intro v hv w hw h
    apply eq_of_low_bits hv hw
    intro k hk
    simpa [bitRules] using h ⟨k + 15, by simp only [bitRules]; omega⟩

theorem bitRules_not_correct : ¬ IltCorrect bitRules := by
  intro ⟨t, ht, _⟩
  obtain ⟨hhi, hlo⟩ := classCount_bitRules
  have hmul := Nat.mul_le_mul hhi hlo
  rw [iltCompile_overflow (by omega)] at ht
  cases ht

end Dynamips.Ilt
