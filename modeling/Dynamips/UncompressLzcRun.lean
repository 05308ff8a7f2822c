import Mathlib.Logic.Relation
import Dynamips.UncompressLzcDecode

/-! Whole runs of `uncompress_LZC`: it ends, it stays in bounds, and its output is that
of the decoder. -/
set_option autoImplicit false

namespace Dynamips.Nvram
open Function (update)
open Relation (ReflTransGen)
open Lzw

def LzcHeader (inData : List Byte) : Prop :=
  3 ≤ inData.length ∧ inData.getD 0 0 = 0x1F ∧ inData.getD 1 0 = 0x9D ∧
    9 ≤ (inData.getD 2 0 &&& 0x1F).toNat ∧ (inData.getD 2 0 &&& 0x1F).toNat ≤ 16

instance (inData : List Byte) : Decidable (LzcHeader inData) :=
  inferInstanceAs (Decidable (_ ∧ _ ∧ _ ∧ _ ∧ _))

def lzcConst (inData : List Byte) (outLen : Nat) : LzcConst :=
  ⟨inData, outLen, (inData.getD 2 0 &&& 0x1F).toNat, inData.getD 2 0 &&& 0x80 ≠ 0⟩

def lzcStart (uninit : LzcTables) (inData : List Byte) (outData : Nat → Byte) : LzcState :=
  ⟨{ uninit with
      parents := update uninit.parents 256 0
      suffixes := update uninit.suffixes 256 0 },
    3, 0, outData, 9, if inData.getD 2 0 &&& 0x80 ≠ 0 then 257 else 256, false, 0, 0⟩

def lzcView (inData : List Byte) : LzcView :=
  ⟨inData.drop 3, [], 0, 9, firstDict (inData.getD 2 0 &&& 0x80 ≠ 0), []⟩

variable {inData : List Byte} {outData : Nat → Byte} {outLen : Nat} {uninit : LzcTables}

theorem uncompressLZC_eq (h : LzcHeader inData) :
    uncompressLZC uninit inData outData outLen =
      (lzcRun (lzcConst inData outLen) (8 * inData.length + 1)
        (lzcStart uninit inData outData)).map fun r => (r.1, r.2.outData) := by
  obtain ⟨hlen, h0, h1, hmin, hmax⟩ := h
  rw [uncompressLZC, if_neg (by omega), if_neg (not_or.mpr ⟨not_not.mpr h0, not_not.mpr h1⟩)]
  simp only
  rw [if_neg (by omega)]
  simp only [lzcConst, lzcStart, ne_eq, decide_not, Bool.not_eq_eq_eq_not, Bool.not_true,
    decide_eq_false_iff_not]

theorem uncompressLZC_header (h : ¬LzcHeader inData) :
    ∃ e, e ≠ 0 ∧ uncompressLZC uninit inData outData outLen = some (e, outData) := by
  rw [uncompressLZC]
  split
  · exact ⟨einval, by decide, rfl⟩
  · rename_i hlen
    split
    · exact ⟨enotsup, by decide, rfl⟩
    · rename_i hmagic
      rw [not_or, ne_eq, ne_eq, not_not, not_not] at hmagic
      simp only
      rw [if_pos]
      · exact ⟨enotsup, by decide, rfl⟩
      · by_contra hbits
        exact h ⟨by omega, hmagic.1, hmagic.2, by omega, by omega⟩

theorem decodeLzc_eq (h : LzcHeader inData) : decodeLzc inData =
    LzcView.run (lzcConst inData outLen).maxbits (lzcConst inData outLen).blockMode
      (8 * inData.length + 1) (lzcView inData) := by
  obtain ⟨hlen, h0, h1, hmin, hmax⟩ := h
  rw [decodeLzc]
  refine (if_neg ?_).trans rfl
  rintro (hc | hc | hc | hc | hc)
  · omega
  · exact hc h0
  · exact hc h1
  · omega
  · omega

theorem decodeLzc_header (h : ¬LzcHeader inData) : decodeLzc inData = none := by
  rw [decodeLzc]
  refine if_pos ?_
  by_contra hc
  simp only [not_or, not_lt, ne_eq, not_not] at hc
  exact h ⟨hc.1, hc.2.1, hc.2.2.1, hc.2.2.2.1, by omega⟩

theorem numItems_ge (h : LzcHeader inData) : 512 ≤ (lzcConst inData outLen).numItems := by
  calc 512 = 2 ^ 9 := rfl
    _ ≤ (lzcConst inData outLen).numItems := Nat.pow_le_pow_right (by omega) h.2.2.2.1

theorem start_rep (h : LzcHeader inData) :
    Rep (lzcConst inData outLen) outData (lzcStart uninit inData outData) (lzcView inData) where
  cursor :=
    { widthMin := Nat.le_refl _
      widthMax := h.2.2.2.1
      maxbits := h.2.2.2.2
      numBits := rfl
      inPos := h.1
      rest := rfl
      bitPos := rfl
      numBufBits := rfl
      within := Nat.le_refl _
      chunk := Nat.zero_le _
      buf := fun k hk => absurd hk (Nat.not_lt_zero k) }
  dict := by
    have hfirst := @firstDict_rep (lzcConst inData outLen) (lzcStart uninit inData outData).tables
      (numItems_ge h) _ rfl fun _ => by simp [lzcStart]
    simp only [lzcConst, decide_eq_true_eq] at hfirst
    exact hfirst
  out :=
    { outPos_eq := by simp [lzcStart, lzcView]
      data := fun j => rfl }

theorem start_run (h : LzcHeader inData) :
    ∃ e s', lzcRun (lzcConst inData outLen) (8 * inData.length + 1)
        (lzcStart uninit inData outData) = some (e, s') ∧
      match LzcView.run (lzcConst inData outLen).maxbits (lzcConst inData outLen).blockMode
        (8 * inData.length + 1) (lzcView inData) with
      | some out => e = 0 ∧ OutRep (lzcConst inData outLen) outData s'.outPos s'.outData out
      | none => e = -1 :=
  run_rep (numItems_ge h) (start_rep h) (by
    simp only [LzcView.left, lzcView, List.length_drop, List.length_nil]
    omega)

theorem uncompressLZC_decode (uninit : LzcTables) (inData : List Byte) (outData : Nat → Byte)
    (outLen : Nat) :
    ∃ e out, uncompressLZC uninit inData outData outLen = some (e, out) ∧
      match decodeLzc inData with
      | some bytes => e = 0 ∧
        ∀ j, out j = if j < outLen ∧ j < bytes.length then bytes.getD j 0 else outData j
      | none => e ≠ 0 := by
  by_cases h : LzcHeader inData
  · obtain ⟨e, s', hrun, hout⟩ := @start_run inData outData outLen uninit h
    rw [uncompressLZC_eq h, hrun, @decodeLzc_eq inData outLen h]
    refine ⟨e, s'.outData, rfl, ?_⟩
    split
    · rename_i bytes hbytes
      rw [hbytes] at hout
      refine ⟨hout.1, fun j => (hout.2.data j).trans ?_⟩
      have hpos := hout.2.outPos_eq
      simp only [lzcConst] at hpos
      rw [hpos]
      simp only [lt_min_iff]
    · rename_i hnone
      rw [hnone] at hout
      rw [hout]
      decide
  · obtain ⟨e, he, hrun⟩ := @uncompressLZC_header inData outData outLen uninit h
    rw [decodeLzc_header h]
    exact ⟨e, outData, hrun, he⟩

def lzcWritten (uninit : LzcTables) (inData : List Byte) (outData : Nat → Byte) (outLen : Nat) :
    Option Nat :=
  (lzcRun (lzcConst inData outLen) (8 * inData.length + 1) (lzcStart uninit inData outData)).map
    fun r => r.2.outPos

theorem lzcWritten_eq {bytes : List Byte} (hdecode : decodeLzc inData = some bytes) :
    lzcWritten uninit inData outData outLen = some (min outLen bytes.length) := by
  have h : LzcHeader inData := by
    by_contra hc
    rw [decodeLzc_header hc] at hdecode
    cases hdecode
  obtain ⟨e, s', hrun, hout⟩ := @start_run inData outData outLen uninit h
  rw [@decodeLzc_eq inData outLen h] at hdecode
  rw [hdecode] at hout
  rw [lzcWritten, hrun]
  exact congrArg some hout.2.outPos_eq

/-! The bounds. -/

def LzcNext (c : LzcConst) (s s' : LzcState) : Prop := lzcTurn c s = some (.next s')

theorem reachable_rep {c : LzcConst} {heap : Nat → Byte} {s s' : LzcState} {v : LzcView}
    (hitems : 512 ≤ c.numItems) (h : Rep c heap s v) (hreach : ReflTransGen (LzcNext c) s s') :
    ∃ v', Rep c heap s' v' := by
  induction hreach with
  | refl => exact ⟨v, h⟩
  | tail _ hnext ih =>
    obtain ⟨v', hv'⟩ := ih
    obtain ⟨r, hturn, hr⟩ := turn_rep hitems hv'
    rw [LzcNext, hturn] at hnext
    cases hnext
    generalize v'.turn c.maxbits c.blockMode = turn at hr
    cases hr with
    | next hrep => exact ⟨_, hrep⟩

def LzcFollows (t : LzcTables) (code parent : Nat) : Prop :=
  256 ≤ code ∧ parent = (t.parents code).toNat

/-- The accesses of a turn that `lzcTurn` does not check. -/
structure LzcInBounds (c : LzcConst) (s : LzcState) : Prop where
  suffixes : s.needPrev = true → 1 ≤ s.head ∧ s.head - 1 < c.numItems
  stack : ∀ symbol t i cur, lzcChain c c.numItems s.tables symbol 0 = some (t, i, cur) →
    1 ≤ i ∧ i ≤ c.numItems
  outData : s.outPos ≤ c.outLen
  parents : ∀ symbol < s.head, ∀ code, ReflTransGen (LzcFollows s.tables) symbol code →
    256 ≤ code → code < c.numItems ∧ (s.tables.parents code).toNat < code

theorem lzcChain_depth_leaf {c : LzcConst} {fuel i i' code cur : Nat} {t t' : LzcTables}
    (hcode : code < 256) (h : lzcChain c fuel t code i = some (t', i', cur)) :
    i < i' ∧ i' ≤ c.numItems := by
  rw [lzcChain_leaf hcode] at h
  split at h
  · cases h
    omega
  · cases h

theorem lzcChain_depth {c : LzcConst} {fuel i i' code cur : Nat} {t t' : LzcTables}
    (h : lzcChain c fuel t code i = some (t', i', cur)) : i < i' ∧ i' ≤ c.numItems := by
  by_cases hcode : code < 256
  · exact lzcChain_depth_leaf hcode h
  · induction fuel generalizing i t code with
    | zero =>
      simp [lzcChain, hcode] at h
    | succ fuel ih =>
      rw [lzcChain_node (by omega)] at h
      split at h
      · by_cases hparent : (t.parents code).toNat < 256
        · have := lzcChain_depth_leaf hparent h
          omega
        · have := ih h hparent
          omega
      · cases h

theorem rep_inBounds {c : LzcConst} {heap : Nat → Byte} {s : LzcState} {v : LzcView}
    (h : Rep c heap s v) : LzcInBounds c s where
  suffixes := by
    intro hneed
    have hle := h.dict.head_le
    have hbase := h.dict.entries_le
    omega
  stack := by
    intro symbol t i cur hchain
    have hdepth := lzcChain_depth hchain
    omega
  outData := by
    have hpos := h.out.outPos_eq
    omega
  parents := by
    intro symbol hlt code hwalk hcode
    have hhead : code < s.head := by
      induction hwalk with
      | refl => exact hlt
      | tail _ hstep ih =>
        obtain ⟨hbig, rfl⟩ := hstep
        have hless := h.dict.parents _ hbig (ih hbig)
        have := ih hbig
        omega
    have hle := h.dict.head_le
    exact ⟨by omega, h.dict.parents code hcode hhead⟩

/-- Any input ends, and no turn of it leaves the tables, the input or the output. -/
theorem uncompressLZC_inBounds (uninit : LzcTables) (inData : List Byte) (outData : Nat → Byte)
    (outLen : Nat) :
    (uncompressLZC uninit inData outData outLen).isSome ∧
      (LzcHeader inData → 256 < (lzcConst inData outLen).numItems ∧
        ∀ s, ReflTransGen (LzcNext (lzcConst inData outLen)) (lzcStart uninit inData outData) s →
          (lzcTurn (lzcConst inData outLen) s).isSome ∧ LzcInBounds (lzcConst inData outLen) s) := by
  constructor
  · obtain ⟨e, out, hrun, -⟩ := uncompressLZC_decode uninit inData outData outLen
    rw [hrun]
    rfl
  · intro h
    have hitems := @numItems_ge inData outLen h
    refine ⟨by omega, fun s hreach => ?_⟩
    obtain ⟨v, hv⟩ := reachable_rep hitems (start_rep h) hreach
    obtain ⟨r, hturn, -⟩ := turn_rep hitems hv
    exact ⟨by rw [hturn]; rfl, rep_inBounds hv⟩

end Dynamips.Nvram
