import Dynamips.InsnLookupCache
set_option autoImplicit false

namespace Dynamips.Ilt
open Loop

theorem asInt_eq_some_iff {n r : Int} : asInt n = some r ↔ IsInt n ∧ n = r := by
  simp [asInt]

theorem lookup_eq_some_iff {ilt : IltData} {a1 a2 a3 : RfcData} {insn : BitVec 32} {r : Int}
    (h1 : ilt.rfct[0] = some a1) (h2 : ilt.rfct[1] = some a2) (h3 : ilt.rfct[2] = some a3) :
    ilt.lookup insn = some r ↔
      ∃ e1 e2, a1.eqID[(insn >>> 16).toNat]? = some e1 ∧
        a2.eqID[(insn &&& 0xFFFF).toNat]? = some e2 ∧
        IsInt (e1 * a2.nrEqid) ∧ IsInt (e1 * a2.nrEqid + e2) ∧
        0 ≤ e1 * a2.nrEqid + e2 ∧ a3.eqID[(e1 * a2.nrEqid + e2).toNat]? = some r := by
  have hidx : ilt.getIdx 0 1 (insn >>> 16).toNat (insn &&& 0xFFFF).toNat =
      a1.getIndex a2 (insn >>> 16).toNat (insn &&& 0xFFFF).toNat := by
    simp [IltData.getIdx, h1, h2]
  simp only [IltData.lookup, hidx, h3, RfcData.getIndex, Option.bind_eq_bind,
    Option.bind_eq_some_iff, asInt_eq_some_iff, Option.bind_some]
  constructor
  · rintro ⟨_, ⟨e1, he1, _, ⟨hbase, rfl⟩, e2, he2, hid, rfl⟩, h⟩
    split at h
    · cases h
    · exact ⟨e1, e2, he1, he2, hbase, hid, by omega, h⟩
  · rintro ⟨e1, e2, he1, he2, hbase, hid, hpos, h⟩
    exact ⟨_, ⟨e1, he1, _, ⟨hbase, rfl⟩, e2, he2, hid, rfl⟩, by rwa [if_neg (by omega)]⟩

theorem exists_insn {i j : Nat} (hi : i < rfcArrayMaxsize) (hj : j < rfcArrayMaxsize) :
    ∃ insn : BitVec 32, (insn >>> 16).toNat = i ∧ (insn &&& 0xFFFF).toNat = j := by
  simp only [rfcArrayMaxsize] at hi hj
  have hval : (BitVec.ofNat 32 (i * 65536 + j)).toNat = i * 65536 + j := by
    rw [BitVec.toNat_ofNat]
    omega
  refine ⟨BitVec.ofNat 32 (i * 65536 + j), ?_, ?_⟩
  · rw [BitVec.toNat_ushiftRight, hval, Nat.shiftRight_eq_div_pow]
    omega
  · rw [BitVec.toNat_and, hval, show (0xFFFF : BitVec 32).toNat = 2 ^ 16 - 1 from rfl,
      Nat.and_two_pow_sub_one_eq_mod]
    omega

/-- An entry of the last array that `ilt_lookup` may give. -/
def IltFile.Rule (f : IltFile) (r : BitVec 32) : Prop :=
  r.toInt = -1 ∨ 0 ≤ r.toInt ∧ r.toInt < f.nrInsn.toInt

/-- The classes `x` and `y` lead to an entry of the last array. -/
def RfcFrame.Leads (cross lo : RfcFrame) (x y : BitVec 32) (P : BitVec 32 → Prop) : Prop :=
  IsInt (x.toInt * lo.nrEqid.toInt) ∧ 0 ≤ x.toInt * lo.nrEqid.toInt + y.toInt ∧
    ∃ r, cross.eqID[(x.toInt * lo.nrEqid.toInt + y.toInt).toNat]? = some r ∧ P r

/-- The arrays of the half words are full, and each pair of their classes leads
to a rule or to -1. -/
structure IltFile.Linked (f : IltFile) (hi lo cross : RfcFrame) : Prop where
  hi_full : hi.nrElements.toNat = rfcArrayMaxsize
  lo_full : lo.nrElements.toNat = rfcArrayMaxsize
  leads : ∀ x ∈ hi.eqID, ∀ y ∈ lo.eqID, cross.Leads lo x y f.Rule

def IltFile.Checked (f : IltFile) : Prop :=
  ∀ hi ∈ f.frames, ∀ lo ∈ f.frames, ∀ cross ∈ f.frames,
    hi.id.toNat = 0 → lo.id.toNat = 1 → cross.id.toNat = 2 → f.Linked hi lo cross

/-- Every lookup in a table loaded from this file stays inside its arrays and
gives -1 or the index of an instruction. -/
def LookupsInside (order : ByteOrder) (fd : List Byte) : Prop :=
  ∀ ilt, iltLoadTable order fd = some ilt → ∀ insn : BitVec 32,
    ∃ r, ilt.lookup insn = some r ∧ (r = -1 ∨ 0 ≤ r ∧ r < ilt.nrInsn)

theorem getElem?_data (frame : RfcFrame) (i : Nat) :
    frame.data.eqID[i]? = frame.eqID[i]?.map BitVec.toInt := by
  simp [RfcFrame.data]

theorem IltFile.nrInsn_data (f : IltFile) : f.data.nrInsn = f.nrInsn.toInt := load_header _ _

section Frames

variable {f : IltFile} {hi lo cross : RfcFrame}

theorem lookup_data_iff (hacc : f.Accepted) (hhi : hi ∈ f.frames) (hlo : lo ∈ f.frames)
    (hcross : cross ∈ f.frames) (hhi0 : hi.id.toNat = 0) (hlo1 : lo.id.toNat = 1)
    (hcross2 : cross.id.toNat = 2) {insn : BitVec 32} {r : Int} :
    f.data.lookup insn = some r ↔
      ∃ x y, hi.eqID[(insn >>> 16).toNat]? = some x ∧
        lo.eqID[(insn &&& 0xFFFF).toNat]? = some y ∧
        IsInt (x.toInt * lo.nrEqid.toInt + y.toInt) ∧ cross.Leads lo x y fun e => e.toInt = r := by
  have h1 := hacc.rfct_eq hhi
  have h2 := hacc.rfct_eq hlo
  have h3 := hacc.rfct_eq hcross
  rw [hhi0, Vector.getElem?_eq_getElem (by decide), Option.some.injEq] at h1
  rw [hlo1, Vector.getElem?_eq_getElem (by decide), Option.some.injEq] at h2
  rw [hcross2, Vector.getElem?_eq_getElem (by decide), Option.some.injEq] at h3
  rw [lookup_eq_some_iff h1 h2 h3]
  simp only [getElem?_data, Option.map_eq_some_iff, RfcFrame.Leads]
  constructor
  · rintro ⟨_, _, ⟨x, hx, rfl⟩, ⟨y, hy, rfl⟩, hbase, hid, hpos, e, he, rfl⟩
    exact ⟨x, y, hx, hy, hid, hbase, hpos, e, he, rfl⟩
  · rintro ⟨x, y, hx, hy, hid, hbase, hpos, e, he, rfl⟩
    exact ⟨_, _, ⟨x, hx, rfl⟩, ⟨y, hy, rfl⟩, hbase, hid, hpos, e, he, rfl⟩

theorem linked_iff (hacc : f.Accepted) (hhi : hi ∈ f.frames) (hlo : lo ∈ f.frames)
    (hcross : cross ∈ f.frames) (hhi0 : hi.id.toNat = 0) (hlo1 : lo.id.toNat = 1)
    (hcross2 : cross.id.toNat = 2) :
    (∀ insn : BitVec 32, ∃ r, f.data.lookup insn = some r ∧
      (r = -1 ∨ 0 ≤ r ∧ r < f.nrInsn.toInt)) ↔ f.Linked hi lo cross := by
  have hlenHi := (hacc.frames_accepted hi hhi).length_eq
  have hlenLo := (hacc.frames_accepted lo hlo).length_eq
  have hmaxHi := (hacc.frames_accepted hi hhi).nrElements_le
  have hmaxLo := (hacc.frames_accepted lo hlo).nrElements_le
  have hlenCross := (hacc.frames_accepted cross hcross).length_eq
  have hmaxCross := (hacc.frames_accepted cross hcross).nrElements_le
  simp only [lookup_data_iff hacc hhi hlo hcross hhi0 hlo1 hcross2]
  constructor
  · intro h
    have hread : ∀ i < rfcArrayMaxsize, ∀ j < rfcArrayMaxsize,
        ∃ x y, hi.eqID[i]? = some x ∧ lo.eqID[j]? = some y ∧ cross.Leads lo x y f.Rule := by
      intro i hi' j hj'
      obtain ⟨insn, rfl, rfl⟩ := exists_insn hi' hj'
      obtain ⟨r, ⟨x, y, hx, hy, -, hbase, hpos, e, he, rfl⟩, hr⟩ := h insn
      exact ⟨x, y, hx, hy, hbase, hpos, e, he, hr⟩
    have hlast := hread (rfcArrayMaxsize - 1) (by decide) (rfcArrayMaxsize - 1) (by decide)
    obtain ⟨x, y, hx, hy, -⟩ := hlast
    have hltHi := (List.getElem?_eq_some_iff.mp hx).1
    have hltLo := (List.getElem?_eq_some_iff.mp hy).1
    refine ⟨by omega, by omega, fun x hx y hy => ?_⟩
    obtain ⟨i, hi', rfl⟩ := List.mem_iff_getElem.mp hx
    obtain ⟨j, hj', rfl⟩ := List.mem_iff_getElem.mp hy
    obtain ⟨x, y, hx, hy, hleads⟩ := hread i (by omega) j (by omega)
    rw [List.getElem?_eq_getElem hi', Option.some.injEq] at hx
    rw [List.getElem?_eq_getElem hj', Option.some.injEq] at hy
    rw [hx, hy]
    exact hleads
  · intro h insn
    have hltHi : (insn >>> 16).toNat < hi.eqID.length := by
      rw [hlenHi, h.hi_full]
      exact insn_hi_lt insn
    have hltLo : (insn &&& 0xFFFF).toNat < lo.eqID.length := by
      rw [hlenLo, h.lo_full]
      exact insn_lo_lt insn
    obtain ⟨hbase, hpos, e, he, hrule⟩ :=
      h.leads _ (List.getElem_mem hltHi) _ (List.getElem_mem hltLo)
    have hindex := (List.getElem?_eq_some_iff.mp he).1
    have hid : IsInt (hi.eqID[(insn >>> 16).toNat].toInt * lo.nrEqid.toInt +
        lo.eqID[(insn &&& 0xFFFF).toNat].toInt) := by
      simp only [rfcArrayMaxsize] at hmaxCross
      constructor <;> omega
    exact ⟨e.toInt, ⟨_, _, List.getElem?_eq_getElem hltHi, List.getElem?_eq_getElem hltLo, hid,
      hbase, hpos, e, he, rfl⟩, hrule⟩

end Frames

theorem IltFile.Accepted.exists_frames {f : IltFile} (h : f.Accepted) :
    ∃ hi ∈ f.frames, ∃ lo ∈ f.frames, ∃ cross ∈ f.frames,
      hi.id.toNat = 0 ∧ lo.id.toNat = 1 ∧ cross.id.toNat = 2 := by
  obtain ⟨hi, hhi, hhi0⟩ := h.all_loaded 0 (by decide)
  obtain ⟨lo, hlo, hlo1⟩ := h.all_loaded 1 (by decide)
  obtain ⟨cross, hcross, hcross2⟩ := h.all_loaded 2 (by decide)
  exact ⟨hi, hhi, lo, hlo, cross, hcross, hhi0, hlo1, hcross2⟩

theorem lookupsInside_iff_checked {order : ByteOrder} {fd : List Byte} :
    LookupsInside order fd ↔
      ∀ (f : IltFile) (rest : List Byte), fd = f.bytes order ++ rest → f.Accepted → f.Checked := by
  simp only [LookupsInside, iltLoadTable_eq_some_iff]
  constructor
  · intro h f rest hfd hacc hi hhi lo hlo cross hcross hhi0 hlo1 hcross2
    apply (linked_iff hacc hhi hlo hcross hhi0 hlo1 hcross2).mp
    rw [← f.nrInsn_data]
    exact h f.data ⟨f, rest, hfd, hacc, rfl⟩
  · rintro h _ ⟨f, rest, hfd, hacc, rfl⟩
    obtain ⟨hi, hhi, lo, hlo, cross, hcross, hhi0, hlo1, hcross2⟩ := hacc.exists_frames
    rw [f.nrInsn_data]
    apply (linked_iff hacc hhi hlo hcross hhi0 hlo1 hcross2).mpr
    exact h f rest hfd hacc hi hhi lo hlo cross hcross hhi0 hlo1 hcross2

/-- The array as `ilt_store_rfct` writes it. -/
def RfcData.frame (rfct : RfcData) (id : Nat) : RfcFrame :=
  { id := BitVec.ofNat 32 id
    nrElements := BitVec.ofNat 32 rfct.nrElements
    nrEqid := BitVec.ofInt 32 rfct.nrEqid
    eqID := (rfct.eqID.toList.take rfct.nrElements).map (BitVec.ofInt 32) }

/-- An array whose members are all `int`s. -/
structure RfcData.Storable (rfct : RfcData) : Prop where
  size_eq : rfct.eqID.size = rfct.nrElements
  nrElements_lt : rfct.nrElements < 2 ^ 31
  nrEqid_int : IsInt rfct.nrEqid
  eqID_int : ∀ e ∈ rfct.eqID, IsInt e

theorem toInt_ofInt {n : Int} (h : IsInt n) : (BitVec.ofInt 32 n).toInt = n := by
  obtain ⟨hlo, hhi⟩ := h
  rw [BitVec.toInt_ofInt]
  exact Int.bmod_eq_of_le (by omega) (by omega)

namespace RfcData.Storable

variable {rfct : RfcData}

theorem iltStoreRfct_eq (h : rfct.Storable) (order : ByteOrder) (fd : List Byte) (id : Nat) :
    iltStoreRfct order fd id rfct = some (fd ++ (rfct.frame id).bytes order) := by
  rw [iltStoreRfct, if_pos h.size_eq.ge]
  simp [RfcData.frame, RfcFrame.bytes, List.flatMap_map, -List.map_take]

theorem nrElements_frame (h : rfct.Storable) (id : Nat) :
    (rfct.frame id).nrElements.toNat = rfct.nrElements := by
  have hlt := h.nrElements_lt
  simp only [RfcData.frame, BitVec.toNat_ofNat]
  omega

theorem length_frame (h : rfct.Storable) (id : Nat) :
    (rfct.frame id).eqID.length = (rfct.frame id).nrElements.toNat := by
  rw [h.nrElements_frame]
  simp [RfcData.frame, h.size_eq]

theorem data_frame (h : rfct.Storable) (id : Nat) : (rfct.frame id).data = rfct := by
  obtain ⟨nrElements, nrEqid, eqID⟩ := rfct
  have hsize : eqID.size = nrElements := h.size_eq
  have hids : (eqID.toList.take nrElements).map (BitVec.toInt ∘ BitVec.ofInt 32) = eqID.toList := by
    rw [List.take_of_length_le (by simp only [Array.length_toList]; omega)]
    conv_rhs => rw [← List.map_id eqID.toList]
    exact List.map_congr_left fun e he => toInt_ofInt (h.eqID_int e (by simpa using he))
  rw [RfcFrame.data, h.nrElements_frame]
  simp only [RfcData.frame, toInt_ofInt h.nrEqid_int, List.map_map, hids, Array.toArray_toList]

end RfcData.Storable

theorem RfcFrame.bytes_inj {order : ByteOrder} {a b : RfcFrame} {fd fd' : List Byte}
    (ha : a.eqID.length = a.nrElements.toNat) (hb : b.eqID.length = b.nrElements.toNat)
    (h : a.bytes order ++ fd = b.bytes order ++ fd') : a = b ∧ fd = fd' := by
  simp only [RfcFrame.bytes, List.append_assoc] at h
  obtain ⟨hid, h⟩ := ByteOrder.wordBytes_append_inj h
  obtain ⟨hnr, h⟩ := ByteOrder.wordBytes_append_inj h
  obtain ⟨heq, h⟩ := ByteOrder.wordBytes_append_inj h
  obtain ⟨hids, h⟩ := ByteOrder.flatMap_wordBytes_inj (by rw [ha, hb, hnr]) h
  cases a
  cases b
  simp_all

theorem frames_inj {order : ByteOrder} {as bs : List RfcFrame} {fd fd' : List Byte}
    (hlen : as.length = bs.length) (ha : ∀ a ∈ as, a.eqID.length = a.nrElements.toNat)
    (hb : ∀ b ∈ bs, b.eqID.length = b.nrElements.toNat)
    (h : as.flatMap (·.bytes order) ++ fd = bs.flatMap (·.bytes order) ++ fd') : as = bs := by
  induction as generalizing bs with
  | nil => exact (List.length_eq_zero_iff.mp hlen.symm).symm
  | cons a as ih =>
    cases bs with
    | nil => simp at hlen
    | cons b bs =>
      simp only [List.flatMap_cons, List.append_assoc] at h
      obtain ⟨hab, h⟩ := RfcFrame.bytes_inj (ha a (by simp)) (hb b (by simp)) h
      rw [hab, ih (by simpa using hlen) (fun g hg => ha g (by simp [hg]))
        (fun g hg => hb g (by simp [hg])) h]

section Compiled

variable {Insn : Type} {ilt : InsnTable Insn}

def InsnLookup.file (t : InsnLookup ilt) (crc32Insn : BitVec 32) : IltFile :=
  { crc32Insn := crc32Insn
    nrInsn := BitVec.ofInt 32 ilt.nrInsn
    cbmSize := BitVec.ofInt 32 ilt.cbmSize
    frames := [t.hi.data.frame 0, t.lo.data.frame 1, t.cross.data.frame 2] }

structure InsnLookup.Built (t : InsnLookup ilt) : Prop where
  hi_storable : t.hi.data.Storable
  lo_storable : t.lo.data.Storable
  cross_storable : t.cross.data.Storable
  hi_full : t.hi.nrElements = rfcArrayMaxsize
  lo_full : t.lo.nrElements = rfcArrayMaxsize
  cross_eq : t.cross.nrElements = classCount ilt ilt.chkHi * classCount ilt ilt.chkLo
  hi_nonneg : ∀ e ∈ t.hi.eqID, 0 ≤ e
  lo_nonneg : ∀ e ∈ t.lo.eqID, 0 ≤ e

theorem cbmFirstMatch_bounds (cbm : Cbm ilt) :
    -1 ≤ cbmFirstMatch cbm ∧ cbmFirstMatch cbm < ilt.nrInsn := by
  rcases cbmFirstMatch_firstIndex cbm with ⟨i, hi, -⟩ | ⟨hi, -⟩
  · have hlt := i.isLt
    omega
  · omega

theorem Filled.eqID_bounds {rfct : RfcArray ilt} {n : Nat} {g : Nat → Cbm ilt}
    (h : Filled rfct n g) (hsize : rfct.eqID.size = n) :
    ∀ e ∈ rfct.eqID, 0 ≤ e ∧ e < rfct.nrEqid := by
  intro e he
  obtain ⟨i, hi, rfl⟩ := Array.mem_iff_getElem.mp he
  obtain ⟨id, hid, hclass⟩ := h.entry i (by omega)
  rw [Array.getElem?_eq_getElem hi, Option.some.injEq] at hid
  have hlt := Numbering.idOf_lt hclass
  rw [hid]
  exact ⟨by omega, by simp only [RfcArray.nrEqid]; omega⟩

theorem Filled.storable {rfct : RfcArray ilt} {n : Nat} {g : Nat → Cbm ilt}
    (h : Filled rfct n g) (hnr : rfct.nrElements = n) (hsize : rfct.eqID.size = n)
    (hn : n < 2 ^ 31) : rfct.data.Storable where
  size_eq := hsize.trans hnr.symm
  nrElements_lt := by rw [RfcArray.data, hnr]; exact hn
  nrEqid_int := by
    have hle := h.count_le
    constructor <;> simp only [RfcArray.data] <;> omega
  eqID_int := by
    intro e he
    have hle := h.count_le
    have hbound := h.eqID_bounds hsize e he
    constructor <;> omega

theorem storable_of_matches {rfct : RfcArray ilt} {n : Nat} {g : Nat → Cbm ilt}
    (hnr : rfct.nrElements = n) (hsize : rfct.eqID.size = n) (hcount : rfct.nrEqid ≤ n)
    (hn : n < 2 ^ 31) (hentry : ∀ i < n, rfct.eqID[i]? = some (cbmFirstMatch (g i))) :
    rfct.data.Storable where
  size_eq := hsize.trans hnr.symm
  nrElements_lt := by rw [RfcArray.data, hnr]; exact hn
  nrEqid_int := by constructor <;> simp only [RfcArray.data] <;> omega
  eqID_int := by
    intro e he
    obtain ⟨i, hi, rfl⟩ := Array.mem_iff_getElem.mp he
    change i < rfct.eqID.size at hi
    change IsInt rfct.eqID[i]
    have hget := hentry i (by omega)
    have hlt := ilt.nrInsn_lt
    have hbound := cbmFirstMatch_bounds (g i)
    rw [Array.getElem?_eq_getElem hi, Option.some.injEq] at hget
    rw [hget]
    constructor <;> omega

theorem iltCompile_built
    (h : classCount ilt ilt.chkHi * classCount ilt ilt.chkLo * 4 + 40 < 2 ^ 31) :
    ∃ t, iltCompile ilt = some t ∧ t.Built := by
  obtain ⟨hi, hhi, hfhi, hnrHi, hsizeHi⟩ := @rfcPhase0_spec _ ilt ilt.chkHi
  obtain ⟨lo, hlo, hflo, hnrLo, hsizeLo⟩ := @rfcPhase0_spec _ ilt ilt.chkLo
  rw [← classCount_eq hfhi, ← classCount_eq hflo] at h
  obtain ⟨cross, hcross, hfcross, hnr, hsize⟩ := rfcPhaseJ_spec h
  obtain ⟨post, hpost, hnr', hclasses, hsize', hentry⟩ := iltPostprocessing_spec hfcross hnr hsize
  have hcount : post.nrEqid ≤ hi.nrEqid * lo.nrEqid := by
    rw [RfcArray.nrEqid, hclasses]
    exact hfcross.count_le
  refine ⟨⟨hi, lo, post⟩, bind_of_some hhi (bind_of_some hlo (bind_of_some hcross
    (bind_of_some hpost rfl))), ?_⟩
  exact {
    hi_storable := hfhi.storable hnrHi hsizeHi (by decide)
    lo_storable := hflo.storable hnrLo hsizeLo (by decide)
    cross_storable := storable_of_matches hnr' hsize' hcount (by omega) hentry
    hi_full := hnrHi
    lo_full := hnrLo
    cross_eq := by rw [hnr', classCount_eq hfhi, classCount_eq hflo]
    hi_nonneg := fun e he => (hfhi.eqID_bounds hsizeHi e he).1
    lo_nonneg := fun e he => (hflo.eqID_bounds hsizeLo e he).1 }

namespace InsnLookup.Built

variable {t : InsnLookup ilt}

theorem iltStoreTable_eq (h : t.Built) (order : ByteOrder) (crc32Insn : BitVec 32) :
    iltStoreTable order (t.data crc32Insn) = some ((t.file crc32Insn).bytes order) := by
  simp [iltStoreTable, loopM, iltStoreTurn, InsnLookup.data, InsnLookup.file, IltFile.bytes,
    h.hi_storable.iltStoreRfct_eq, h.lo_storable.iltStoreRfct_eq, h.cross_storable.iltStoreRfct_eq]

theorem data_file (h : t.Built) (crc32Insn : BitVec 32) :
    (t.file crc32Insn).data = t.data crc32Insn := by
  have hnr := ilt.nrInsn_lt
  have hcbm := ilt.cbmSize_eq
  have hnrInsn : (BitVec.ofInt 32 ilt.nrInsn).toInt = ilt.nrInsn :=
    toInt_ofInt ⟨by omega, by omega⟩
  have hcbmSize : (BitVec.ofInt 32 ilt.cbmSize).toInt = ilt.cbmSize :=
    toInt_ofInt ⟨by omega, by omega⟩
  simp only [IltFile.data, InsnLookup.file, InsnLookup.data, List.foldl_cons, List.foldl_nil,
    RfcFrame.load, h.hi_storable.data_frame, h.lo_storable.data_frame,
    h.cross_storable.data_frame, hnrInsn, hcbmSize]
  rfl

theorem length_frames (h : t.Built) (crc32Insn : BitVec 32) :
    ∀ frame ∈ (t.file crc32Insn).frames, frame.eqID.length = frame.nrElements.toNat := by
  simp [InsnLookup.file, h.hi_storable.length_frame, h.lo_storable.length_frame,
    h.cross_storable.length_frame]

theorem accepted_iff (h : t.Built) (crc32Insn : BitVec 32) :
    (t.file crc32Insn).Accepted ↔
      classCount ilt ilt.chkHi * classCount ilt ilt.chkLo ≤ rfcArrayMaxsize := by
  have hcross : (t.cross.data.frame 2).nrElements.toNat =
      classCount ilt ilt.chkHi * classCount ilt ilt.chkLo :=
    (h.cross_storable.nrElements_frame 2).trans h.cross_eq
  constructor
  · intro hacc
    rw [← hcross]
    exact (hacc.frames_accepted _ (by simp [InsnLookup.file])).nrElements_le
  · intro hle
    refine ⟨rfl, fun frame hmem => ⟨?_, ?_, h.length_frames crc32Insn frame hmem⟩, ?_⟩
    · simp only [InsnLookup.file, List.mem_cons, List.not_mem_nil, or_false] at hmem
      rcases hmem with rfl | rfl | rfl <;> simp [RfcData.frame, rfcArrayNumber]
    · simp only [InsnLookup.file, List.mem_cons, List.not_mem_nil, or_false] at hmem
      rcases hmem with rfl | rfl | rfl
      · exact ((h.hi_storable.nrElements_frame 0).trans h.hi_full).le
      · exact ((h.lo_storable.nrElements_frame 1).trans h.lo_full).le
      · exact hcross.trans_le hle
    · intro i hi
      simp only [InsnLookup.file, List.mem_cons, List.not_mem_nil, or_false, exists_eq_or_imp,
        exists_eq_left, RfcData.frame, BitVec.toNat_ofNat]
      simp only [rfcArrayNumber] at hi
      omega

theorem iltLoadTable_stored (h : t.Built) (order : ByteOrder) (crc32Insn : BitVec 32) :
    iltLoadTable order ((t.file crc32Insn).bytes order) =
      if classCount ilt ilt.chkHi * classCount ilt ilt.chkLo ≤ rfcArrayMaxsize then
        some (t.data crc32Insn)
      else none := by
  split
  · rename_i hle
    rw [iltLoadTable_eq_some_iff]
    exact ⟨t.file crc32Insn, [], by simp, (h.accepted_iff crc32Insn).mpr hle,
      (h.data_file crc32Insn).symm⟩
  · rename_i hle
    rw [Option.eq_none_iff_forall_ne_some]
    intro ilt' hload
    obtain ⟨f, rest, hfd, hacc, -⟩ := iltLoadTable_eq_some_iff.mp hload
    rw [← List.append_nil ((t.file crc32Insn).bytes order)] at hfd
    simp only [IltFile.bytes, List.append_assoc] at hfd
    obtain ⟨hcrc, hfd⟩ := ByteOrder.wordBytes_append_inj hfd
    obtain ⟨hnr, hfd⟩ := ByteOrder.wordBytes_append_inj hfd
    obtain ⟨hcbm, hfd⟩ := ByteOrder.wordBytes_append_inj hfd
    have hframes := frames_inj (by rw [hacc.length_eq]; rfl) (h.length_frames crc32Insn)
      (fun b hb => (hacc.frames_accepted b hb).length_eq) hfd
    have hfile : t.file crc32Insn = f := by
      cases f
      simp only [InsnLookup.file] at hcrc hnr hcbm hframes
      simp only [InsnLookup.file, IltFile.mk.injEq]
      exact ⟨hcrc, hnr, hcbm, hframes⟩
    exact hle ((h.accepted_iff crc32Insn).mp (hfile ▸ hacc))

theorem lookup_data (h : t.Built) (crc32Insn : BitVec 32) {insn : BitVec 32} {id : Nat}
    (hindex : iltGetIndex t.hi t.lo (insn >>> 16).toNat (insn &&& 0xFFFF).toNat = some (id : Int))
    (hid : id < t.cross.nrElements) {r : Int} (hlook : iltLookup t insn = some r) :
    (t.data crc32Insn).lookup insn = some r := by
  have hlt : t.cross.nrElements < 2 ^ 31 := h.cross_storable.nrElements_lt
  simp only [iltLookup, hindex, Option.bind_eq_bind, Option.bind_some] at hlook
  rw [if_neg (by omega)] at hlook
  obtain ⟨e1, he1, hindex⟩ := Option.bind_eq_some_iff.mp hindex
  obtain ⟨e2, he2, hsum⟩ := Option.bind_eq_some_iff.mp hindex
  simp only [Option.some.injEq] at hsum
  have hpos1 := h.hi_nonneg e1 (Array.mem_of_getElem? he1)
  have hpos2 := h.lo_nonneg e2 (Array.mem_of_getElem? he2)
  have hbase : 0 ≤ e1 * (t.lo.nrEqid : Int) := Int.mul_nonneg hpos1 (by omega)
  rw [@lookup_eq_some_iff _ t.hi.data t.lo.data t.cross.data _ _ rfl rfl rfl]
  refine ⟨e1, e2, he1, he2, ?_, ?_, ?_, ?_⟩
  · change IsInt (e1 * (t.lo.nrEqid : Int))
    constructor <;> omega
  · change IsInt (e1 * (t.lo.nrEqid : Int) + e2)
    constructor <;> omega
  · change 0 ≤ e1 * (t.lo.nrEqid : Int) + e2
    omega
  · change t.cross.eqID[(e1 * (t.lo.nrEqid : Int) + e2).toNat]? = some r
    rw [hsum]
    exact hlook

end InsnLookup.Built

/-- Storing a compiled table and loading it gives a table with the same lookups. -/
def RoundTrips (order : ByteOrder) (crc32Insn : BitVec 32) (ilt : InsnTable Insn) : Prop :=
  ∀ t, iltCompile ilt = some t →
    ∃ fd t', iltStoreTable order (t.data crc32Insn) = some fd ∧ iltLoadTable order fd = some t' ∧
      ∀ insn : BitVec 32, t'.lookup insn = iltLookup t insn

theorem roundTrips_iff_cross {order : ByteOrder} {crc32Insn : BitVec 32} :
    RoundTrips order crc32Insn ilt ↔
      classCount ilt ilt.chkHi * classCount ilt ilt.chkLo ≤ rfcArrayMaxsize ∨
        2 ^ 31 ≤ classCount ilt ilt.chkHi * classCount ilt ilt.chkLo * 4 + 40 := by
  by_cases hfits : classCount ilt ilt.chkHi * classCount ilt ilt.chkLo * 4 + 40 < 2 ^ 31
  · obtain ⟨t, ht, hbuilt⟩ := iltCompile_built hfits
    have hstore := hbuilt.iltStoreTable_eq order crc32Insn
    have hload := hbuilt.iltLoadTable_stored order crc32Insn
    constructor
    · intro h
      obtain ⟨fd, t', hfd, hload', -⟩ := h t ht
      rw [hstore, Option.some.injEq] at hfd
      rw [← hfd, hload, Option.ite_none_right_eq_some] at hload'
      exact .inl hload'.1
    · rintro (hle | hle)
      · intro u hu
        rw [ht, Option.some.injEq] at hu
        subst hu
        rw [if_pos hle] at hload
        refine ⟨_, _, hstore, hload, fun insn => ?_⟩
        obtain ⟨u, hu, hcorrect⟩ := iltCorrect_of_fits hfits
        rw [ht, Option.some.injEq] at hu
        subst hu
        obtain ⟨id, hindex, hid, r, hlook, -⟩ := hcorrect insn
        rw [hlook]
        exact hbuilt.lookup_data crc32Insn hindex hid hlook
      · omega
  · refine ⟨fun _ => .inr (by omega), fun _ t ht => ?_⟩
    rw [iltCompile_overflow (by omega)] at ht
    cases ht

/-- A restart gives the same table, from the cache or built again, and leaves the
same cache. -/
theorem iltCreate_again {order : ByteOrder} {crc32Insn : BitVec 32}
    {t : IltData} {cache : Option (List Byte)}
    (h : iltCreate order crc32Insn ilt none = some (t, cache)) :
    iltCreate order crc32Insn ilt cache = some (t, cache) := by
  have hbuild : iltBuild order crc32Insn ilt = some (t, cache) := h
  have hrun := hbuild
  simp only [iltBuild, Option.bind_eq_bind, Option.bind_eq_some_iff, Option.some.injEq,
    Prod.mk.injEq] at hrun
  obtain ⟨u, hu, fd, hfd, rfl, rfl⟩ := hrun
  by_cases hfits : classCount ilt ilt.chkHi * classCount ilt ilt.chkLo * 4 + 40 < 2 ^ 31
  · obtain ⟨v, hv, hbuilt⟩ := iltCompile_built hfits
    rw [hu, Option.some.injEq] at hv
    subst hv
    rw [hbuilt.iltStoreTable_eq, Option.some.injEq] at hfd
    subst hfd
    rw [iltCreate, Option.bind_some, hbuilt.iltLoadTable_stored]
    by_cases hle : classCount ilt ilt.chkHi * classCount ilt ilt.chkLo ≤ rfcArrayMaxsize
    · simp [hle, InsnLookup.data]
    · simpa [hle] using hbuild
  · rw [iltCompile_overflow (by omega)] at hu
    cases hu

/-- The cache keeps the table and is safe to read exactly when the cross product
fits the limit of the loader and the file would pass the missing check. -/
theorem cache_iff {order : ByteOrder} {crc32Insn : BitVec 32} {fd : List Byte} :
    RoundTrips order crc32Insn ilt ∧ LookupsInside order fd ↔
      (classCount ilt ilt.chkHi * classCount ilt ilt.chkLo ≤ rfcArrayMaxsize ∨
        2 ^ 31 ≤ classCount ilt ilt.chkHi * classCount ilt ilt.chkLo * 4 + 40) ∧
      ∀ (f : IltFile) (rest : List Byte), fd = f.bytes order ++ rest → f.Accepted → f.Checked :=
  and_congr roundTrips_iff_cross lookupsInside_iff_checked

end Compiled

/-- Nine rules test one bit each of the upper half word, nine of the lower. -/
def nineBitRules : InsnTable Nat where
  nrInsn := 18
  getInsn := Fin.val
  chkHi := fun insn value => decide (insn < 9) && value.testBit insn
  chkLo := fun insn value => decide (9 ≤ insn) && value.testBit (insn - 9)
  nrInsn_lt := by decide

theorem classCount_nineBitRules :
    classCount nineBitRules nineBitRules.chkHi = 512 ∧
      classCount nineBitRules nineBitRules.chkLo = 512 := by
  have hlow : ∀ v k, k < 9 → (v % 512).testBit k = v.testBit k := by
    intro v k hk
    rw [show 512 = 2 ^ 9 from rfl, Nat.testBit_mod_two_pow]
    simp [hk]
  constructor
  · apply le_antisymm
    · apply classCount_le
      refine fun v _ => ⟨v % 512, by omega, fun i => ?_⟩
      by_cases hi : i.val < 9
      · simp [nineBitRules, hi, hlow]
      · simp [nineBitRules, hi]
    · apply classCount_ge (by simp [rfcArrayMaxsize])
      intro v hv w hw h
      apply @eq_of_low_bits 9 _ _ hv hw
      intro k hk
      simpa [nineBitRules, hk] using h ⟨k, by simp only [nineBitRules]; omega⟩
  · apply le_antisymm
    · apply classCount_le
      refine fun v _ => ⟨v % 512, by omega, fun i => ?_⟩
      have hi : i.val - 9 < 9 := by
        have hlt : i.val < 18 := i.isLt
        omega
      simp [nineBitRules, hlow _ _ hi]
    · apply classCount_ge (by simp [rfcArrayMaxsize])
      intro v hv w hw h
      apply @eq_of_low_bits 9 _ _ hv hw
      intro k hk
      simpa [nineBitRules] using h ⟨k + 9, by simp only [nineBitRules]; omega⟩

/-- The cross product of the nine-bit rules is too large for the loader. -/
theorem iltCreate_again_nineBitRules :
    ∃ t cache, iltCreate .little 0 nineBitRules none = some (t, cache) ∧
      iltCreate .little 0 nineBitRules cache = some (t, cache) := by
  obtain ⟨hhi, hlo⟩ := classCount_nineBitRules
  obtain ⟨t, ht, hbuilt⟩ := @iltCompile_built _ nineBitRules (by rw [hhi, hlo]; decide)
  have hcreate : iltCreate .little 0 nineBitRules none =
      some (t.data 0, some ((t.file 0).bytes .little)) := by
    change iltBuild .little 0 nineBitRules = _
    simp only [iltBuild, ht, hbuilt.iltStoreTable_eq, Option.bind_eq_bind, Option.bind_some]
  exact ⟨_, _, hcreate, iltCreate_again hcreate⟩

def emptyArrays : IltFile where
  crc32Insn := 0
  nrInsn := 0
  cbmSize := 0
  frames := [⟨0, 0, 0, []⟩, ⟨1, 0, 0, []⟩, ⟨2, 0, 0, []⟩]

theorem not_cache :
    ¬ RoundTrips .little 0 nineBitRules ∧ ¬ LookupsInside .little (emptyArrays.bytes .little) := by
  constructor
  · obtain ⟨hhi, hlo⟩ := classCount_nineBitRules
    rw [roundTrips_iff_cross, hhi, hlo]
    decide
  · intro h
    have hload : iltLoadTable .little (emptyArrays.bytes .little) = some emptyArrays.data := by
      decide +kernel
    have hlookup : emptyArrays.data.lookup 0 = none := by decide
    obtain ⟨r, hr, -⟩ := h _ hload 0
    rw [hlookup] at hr
    cases hr

end Dynamips.Ilt
