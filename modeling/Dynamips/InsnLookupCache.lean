import Dynamips.InsnLookup
import Dynamips.Lib.WordFile
import Mathlib.Data.List.Nodup
set_option autoImplicit false

namespace Dynamips.Ilt
open Loop

abbrev rfcArrayNumber : Nat := 3

/-- The members of an `rfc_array_t` that the cache file holds. -/
structure RfcData where
  nrElements : Nat
  nrEqid : Int
  eqID : Array Int
  deriving DecidableEq

/-- The members of an `insn_lookup_t` that the cache file holds; an array that
is not loaded is NULL. -/
structure IltData where
  crc32Insn : BitVec 32
  nrInsn : Int
  cbmSize : Int
  rfct : Vector (Option RfcData) rfcArrayNumber
  deriving DecidableEq

def IsInt (n : Int) : Prop := -2 ^ 31 ≤ n ∧ n < 2 ^ 31

instance (n : Int) : Decidable (IsInt n) := inferInstanceAs (Decidable (_ ∧ _))

/-- The value of an `int` expression; a signed overflow has none. -/
def asInt (n : Int) : Option Int := if IsInt n then some n else none

def RfcData.getIndex (a1 a2 : RfcData) (i1 i2 : Nat) : Option Int := do
  let e1 ← a1.eqID[i1]?
  let base ← asInt (e1 * a2.nrEqid)
  let e2 ← a2.eqID[i2]?
  asInt (base + e2)

def IltData.getIdx (ilt : IltData) (a1 a2 : Fin rfcArrayNumber) (i1 i2 : Nat) : Option Int := do
  let rfct1 ← ilt.rfct[a1]
  let rfct2 ← ilt.rfct[a2]
  rfct1.getIndex rfct2 i1 i2

/-- `ilt_lookup` on a table that may come from a file. -/
def IltData.lookup (ilt : IltData) (insn : BitVec 32) : Option Int := do
  let id ← ilt.getIdx 0 1 (insn >>> 16).toNat (insn &&& 0xFFFF).toNat
  let rfct ← ilt.rfct[2]
  if id < 0 then none else rfct.eqID[id.toNat]?

/-- `ilt_store_rfct`; `fwrite` reads `nr_elements` entries behind the header. -/
def iltStoreRfct (order : ByteOrder) (fd : List Byte) (id : Nat) (rfct : RfcData) :
    Option (List Byte) :=
  if rfct.nrElements ≤ rfct.eqID.size then
    some (fd ++ order.wordBytes (BitVec.ofNat 32 id) ++
      order.wordBytes (BitVec.ofNat 32 rfct.nrElements) ++
      order.wordBytes (BitVec.ofInt 32 rfct.nrEqid) ++
      (rfct.eqID.toList.take rfct.nrElements).flatMap fun e => order.wordBytes (BitVec.ofInt 32 e))
  else none

def iltStoreTurn (order : ByteOrder) (ilt : IltData) (i : Nat) (fd : List Byte) :
    Option (List Byte) :=
  match ilt.rfct[i]?.join with
  | some rfct => iltStoreRfct order fd i rfct
  | none => some fd

def iltStoreTable (order : ByteOrder) (ilt : IltData) : Option (List Byte) :=
  loopM (iltStoreTurn order ilt) rfcArrayNumber
    (order.wordBytes ilt.crc32Insn ++ order.wordBytes (BitVec.ofInt 32 ilt.nrInsn) ++
      order.wordBytes (BitVec.ofInt 32 ilt.cbmSize))

/-- `ilt_load_rfct`; the state is the table and what is left of the file. -/
def iltLoadRfct (order : ByteOrder) (s : IltData × List Byte) : Option (IltData × List Byte) := do
  let (id, fd) ← order.readWord s.2
  let (nrElements, fd) ← order.readWord fd
  let (nrEqid, fd) ← order.readWord fd
  if rfcArrayNumber ≤ id.toNat ∨ rfcArrayMaxsize < nrElements.toNat then none
  else
    let (eqID, fd) ← order.readWords nrElements.toNat fd
    let rfct : RfcData :=
      { nrElements := nrElements.toNat
        nrEqid := nrEqid.toInt
        eqID := (eqID.map BitVec.toInt).toArray }
    some ({ s.1 with rfct := s.1.rfct.setIfInBounds id.toNat (some rfct) }, fd)

def iltCheckCachedTable (ilt : IltData) : Bool := ilt.rfct.all Option.isSome

def iltLoadTable (order : ByteOrder) (fd : List Byte) : Option IltData := do
  let (crc32Insn, fd) ← order.readWord fd
  let (nrInsn, fd) ← order.readWord fd
  let (cbmSize, fd) ← order.readWord fd
  let ilt : IltData :=
    { crc32Insn := crc32Insn
      nrInsn := nrInsn.toInt
      cbmSize := cbmSize.toInt
      rfct := Vector.replicate rfcArrayNumber none }
  let (ilt, _) ← loopM (fun _ => iltLoadRfct order) rfcArrayNumber (ilt, fd)
  if iltCheckCachedTable ilt then some ilt else none

section Compiled

variable {Insn : Type} {ilt : InsnTable Insn}

def RfcArray.data (rfct : RfcArray ilt) : RfcData :=
  { nrElements := rfct.nrElements
    nrEqid := rfct.nrEqid
    eqID := rfct.eqID }

def InsnLookup.data (t : InsnLookup ilt) (crc32Insn : BitVec 32) : IltData :=
  { crc32Insn := crc32Insn
    nrInsn := ilt.nrInsn
    cbmSize := ilt.cbmSize
    rfct := #v[some t.hi.data, some t.lo.data, some t.cross.data] }

/-- The part of `ilt_create` that builds the table and stores it. -/
def iltBuild (order : ByteOrder) (crc32Insn : BitVec 32) (ilt : InsnTable Insn) :
    Option (IltData × Option (List Byte)) := do
  let t ← iltCompile ilt
  let fd ← iltStoreTable order (t.data crc32Insn)
  some (t.data crc32Insn, some fd)

/-- `ilt_create`, with the cache file before and after the call. -/
def iltCreate (order : ByteOrder) (crc32Insn : BitVec 32) (ilt : InsnTable Insn)
    (cache : Option (List Byte)) : Option (IltData × Option (List Byte)) :=
  match cache.bind (iltLoadTable order) with
  | some t =>
    if t.crc32Insn = crc32Insn ∧ t.nrInsn = ilt.nrInsn ∧ t.cbmSize = ilt.cbmSize then
      some (t, cache)
    else iltBuild order crc32Insn ilt
  | none => iltBuild order crc32Insn ilt

end Compiled

structure RfcFrame where
  id : BitVec 32
  nrElements : BitVec 32
  nrEqid : BitVec 32
  eqID : List (BitVec 32)

namespace RfcFrame

def bytes (frame : RfcFrame) (order : ByteOrder) : List Byte :=
  order.wordBytes frame.id ++ order.wordBytes frame.nrElements ++ order.wordBytes frame.nrEqid ++
    frame.eqID.flatMap order.wordBytes

structure Accepted (frame : RfcFrame) : Prop where
  id_lt : frame.id.toNat < rfcArrayNumber
  nrElements_le : frame.nrElements.toNat ≤ rfcArrayMaxsize
  length_eq : frame.eqID.length = frame.nrElements.toNat

def data (frame : RfcFrame) : RfcData :=
  { nrElements := frame.nrElements.toNat
    nrEqid := frame.nrEqid.toInt
    eqID := (frame.eqID.map BitVec.toInt).toArray }

def load (frame : RfcFrame) (ilt : IltData) : IltData :=
  { ilt with rfct := ilt.rfct.setIfInBounds frame.id.toNat (some frame.data) }

end RfcFrame

theorem iltLoadRfct_eq_some_iff {order : ByteOrder} {s s' : IltData × List Byte} :
    iltLoadRfct order s = some s' ↔
      ∃ frame : RfcFrame, s.2 = frame.bytes order ++ s'.2 ∧ frame.Accepted ∧
        s'.1 = frame.load s.1 := by
  obtain ⟨ilt, fd⟩ := s
  obtain ⟨ilt', fd'⟩ := s'
  simp only [iltLoadRfct, Option.bind_eq_bind, Option.bind_eq_some_iff, Prod.exists,
    ByteOrder.readWord_eq_some_iff]
  constructor
  · rintro ⟨id, _, rfl, nrElements, _, rfl, nrEqid, _, rfl, h⟩
    split at h
    · cases h
    · rename_i hcheck
      simp only [Option.bind_eq_some_iff, Prod.exists, ByteOrder.readWords_eq_some_iff,
        Option.some.injEq, Prod.mk.injEq] at h
      obtain ⟨eqID, _, ⟨hlen, rfl⟩, rfl, rfl⟩ := h
      exact ⟨⟨id, nrElements, nrEqid, eqID⟩, by simp [RfcFrame.bytes],
        ⟨by simp only; omega, by simp only; omega, hlen⟩, rfl⟩
  · rintro ⟨frame, rfl, hacc, rfl⟩
    refine ⟨frame.id, _, by simp [RfcFrame.bytes], frame.nrElements, _, rfl, frame.nrEqid,
      frame.eqID.flatMap order.wordBytes ++ fd', rfl, ?_⟩
    have hid := hacc.id_lt
    have hnr := hacc.nrElements_le
    rw [if_neg (by omega)]
    simp only [Option.bind_eq_some_iff, Prod.exists, ByteOrder.readWords_eq_some_iff]
    exact ⟨frame.eqID, fd', ⟨hacc.length_eq, rfl⟩, rfl⟩

theorem loopM_iltLoadRfct {order : ByteOrder} {n : Nat} {s s' : IltData × List Byte} :
    loopM (fun _ => iltLoadRfct order) n s = some s' ↔
      ∃ frames : List RfcFrame, frames.length = n ∧
        s.2 = frames.flatMap (·.bytes order) ++ s'.2 ∧ (∀ frame ∈ frames, frame.Accepted) ∧
        s'.1 = frames.foldl (fun ilt frame => frame.load ilt) s.1 := by
  induction n generalizing s' with
  | zero =>
    simp only [loopM, Option.some.injEq, List.length_eq_zero_iff]
    constructor
    · rintro rfl
      simp
    · rintro ⟨frames, rfl, hfd, -, hilt⟩
      exact Prod.ext hilt.symm (by simpa using hfd)
  | succ n ih =>
    simp only [loopM, Option.bind_eq_some_iff, ih, iltLoadRfct_eq_some_iff]
    constructor
    · rintro ⟨mid, ⟨frames, hlen, hfd, hacc, hilt⟩, frame, hfd', hacc', hilt'⟩
      refine ⟨frames ++ [frame], by simp [hlen], by simp [hfd, hfd'], ?_, by simp [hilt, hilt']⟩
      simp only [List.mem_append, List.mem_singleton]
      rintro g (hg | rfl)
      · exact hacc g hg
      · exact hacc'
    · rintro ⟨frames, hlen, hfd, hacc, hilt⟩
      obtain ⟨init, frame, rfl⟩ : ∃ init frame, frames = init ++ [frame] := by
        cases frames using List.reverseRecOn with
        | nil => simp at hlen
        | append_singleton init frame => exact ⟨init, frame, rfl⟩
      simp only [List.length_append, List.length_singleton, Nat.add_right_cancel_iff] at hlen
      simp only [List.mem_append, List.mem_singleton] at hacc
      refine ⟨(init.foldl (fun ilt frame => frame.load ilt) s.1, frame.bytes order ++ s'.2),
        ⟨init, hlen, by simpa using hfd, fun g hg => hacc g (.inl hg), rfl⟩,
        frame, rfl, hacc frame (.inr rfl), by simpa using hilt⟩

structure IltFile where
  crc32Insn : BitVec 32
  nrInsn : BitVec 32
  cbmSize : BitVec 32
  frames : List RfcFrame

namespace IltFile

def bytes (f : IltFile) (order : ByteOrder) : List Byte :=
  order.wordBytes f.crc32Insn ++ order.wordBytes f.nrInsn ++ order.wordBytes f.cbmSize ++
    f.frames.flatMap (·.bytes order)

def data (f : IltFile) : IltData :=
  f.frames.foldl (fun ilt frame => frame.load ilt)
    { crc32Insn := f.crc32Insn
      nrInsn := f.nrInsn.toInt
      cbmSize := f.cbmSize.toInt
      rfct := Vector.replicate rfcArrayNumber none }

structure Accepted (f : IltFile) : Prop where
  length_eq : f.frames.length = rfcArrayNumber
  frames_accepted : ∀ frame ∈ f.frames, frame.Accepted
  all_loaded : ∀ i < rfcArrayNumber, ∃ frame ∈ f.frames, frame.id.toNat = i

end IltFile

theorem load_header (frames : List RfcFrame) (ilt : IltData) :
    (frames.foldl (fun ilt frame => frame.load ilt) ilt).nrInsn = ilt.nrInsn := by
  induction frames generalizing ilt with
  | nil => rfl
  | cons frame frames ih =>
    simp only [List.foldl_cons, ih]
    rfl

theorem load_other {frames : List RfcFrame} {ilt : IltData} {i : Nat}
    (h : ∀ frame ∈ frames, frame.id.toNat ≠ i) :
    (frames.foldl (fun ilt frame => frame.load ilt) ilt).rfct[i]? = ilt.rfct[i]? := by
  induction frames generalizing ilt with
  | nil => rfl
  | cons frame frames ih =>
    have hne : frame.id.toNat ≠ i := h frame (by simp)
    rw [List.foldl_cons, ih fun g hg => h g (by simp [hg])]
    simp [RfcFrame.load, hne]

theorem load_mem {frames : List RfcFrame} {ilt : IltData} {frame : RfcFrame}
    (hids : (frames.map (·.id.toNat)).Nodup) (hmem : frame ∈ frames)
    (hid : frame.id.toNat < rfcArrayNumber) :
    (frames.foldl (fun ilt frame => frame.load ilt) ilt).rfct[frame.id.toNat]? =
      some (some frame.data) := by
  induction frames generalizing ilt with
  | nil => simp at hmem
  | cons head frames ih =>
    simp only [List.map_cons, List.nodup_cons, List.mem_map, not_exists, not_and] at hids
    rw [List.foldl_cons]
    rcases List.mem_cons.mp hmem with rfl | hmem
    · rw [load_other fun g hg => hids.1 g hg]
      simp [RfcFrame.load, hid]
    · exact ih hids.2 hmem

theorem IltFile.Accepted.nodup {f : IltFile} (h : f.Accepted) :
    (f.frames.map (·.id.toNat)).Nodup := by
  have hsub : List.range rfcArrayNumber ⊆ f.frames.map (·.id.toNat) := by
    intro i hi
    obtain ⟨frame, hmem, hid⟩ := h.all_loaded i (List.mem_range.mp hi)
    exact List.mem_map.mpr ⟨frame, hmem, hid⟩
  have hperm := (List.nodup_range.subperm hsub).perm_of_length_le (by simp [h.length_eq])
  exact hperm.nodup_iff.mp List.nodup_range

theorem IltFile.Accepted.rfct_eq {f : IltFile} (h : f.Accepted) {frame : RfcFrame}
    (hmem : frame ∈ f.frames) : f.data.rfct[frame.id.toNat]? = some (some frame.data) :=
  load_mem h.nodup hmem (h.frames_accepted frame hmem).id_lt

theorem iltLoadTable_eq_some_iff {order : ByteOrder} {fd : List Byte} {ilt : IltData} :
    iltLoadTable order fd = some ilt ↔
      ∃ (f : IltFile) (rest : List Byte), fd = f.bytes order ++ rest ∧ f.Accepted ∧
        ilt = f.data := by
  simp only [iltLoadTable, Option.bind_eq_bind, Option.bind_eq_some_iff, Prod.exists,
    ByteOrder.readWord_eq_some_iff, loopM_iltLoadRfct, Option.ite_none_right_eq_some,
    Option.some.injEq]
  constructor
  · rintro ⟨crc32Insn, _, rfl, nrInsn, _, rfl, cbmSize, _, rfl, t, rest,
      ⟨frames, hlen, rfl, hacc, rfl⟩, hcheck, rfl⟩
    refine ⟨⟨crc32Insn, nrInsn, cbmSize, frames⟩, rest, by simp [IltFile.bytes],
      ⟨hlen, hacc, fun i hi => ?_⟩, rfl⟩
    by_contra hnone
    simp only [not_exists, not_and] at hnone
    have hsome := (Vector.all_iff_forall ..).mp hcheck i hi
    have hget := @load_other frames
      ⟨crc32Insn, nrInsn.toInt, cbmSize.toInt, Vector.replicate rfcArrayNumber none⟩ i hnone
    simp only [Vector.getElem?_eq_getElem hi, Vector.getElem_replicate, Option.some.injEq] at hget
    rw [hget] at hsome
    cases hsome
  · rintro ⟨f, rest, rfl, hacc, rfl⟩
    refine ⟨f.crc32Insn, _, by simp [IltFile.bytes], f.nrInsn, _, rfl, f.cbmSize, _, rfl, f.data,
      rest, ⟨f.frames, hacc.length_eq, rfl, hacc.frames_accepted, rfl⟩, ?_, rfl⟩
    rw [iltCheckCachedTable, Vector.all_iff_forall]
    intro i hi
    obtain ⟨frame, hmem, rfl⟩ := hacc.all_loaded i hi
    have hget := hacc.rfct_eq hmem
    rw [Vector.getElem?_eq_getElem hi, Option.some.injEq] at hget
    rw [hget]
    rfl

end Dynamips.Ilt
