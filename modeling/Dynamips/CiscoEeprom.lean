import Dynamips.Lib.Bytes
import Dynamips.Lib.Turns

/-! The EEPROMs of the cards and chassis (cisco_eeprom.c): 16-bit words that are
read and written by the byte, with the fields of format version 4 in them. -/
set_option autoImplicit false

namespace Dynamips.Eeprom
open Turns

/-- `struct cisco_eeprom`; `len` is the number of words. -/
structure CiscoEeprom where
  data : List (BitVec 16)

def CiscoEeprom.len (e : CiscoEeprom) : Nat := e.data.length

/-- None where the function returns -1. -/
def ciscoEepromGetByte (e : CiscoEeprom) (offset : Nat) : Option Byte :=
  if offset ≥ e.len * 2 then none
  else
    let tmp := e.data.getD (offset / 2) 0
    let tmp := if offset % 2 = 0 then tmp >>> 8 else tmp
    some (tmp.setWidth 8)

def ciscoEepromSetByte (e : CiscoEeprom) (offset : Nat) (val : Byte) : Option CiscoEeprom :=
  if offset ≥ e.len * 2 then none
  else
    let tmp := e.data.getD (offset / 2) 0
    let tmp := if offset % 2 = 1 then (tmp &&& 0xFF00#16) ||| val.setWidth 16
      else (tmp &&& 0x00FF#16) ||| (val.setWidth 16 <<< 8)
    some ⟨e.data.set (offset / 2) tmp⟩

/-- What was written before a byte that does not fit stays. -/
def ciscoEepromSetRegion (e : CiscoEeprom) (offset : Nat) : List Byte → CiscoEeprom × Int
  | [] => (e, 0)
  | b :: data =>
    match ciscoEepromSetByte e offset b with
    | none => (e, -1)
    | some e => ciscoEepromSetRegion e (offset + 1) data

inductive V4Field where
  | error
  | last
  | field (type len : Byte) (offset : Nat)

def ciscoEepromV4GetField (e : CiscoEeprom) (offset : Nat) : V4Field :=
  match ciscoEepromGetByte e offset with
  | none => .error
  | some type =>
    if type = 0xFF then .last
    else
      let tmp := (type >>> 6) &&& 0x03
      if tmp = 0x03 then
        match ciscoEepromGetByte e (offset + 1) with
        | none => .error
        | some tmp => .field type (tmp &&& 0x0F) (offset + 2)
      else .field type (1 <<< tmp.toNat) (offset + 1)

/-- A turn of the loop of `cisco_eeprom_v4_find_field`. -/
def findTurn (e : CiscoEeprom) (fieldType : Byte) (offset : Nat) : Turn Nat (Option Nat) :=
  match ciscoEepromV4GetField e offset with
  | .field type len offset =>
    if type = fieldType then .stop (some offset)
    else if offset + len.toNat < e.len * 2 then .go (offset + len.toNat)
    else .stop none
  | _ => .stop none

/-- The offset of the field, or nothing where the function returns -1. -/
def CiscoEepromV4FindField (e : CiscoEeprom) (fieldType : Byte) (r : Option Nat) : Prop :=
  Returns (findTurn e fieldType) 2 r

/-- `c2691_burn_mac_addr`, which is also that of the c3600, c3725 and c3745. -/
def BurnMacAddr (e : CiscoEeprom) (addr : List Byte) (r : CiscoEeprom × Int) : Prop :=
  let eepromVer := (ciscoEepromGetByte e 0).getD 0xFF
  if eepromVer = 0 then r = ((ciscoEepromSetRegion e 2 addr).1, 0)
  else if eepromVer = 4 then
    ∃ found, CiscoEepromV4FindField e 0xC3 found ∧
      r = (match found with
        | some offset => (ciscoEepromSetRegion e offset addr).1
        | none => e, 0)
  else r = (e, -1)

/-! The same byte by byte. -/

def wordBytes (w : BitVec 16) : List Byte := [(w >>> 8).setWidth 8, w.setWidth 8]

def CiscoEeprom.bytes (e : CiscoEeprom) : List Byte := e.data.flatMap wordBytes

variable {e : CiscoEeprom} {type : Byte}

theorem length_bytes (e : CiscoEeprom) : e.bytes.length = e.len * 2 := by
  rw [CiscoEeprom.bytes, CiscoEeprom.len]
  induction e.data with
  | nil => rfl
  | cons w ws ih =>
    rw [List.flatMap_cons, List.length_append, ih, List.length_cons]
    simp only [wordBytes, List.length_cons, List.length_nil]
    omega

theorem getByte_eq (e : CiscoEeprom) (offset : Nat) :
    ciscoEepromGetByte e offset = e.bytes[offset]? := by
  obtain ⟨ws⟩ := e
  rw [CiscoEeprom.bytes]
  induction ws generalizing offset with
  | nil => rfl
  | cons w ws ih =>
    obtain _ | _ | n := offset
    · rfl
    · simp [ciscoEepromGetByte, CiscoEeprom.len, wordBytes, show 1 < (ws.length + 1) * 2 by omega]
    · have hn := ih n
      simp only [ciscoEepromGetByte, CiscoEeprom.len] at hn
      have hdiv : (n + 1 + 1) / 2 = n / 2 + 1 := by omega
      have hmod : (n + 1 + 1) % 2 = n % 2 := by omega
      have hlen : n + 1 + 1 ≥ (ws.length + 1) * 2 ↔ n ≥ ws.length * 2 := by omega
      simp only [ciscoEepromGetByte, CiscoEeprom.len, List.length_cons, hdiv, hmod, hlen,
        List.getD_cons_succ]
      exact hn

theorem getLsbD_masks (i : Nat) :
    (0xFF00#16).getLsbD i = (decide (8 ≤ i) && decide (i < 16)) ∧
      (0x00FF#16).getLsbD i = decide (i < 8) := by
  by_cases hi : i < 16
  · revert hi
    revert i
    decide
  · rw [BitVec.getLsbD_of_ge _ _ (by omega), BitVec.getLsbD_of_ge _ _ (by omega)]
    simp [hi, show ¬ i < 8 by omega]

/-- A byte of a word is replaced. -/
theorem wordBytes_replace (w : BitVec 16) (val : Byte) :
    wordBytes ((w &&& 0xFF00#16) ||| val.setWidth 16) = [(w >>> 8).setWidth 8, val] ∧
      wordBytes ((w &&& 0x00FF#16) ||| (val.setWidth 16 <<< 8)) = [val, w.setWidth 8] := by
  simp only [wordBytes, List.cons.injEq, and_true]
  refine ⟨⟨?_, ?_⟩, ?_, ?_⟩ <;>
  · apply BitVec.eq_of_getLsbD_eq
    intro i hi
    simp only [BitVec.getLsbD_setWidth, BitVec.getLsbD_ushiftRight, BitVec.getLsbD_or,
      BitVec.getLsbD_and, BitVec.getLsbD_shiftLeft, getLsbD_masks]
    grind

theorem setByte_eq (e : CiscoEeprom) {offset : Nat} (h : offset < e.bytes.length) (val : Byte) :
    ∃ e', ciscoEepromSetByte e offset val = some e' ∧ e'.bytes = e.bytes.set offset val := by
  rw [length_bytes] at h
  refine ⟨_, if_neg (by omega), ?_⟩
  obtain ⟨ws⟩ := e
  simp only [CiscoEeprom.bytes, CiscoEeprom.len] at *
  induction ws generalizing offset with
  | nil => simp at h
  | cons w ws ih =>
    obtain _ | _ | n := offset
    · simp only [Nat.zero_div, Nat.zero_mod, List.getD_cons_zero, List.set_cons_zero,
        List.flatMap_cons, Nat.zero_ne_one, if_false, (wordBytes_replace w val).2]
      rfl
    · simp only [Nat.zero_add, Nat.reduceDiv, Nat.reduceMod, List.getD_cons_zero,
        List.set_cons_zero, List.flatMap_cons, if_true, (wordBytes_replace w val).1]
      rfl
    · have hdiv : (n + 1 + 1) / 2 = n / 2 + 1 := by omega
      have hmod : (n + 1 + 1) % 2 = n % 2 := by omega
      have hn := @ih n (by rw [List.length_cons] at h; omega)
      simp only [hdiv, hmod, List.getD_cons_succ, List.set_cons_succ, List.flatMap_cons]
      rw [hn]
      rfl

theorem setRegion_eq {a b c data : List Byte} (h : e.bytes = a ++ b ++ c)
    (hlen : data.length = b.length) :
    ∃ e', ciscoEepromSetRegion e a.length data = (e', 0) ∧ e'.bytes = a ++ data ++ c := by
  induction data generalizing e a b with
  | nil =>
    obtain rfl := List.length_eq_zero_iff.mp hlen.symm
    exact ⟨e, rfl, h⟩
  | cons x data ih =>
    obtain _ | ⟨y, b⟩ := b
    · cases hlen
    · have hin : a.length < e.bytes.length := by
        rw [h]
        simp
      obtain ⟨e', hset, hbytes⟩ := setByte_eq e hin x
      have hnext : e'.bytes = (a ++ [x]) ++ b ++ c := by
        rw [hbytes, h]
        simp
      obtain ⟨e'', hrest, hall⟩ := ih hnext (Nat.succ.inj hlen)
      refine ⟨e'', ?_, by simp [hall]⟩
      rw [ciscoEepromSetRegion, hset]
      simpa using hrest

/-! Fields. -/

/-- The length that a field of that type has; the second byte tells it for some. -/
def fieldLen (type lenByte : Byte) : Byte :=
  if (type >>> 6) &&& 0x03 = 0x03 then lenByte &&& 0x0F else 1 <<< ((type >>> 6) &&& 0x03).toNat

structure Field where
  type : Byte
  lenByte : Byte
  data : List Byte
  ne_last : type ≠ 0xFF
  size : data.length = (fieldLen type lenByte).toNat

def Field.head (f : Field) : List Byte :=
  if (f.type >>> 6) &&& 0x03 = 0x03 then [f.type, f.lenByte] else [f.type]

def Field.bytes (f : Field) : List Byte := f.head ++ f.data

/-- The EEPROM has these fields, in format version 4. -/
def Holds (e : CiscoEeprom) (fields : List Field) : Prop :=
  ∃ pad rest, e.bytes = [0x04, pad] ++ fields.flatMap Field.bytes ++ 0xFF :: rest

theorem getField_eq {a c : List Byte} {f : Field} (h : e.bytes = a ++ f.bytes ++ c) :
    ciscoEepromV4GetField e a.length =
      .field f.type (fieldLen f.type f.lenByte) (a.length + f.head.length) := by
  have htype : ciscoEepromGetByte e a.length = some f.type := by
    rw [getByte_eq, h, List.append_assoc, List.getElem?_append_right (Nat.le_refl _), Nat.sub_self]
    simp only [Field.bytes, Field.head]
    split <;> rfl
  rw [ciscoEepromV4GetField, htype]
  simp only [if_neg f.ne_last, fieldLen, Field.head]
  by_cases hvar : (f.type >>> 6) &&& 0x03 = 0x03
  · have hlen : ciscoEepromGetByte e (a.length + 1) = some f.lenByte := by
      rw [getByte_eq, h, List.append_assoc, List.getElem?_append_right (by omega),
        Nat.add_sub_cancel_left, Field.bytes, Field.head, if_pos hvar]
      rfl
    simp only [if_pos hvar, hlen]
    rfl
  · simp only [if_neg hvar]
    rfl

theorem findTurn_eq {a c : List Byte} {f : Field} (h : e.bytes = a ++ f.bytes ++ c) :
    findTurn e type a.length =
      if f.type = type then .stop (some (a.length + f.head.length))
      else if (a ++ f.bytes).length < e.bytes.length then .go (a ++ f.bytes).length
      else .stop none := by
  have hnext : a.length + f.head.length + (fieldLen f.type f.lenByte).toNat =
      (a ++ f.bytes).length := by
    rw [List.length_append, Field.bytes, List.length_append, f.size]
    omega
  rw [findTurn, getField_eq h]
  simp only [hnext, length_bytes]

/-- Where the data of the first field of that type is. -/
def dataOffset (type : Byte) : List Field → Nat → Option Nat
  | [], _ => none
  | f :: fields, offset =>
    if f.type = type then some (offset + f.head.length)
    else dataOffset type fields (offset + f.bytes.length)

theorem find_from {fields : List Field} {a rest : List Byte}
    (h : e.bytes = a ++ fields.flatMap Field.bytes ++ 0xFF :: rest) :
    Returns (findTurn e type) a.length (dataOffset type fields a.length) := by
  induction fields generalizing a with
  | nil =>
    have hlast : ciscoEepromGetByte e a.length = some 0xFF := by
      rw [getByte_eq, h, List.flatMap_nil, List.append_nil,
        List.getElem?_append_right (Nat.le_refl _), Nat.sub_self]
      rfl
    refine (returns_stop ?_).mpr rfl
    rw [findTurn, ciscoEepromV4GetField, hlast]
    rfl
  | cons g fields ih =>
    have hg : e.bytes = a ++ g.bytes ++ (fields.flatMap Field.bytes ++ 0xFF :: rest) := by
      rw [h, List.flatMap_cons]
      simp only [List.append_assoc]
    have hmore : (a ++ g.bytes).length < e.bytes.length := by
      rw [hg]
      simp only [List.length_append, List.length_cons]
      omega
    have hrest := @ih (a ++ g.bytes) (by rw [hg]; simp only [List.append_assoc])
    have hturn := @findTurn_eq e type _ _ _ hg
    rw [if_pos hmore] at hturn
    rw [dataOffset]
    split at hturn
    · rename_i heq
      rw [if_pos heq]
      exact (returns_stop hturn).mpr rfl
    · rename_i hne
      rw [if_neg hne, ← List.length_append]
      exact (returns_go hturn).mpr hrest

theorem dataOffset_append {before : List Field} (fields : List Field) (offset : Nat)
    (h : ∀ f ∈ before, f.type ≠ type) :
    dataOffset type (before ++ fields) offset =
      dataOffset type fields (offset + (before.flatMap Field.bytes).length) := by
  induction before generalizing offset with
  | nil => rfl
  | cons f before ih =>
    rw [List.cons_append, dataOffset, if_neg (h f List.mem_cons_self),
      ih _ fun g hg => h g (List.mem_cons_of_mem f hg), List.flatMap_cons, List.length_append,
      Nat.add_assoc]

/-- Every turn goes on behind the field that it has read. -/
theorem findTurn_advances {offset next : Nat} (h : findTurn e type offset = .go next) :
    e.len * 2 - next < e.len * 2 - offset := by
  simp only [findTurn, ciscoEepromV4GetField] at h
  grind

theorem find_returns (e : CiscoEeprom) (type : Byte) : ∃ r, CiscoEepromV4FindField e type r :=
  returns_of_measure (fun offset => e.len * 2 - offset) (fun _ _ h => findTurn_advances h) 2

/-- The search ends on all contents, and in fields it finds the first of its type. -/
theorem findField_finds (e : CiscoEeprom) (type : Byte) :
    ∃ r, CiscoEepromV4FindField e type r ∧
      ∀ fields : List Field, Holds e fields → r = dataOffset type fields 2 := by
  obtain ⟨r, hr⟩ := find_returns e type
  refine ⟨r, hr, ?_⟩
  rintro fields ⟨pad, rest, hbytes⟩
  exact hr.unique (find_from hbytes)

/-- The field with other data. -/
def Field.withData (f : Field) (data : List Byte) (h : data.length = f.data.length) : Field :=
  { f with data := data, size := h.trans f.size }

/-- The MAC address is burned into its field, and all the others stay what they
were. -/
theorem burnMacAddr_holds {before after : List Field} {f : Field} {addr : List Byte}
    (h : Holds e (before ++ f :: after)) (hbefore : ∀ g ∈ before, g.type ≠ 0xC3)
    (hf : f.type = 0xC3) (hlen : addr.length = f.data.length) :
    ∃ e', BurnMacAddr e addr (e', 0) ∧ Holds e' (before ++ f.withData addr hlen :: after) := by
  obtain ⟨pad, rest, hbytes⟩ := h
  have hver : ciscoEepromGetByte e 0 = some 0x04 := by
    rw [getByte_eq, hbytes]
    rfl
  have hfound := @find_from e 0xC3 _ _ _ hbytes
  rw [dataOffset_append _ _ hbefore, dataOffset, if_pos hf] at hfound
  have hsplit : e.bytes = ([0x04, pad] ++ before.flatMap Field.bytes ++ f.head) ++ f.data ++
      (after.flatMap Field.bytes ++ 0xFF :: rest) := by
    rw [hbytes, List.flatMap_append, List.flatMap_cons, Field.bytes]
    simp only [List.append_assoc]
  obtain ⟨e', hset, hall⟩ := setRegion_eq hsplit hlen
  rw [List.length_append, List.length_append] at hset
  refine ⟨e', ?_, pad, rest, ?_⟩
  · rw [BurnMacAddr, hver]
    refine ⟨_, hfound, ?_⟩
    simp only [hset]
  · rw [hall, List.flatMap_append, List.flatMap_cons, Field.bytes, Field.withData, Field.head,
      Field.head]
    simp only [List.append_assoc]

theorem burnMacAddr_holds_blank :
    ∃ e', BurnMacAddr ⟨[0x0401, 0x4112, 0x34C3, 0x06FF, 0xFFFF, 0xFFFF, 0xFFFF]⟩
        [0xCA, 0x00, 0x12, 0x34, 0x00, 0x01] (e', 0) ∧
      Holds e' ([⟨0x41, 0, [0x12, 0x34], by decide, rfl⟩] ++
        Field.withData ⟨0xC3, 6, List.replicate 6 0xFF, by decide, rfl⟩
          [0xCA, 0x00, 0x12, 0x34, 0x00, 0x01] rfl :: []) := by
  refine burnMacAddr_holds ⟨0x01, [], ?_⟩ ?_ ?_ _ <;> decide

end Dynamips.Eeprom
