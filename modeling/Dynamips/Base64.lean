import Dynamips.Lib.Bytes
import Dynamips.Lib.Scan
import Mathlib.Logic.Function.Basic
import Mathlib.Tactic.IntervalCases

/-! The Base64 codec of base64.cppm. A write outside its span is no result at
all. -/
set_option autoImplicit false

namespace Dynamips.Base64

inductive Error where
  | invalidLength
  | invalidCharacter
  | invalidPadding
  | outputTooSmall
  | inputTooLarge
deriving DecidableEq, Repr

def SIZE_MAX : Nat := 2 ^ 64 - 1

def encodedSize (n : Nat) : Except Error Nat :=
  let groups := n / 3 + if n % 3 ≠ 0 then 1 else 0
  if groups > SIZE_MAX / 4 then .error .inputTooLarge else .ok (groups * 4)

def alphabet : List Byte :=
  ['A', 'B', 'C', 'D', 'E', 'F', 'G', 'H', 'I', 'J', 'K', 'L', 'M', 'N', 'O', 'P', 'Q', 'R', 'S',
    'T', 'U', 'V', 'W', 'X', 'Y', 'Z', 'a', 'b', 'c', 'd', 'e', 'f', 'g', 'h', 'i', 'j', 'k', 'l',
    'm', 'n', 'o', 'p', 'q', 'r', 's', 't', 'u', 'v', 'w', 'x', 'y', 'z', '0', '1', '2', '3', '4',
    '5', '6', '7', '8', '9', '+', '/'].map fun c => BitVec.ofNat 8 c.toNat

/-- The character `=` -/
def pad : Byte := 0x3d

/-- An entry of `decode_lut`, as `make_decode_lut` fills it. -/
def decodeLut : Byte → Byte :=
  (List.range 64).foldl
    (fun table i => Function.update table (alphabet.getD i 0) (BitVec.ofNat 8 i)) fun _ => 0x80

/-- `alphabet[i]` -/
def digit (i : BitVec 32) : Byte := alphabet.getD i.toNat 0

/-- The four characters of `encode_group`. -/
def encodeGroup (in0 in1 in2 : Byte) : List Byte :=
  let bits : BitVec 32 := (in0.setWidth 32 <<< 16) ||| (in1.setWidth 32 <<< 8) ||| in2.setWidth 32
  [digit ((bits >>> 18) &&& 63), digit ((bits >>> 12) &&& 63), digit ((bits >>> 6) &&& 63),
    digit (bits &&& 63)]

/-- The three bytes of `decode_group`. -/
def decodeGroup (in0 in1 in2 in3 : Byte) : Except Error (List Byte) :=
  let a := decodeLut in0
  let b := decodeLut in1
  let c := decodeLut in2
  let d := decodeLut in3
  if (a ||| b ||| c ||| d) &&& 0x80 ≠ 0 then
    .error .invalidCharacter
  else
    let bits : BitVec 32 := (a.setWidth 32 <<< 18) ||| (b.setWidth 32 <<< 12) |||
      (c.setWidth 32 <<< 6) ||| d.setWidth 32
    .ok [(bits >>> 16).setWidth 8, (bits >>> 8).setWidth 8, bits.setWidth 8]

def store (out : List Byte) (pos : Nat) (bytes : List Byte) : Option (List Byte) :=
  if pos + bytes.length ≤ out.length then some (memcpy out pos bytes) else none

/-- `decode_bulk`, from a position of the output on. -/
def decodeBulk : List Byte → Nat → List Byte → Option (Except Error Nat × List Byte)
  | in0 :: in1 :: in2 :: in3 :: rest, pos, out =>
    match decodeGroup in0 in1 in2 in3 with
    | .error e => some (.error e, out)
    | .ok bytes => (store out pos bytes).bind fun out => decodeBulk rest (pos + 3) out
  | _, pos, out => some (.ok pos, out)

/-- `encode_bulk`, from a position of the output on. -/
def encodeBulk : List Byte → Nat → List Byte → Option (Nat × List Byte)
  | in0 :: in1 :: in2 :: rest, pos, out =>
    (store out pos (encodeGroup in0 in1 in2)).bind fun out => encodeBulk rest (pos + 4) out
  | _, pos, out => some (pos, out)

def decodeTail (out : List Byte) (in0 in1 in2 in3 : Byte) :
    Option (Except Error Nat × List Byte) :=
  let p2 := decide (in2 = pad)
  let p3 := decide (in3 = pad)
  if p2 ∧ ¬ p3 then
    some (.error .invalidPadding, out)
  else
    let a := decodeLut in0
    let b := decodeLut in1
    if (a ||| b) &&& 0x80 ≠ 0 then
      some (.error .invalidCharacter, out)
    else if p2 then
      if b &&& 0x0f ≠ 0 then
        some (.error .invalidPadding, out)
      else if out.length = 0 then
        some (.error .outputTooSmall, out)
      else
        (store out 0 [(a <<< 2) ||| (b >>> 4)]).map fun out => (.ok 1, out)
    else
      let c := decodeLut in2
      if c &&& 0x80 ≠ 0 then
        some (.error .invalidCharacter, out)
      else if p3 then
        if c &&& 0x03 ≠ 0 then
          some (.error .invalidPadding, out)
        else if out.length < 2 then
          some (.error .outputTooSmall, out)
        else
          (store out 0 [(a <<< 2) ||| (b >>> 4), (b <<< 4) ||| (c >>> 2)]).map fun out => (.ok 2, out)
      else
        let d := decodeLut in3
        if d &&& 0x80 ≠ 0 then
          some (.error .invalidCharacter, out)
        else if out.length < 3 then
          some (.error .outputTooSmall, out)
        else
          (store out 0 [(a <<< 2) ||| (b >>> 4), (b <<< 4) ||| (c >>> 2), (c <<< 6) ||| d]).map
            fun out => (.ok 3, out)

/-- The four characters that `encode` writes for one or two remaining bytes. -/
def encodeTail : List Byte → List Byte
  | [in0] =>
    let first : BitVec 32 := in0.setWidth 32
    [digit (first >>> 2), digit ((first &&& 3) <<< 4), pad, pad]
  | [in0, in1] =>
    let first : BitVec 32 := in0.setWidth 32
    let second : BitVec 32 := in1.setWidth 32
    [digit (first >>> 2), digit (((first &&& 3) <<< 4) ||| (second >>> 4)),
      digit ((second &&& 15) <<< 2), pad]
  | _ => []

def encode (out inp : List Byte) : Option (Except Error Nat × List Byte) :=
  if inp = [] then
    some (.ok 0, out)
  else
    match encodedSize inp.length with
    | .error e => some (.error e, out)
    | .ok required =>
      if out.length < required then
        some (.error .outputTooSmall, out)
      else
        (encodeBulk inp 0 out).bind fun (written, out) =>
          let remaining := inp.length % 3
          if remaining ≠ 0 then
            (store out written (encodeTail (inp.drop (inp.length - remaining)))).map
              fun out => (.ok required, out)
          else
            some (.ok required, out)

def decodeBody (out inp : List Byte) : Option (Except Error Nat × List Byte) :=
  let capacity := inp.length / 4 * 3
  if inp.getD (inp.length - 1) 0 ≠ pad then
    if inp.getD (inp.length - 2) 0 = pad then
      some (.error .invalidPadding, out)
    else if out.length < capacity then
      some (.error .outputTooSmall, out)
    else
      decodeBulk inp 0 out
  else
    match inp.drop (inp.length - 4) with
    | [in0, in1, in2, in3] =>
      (decodeTail [0, 0, 0] in0 in1 in2 in3).bind fun (tailSize, tail) =>
        match tailSize with
        | .error e => some (.error e, out)
        | .ok tailSize =>
          let bulkSize := capacity - 3
          let required := bulkSize + tailSize
          if out.length < required then
            some (.error .outputTooSmall, out)
          else
            (decodeBulk (inp.take (inp.length - 4)) 0 (out.take bulkSize)).bind
              fun (decoded, bulk) =>
                let out := bulk ++ out.drop bulkSize
                match decoded with
                | .error e => some (.error e, out)
                | .ok _ =>
                  (store out bulkSize (tail.take tailSize)).map fun out => (.ok required, out)
    | _ => none

def decode (out inp : List Byte) : Option (Except Error Nat × List Byte) :=
  if inp = [] then
    some (.ok 0, out)
  else if inp.length % 4 ≠ 0 then
    some (.error .invalidLength, out)
  else
    match inp with
    | [in0, in1, in2, in3] => decodeTail out in0 in1 in2 in3
    | inp => decodeBody out inp

/-- The Base64 encoding of a byte string: groups of four characters, and at the end
padding over bits that are zero. -/
def encodeText : List Byte → List Byte
  | in0 :: in1 :: in2 :: rest => encodeGroup in0 in1 in2 ++ encodeText rest
  | tail => encodeTail tail

theorem lut_pad : decodeLut pad = 0x80 := by decide

theorem byte_ext {v w : Byte} (h0 : v.getLsbD 0 = w.getLsbD 0) (h1 : v.getLsbD 1 = w.getLsbD 1)
    (h2 : v.getLsbD 2 = w.getLsbD 2) (h3 : v.getLsbD 3 = w.getLsbD 3)
    (h4 : v.getLsbD 4 = w.getLsbD 4) (h5 : v.getLsbD 5 = w.getLsbD 5)
    (h6 : v.getLsbD 6 = w.getLsbD 6) (h7 : v.getLsbD 7 = w.getLsbD 7) : v = w := by
  apply BitVec.eq_of_getLsbD_eq
  intro k hk
  interval_cases k <;> assumption

structure Sextet (v : Byte) : Prop where
  lt : v.toNat < 64

variable {v a b c d : Byte} {i : BitVec 32}

theorem index_ext {i j : BitVec 32} (hi : i.toNat < 64) (hj : j.toNat < 64)
    (h0 : i.getLsbD 0 = j.getLsbD 0) (h1 : i.getLsbD 1 = j.getLsbD 1)
    (h2 : i.getLsbD 2 = j.getLsbD 2) (h3 : i.getLsbD 3 = j.getLsbD 3)
    (h4 : i.getLsbD 4 = j.getLsbD 4) (h5 : i.getLsbD 5 = j.getLsbD 5) : i = j := by
  have hhigh : ∀ {i : BitVec 32} {k : Nat}, i.toNat < 2 ^ 6 → 6 ≤ k → i.getLsbD k = false :=
    fun h hk => Nat.testBit_lt_two_pow (Nat.lt_of_lt_of_le h (Nat.pow_le_pow_right (by decide) hk))
  apply BitVec.eq_of_getLsbD_eq
  intro k hk
  by_cases hlow : k < 6
  · interval_cases k <;> assumption
  · rw [hhigh hi (by omega), hhigh hj (by omega)]

theorem Sextet.index_lt (h : Sextet v) : (v.setWidth 32 : BitVec 32).toNat < 64 := by
  rw [BitVec.toNat_setWidth]
  exact Nat.lt_of_le_of_lt (Nat.mod_le _ _) h.lt

theorem Sextet.bits (h : Sextet v) : v[6] = false ∧ v[7] = false := by
  rw [← BitVec.getLsbD_eq_getElem, ← BitVec.getLsbD_eq_getElem]
  have hlt : v.toNat < 2 ^ 6 := h.lt
  exact ⟨Nat.testBit_lt_two_pow hlt, Nat.testBit_lt_two_pow (Nat.lt_trans hlt (by decide))⟩

theorem decodeLut_eq (c : Byte) : decodeLut c =
    ((List.range 64).reverse.find? fun i => alphabet.getD i 0 = c).elim 0x80 (BitVec.ofNat 8) := by
  refine Scan.get_foldl (g := fun table : Byte → Byte => table c) (I := fun _ => True)
    (p := fun i => decide (alphabet.getD i 0 = c)) (v := BitVec.ofNat 8) (fun _ _ _ => trivial)
    (fun table k _ => ?_) (List.range 64) trivial
  by_cases hc : c = alphabet.getD k 0
  · subst hc
    simp
  · rw [Function.update_of_ne hc, decide_eq_false (Ne.symm hc)]
    rfl

theorem alphabet_code : ∀ i < 64, (alphabet.getD i 0).toNat =
    if i < 26 then i + 65 else if i < 52 then i + 71 else if i < 62 then i - 4
    else if i = 62 then 43 else 47 := by decide

theorem alphabet_inj {i j : Nat} (hi : i < 64) (hj : j < 64)
    (h : alphabet.getD i 0 = alphabet.getD j 0) : i = j := by
  have hcode := congrArg BitVec.toNat h
  rw [alphabet_code i hi, alphabet_code j hj] at hcode
  split_ifs at hcode <;> omega

theorem lut_digit_index {i : Nat} (hi : i < 64) :
    decodeLut (alphabet.getD i 0) = BitVec.ofNat 8 i := by
  rw [decodeLut_eq]
  cases hf : (List.range 64).reverse.find? fun j => alphabet.getD j 0 = alphabet.getD i 0 with
  | none =>
    have hnone := List.find?_eq_none.mp hf i (by simpa using hi)
    simp at hnone
  | some k =>
    have hk : k < 64 := by simpa using List.mem_of_find?_eq_some hf
    have hdigit : alphabet.getD k 0 = alphabet.getD i 0 := by simpa using List.find?_some hf
    rw [alphabet_inj hk hi hdigit]
    rfl

theorem digit_lut (h : decodeLut c &&& 0x80 = 0) :
    Sextet (decodeLut c) ∧ digit ((decodeLut c).setWidth 32) = c := by
  rw [decodeLut_eq] at h ⊢
  cases hf : (List.range 64).reverse.find? fun i => alphabet.getD i 0 = c with
  | none =>
    rw [hf] at h
    exact absurd h (by decide)
  | some k =>
    have hk : k < 64 := by simpa using List.mem_of_find?_eq_some hf
    have hdigit : alphabet.getD k 0 = c := by simpa using List.find?_some hf
    have hnat : (BitVec.ofNat 8 k).toNat = k := by
      rw [BitVec.toNat_ofNat]
      exact Nat.mod_eq_of_lt (by omega)
    refine ⟨⟨by simpa [hnat] using hk⟩, ?_⟩
    rw [Option.elim_some, digit, BitVec.toNat_setWidth, hnat, Nat.mod_eq_of_lt (by omega)]
    exact hdigit

theorem lut_digit (h : i.toNat < 64) : decodeLut (digit i) = i.setWidth 8 := by
  rw [digit, lut_digit_index h]
  exact BitVec.ofNat_toNat 8 i

theorem sextet_setWidth (h : i.toNat < 64) : Sextet (i.setWidth 8) := by
  constructor
  rw [BitVec.toNat_setWidth]
  exact Nat.lt_of_le_of_lt (Nat.mod_le _ _) h

theorem Sextet.valid (h : Sextet v) : v &&& 0x80 = 0 := by
  apply BitVec.eq_of_getLsbD_eq
  intro k hk
  have h7 := h.bits.2
  interval_cases k <;> simp_all

theorem digit_ne_pad (h : i.toNat < 64) : digit i ≠ pad := by
  intro heq
  have hvalid := (sextet_setWidth h).valid
  rw [← lut_digit h, heq, lut_pad] at hvalid
  exact absurd hvalid (by decide)

theorem and63_lt (x : BitVec 32) : (x &&& 63).toNat < 64 := by
  rw [BitVec.toNat_and]
  exact Nat.lt_of_le_of_lt Nat.and_le_right (by decide)

theorem decodeGroup_digits (bits : BitVec 32) :
    decodeGroup (digit ((bits >>> 18) &&& 63)) (digit ((bits >>> 12) &&& 63))
      (digit ((bits >>> 6) &&& 63)) (digit (bits &&& 63)) =
        .ok [(bits >>> 16).setWidth 8, (bits >>> 8).setWidth 8, bits.setWidth 8] := by
  have hlut := fun x : BitVec 32 => lut_digit (and63_lt x)
  have hvalid : ((bits >>> 18 &&& 63).setWidth 8 ||| (bits >>> 12 &&& 63).setWidth 8 |||
      (bits >>> 6 &&& 63).setWidth 8 ||| (bits &&& 63).setWidth 8) &&& (0x80 : Byte) = 0 := by
    apply byte_ext <;> simp
  rw [decodeGroup]
  simp only [hlut]
  rw [if_neg (not_not.mpr hvalid)]
  simp only [Except.ok.injEq, List.cons.injEq, and_true]
  refine ⟨?_, ?_, ?_⟩
  · apply byte_ext <;> simp
  · apply byte_ext <;> simp
  · apply byte_ext <;> simp

theorem decodeGroup_encodeGroup (a b c : Byte) :
    ∃ p q r s, encodeGroup a b c = [p, q, r, s] ∧ decodeGroup p q r s = .ok [a, b, c] := by
  refine ⟨_, _, _, _, rfl, ?_⟩
  rw [decodeGroup_digits]
  simp only [Except.ok.injEq, List.cons.injEq, and_true]
  refine ⟨?_, ?_, ?_⟩
  · apply byte_ext <;> simp
  · apply byte_ext <;> simp
  · apply byte_ext <;> simp

theorem encodeGroup_sextets (ha : Sextet a) (hb : Sextet b) (hc : Sextet c) (hd : Sextet d) :
    encodeGroup ((a <<< 2) ||| (b >>> 4)) ((b <<< 4) ||| (c >>> 2)) ((c <<< 6) ||| d) =
      [digit (a.setWidth 32), digit (b.setWidth 32), digit (c.setWidth 32),
        digit (d.setWidth 32)] := by
  obtain ⟨ha6, ha7⟩ := ha.bits
  obtain ⟨hb6, hb7⟩ := hb.bits
  obtain ⟨hc6, hc7⟩ := hc.bits
  obtain ⟨hd6, hd7⟩ := hd.bits
  simp only [encodeGroup, List.cons.injEq, and_true]
  refine ⟨congrArg digit ?_, congrArg digit ?_, congrArg digit ?_, congrArg digit ?_⟩
  · apply index_ext (and63_lt _) ha.index_lt <;> simp [*]
  · apply index_ext (and63_lt _) hb.index_lt <;> simp [*]
  · apply index_ext (and63_lt _) hc.index_lt <;> simp [*]
  · apply index_ext (and63_lt _) hd.index_lt <;> simp [*]

theorem group_bytes (hb : Sextet b) (hc : Sextet c) (hd : Sextet d) :
    let bits : BitVec 32 := (a.setWidth 32 <<< 18) ||| (b.setWidth 32 <<< 12) |||
      (c.setWidth 32 <<< 6) ||| d.setWidth 32
    (bits >>> 16).setWidth 8 = (a <<< 2) ||| (b >>> 4) ∧
      (bits >>> 8).setWidth 8 = (b <<< 4) ||| (c >>> 2) ∧ bits.setWidth 8 = (c <<< 6) ||| d := by
  obtain ⟨hb6, hb7⟩ := hb.bits
  obtain ⟨hc6, hc7⟩ := hc.bits
  obtain ⟨hd6, hd7⟩ := hd.bits
  refine ⟨?_, ?_, ?_⟩
  · apply byte_ext <;> simp [*]
  · apply byte_ext <;> simp [*]
  · apply byte_ext <;> simp [*]

theorem or_and_eq_zero {x y m : Byte} : (x ||| y) &&& m = 0 ↔ x &&& m = 0 ∧ y &&& m = 0 := by
  have hsplit : (x ||| y) &&& m = (x &&& m) ||| (y &&& m) := by
    apply BitVec.eq_of_getLsbD_eq
    intro k hk
    simp [Bool.and_or_distrib_right]
  rw [hsplit]
  exact BitVec.or_eq_zero_iff

theorem decodeGroup_ok {in0 in1 in2 in3 : Byte} {bytes : List Byte}
    (h : decodeGroup in0 in1 in2 in3 = .ok bytes) :
    ∃ x y z, bytes = [x, y, z] ∧ encodeGroup x y z = [in0, in1, in2, in3] := by
  rw [decodeGroup] at h
  simp only at h
  split at h
  · cases h
  · rename_i hvalid
    cases h
    obtain ⟨hvalid, h3⟩ := or_and_eq_zero.mp (not_not.mp hvalid)
    obtain ⟨hvalid, h2⟩ := or_and_eq_zero.mp hvalid
    obtain ⟨h0, h1⟩ := or_and_eq_zero.mp hvalid
    obtain ⟨hs0, hd0⟩ := digit_lut h0
    obtain ⟨hs1, hd1⟩ := digit_lut h1
    obtain ⟨hs2, hd2⟩ := digit_lut h2
    obtain ⟨hs3, hd3⟩ := digit_lut h3
    refine ⟨_, _, _, rfl, ?_⟩
    obtain ⟨hx, hy, hz⟩ := @group_bytes (decodeLut in0) _ _ _ hs1 hs2 hs3
    rw [hx, hy, hz, encodeGroup_sextets hs0 hs1 hs2 hs3, hd0, hd1, hd2, hd3]

def give (out bytes : List Byte) : Option (Except Error Nat × List Byte) :=
  if bytes.length ≤ out.length then some (.ok bytes.length, memcpy out 0 bytes)
  else some (.error .outputTooSmall, out)

theorem store_zero {out bytes : List Byte} (h : bytes.length ≤ out.length) :
    store out 0 bytes = some (memcpy out 0 bytes) := by
  rw [store, if_pos (by omega)]

theorem lt_of_and63 (h : i &&& 63 = i) : i.toNat < 64 := h ▸ and63_lt i

theorem high_lt (x : Byte) : ((x.setWidth 32 : BitVec 32) >>> 2).toNat < 64 := by
  apply lt_of_and63
  apply BitVec.eq_of_getLsbD_eq
  intro k hk
  interval_cases k <;> simp

theorem low_lt (x : Byte) : (((x.setWidth 32 : BitVec 32) &&& 3) <<< 4).toNat < 64 := by
  apply lt_of_and63
  apply BitVec.eq_of_getLsbD_eq
  intro k hk
  interval_cases k <;> simp

theorem low_unused (x : Byte) :
    (((x.setWidth 32 : BitVec 32) &&& 3) <<< 4).setWidth 8 &&& (0x0f : Byte) = 0 := by
  apply byte_ext <;> simp

theorem decodeTail_one (x : Byte) : ∃ p q, encodeTail [x] = [p, q, pad, pad] ∧
    ∀ out, decodeTail out p q pad pad = give out [x] := by
  refine ⟨_, _, rfl, fun out => ?_⟩
  have hvalid := or_and_eq_zero.mpr
    ⟨(sextet_setWidth (high_lt x)).valid, (sextet_setWidth (low_lt x)).valid⟩
  have hbyte : (((x.setWidth 32 : BitVec 32) >>> 2).setWidth 8 <<< 2 |||
      (((x.setWidth 32 : BitVec 32) &&& 3) <<< 4).setWidth 8 >>> 4 : Byte) = x := by
    apply byte_ext <;> simp
  simp only [decodeTail, lut_digit (high_lt x), lut_digit (low_lt x), hbyte, hvalid,
    low_unused,
    decide_true, not_true, and_false, if_false, if_true, ne_eq, give, List.length_singleton]
  by_cases hout : out.length = 0
  · rw [if_pos hout, if_neg (by omega)]
  · have hfits : [x].length ≤ out.length := Nat.pos_of_ne_zero hout
    rw [if_neg hout, if_pos (by omega), store_zero hfits]
    rfl

theorem middle_lt (x y : Byte) : ((((x.setWidth 32 : BitVec 32) &&& 3) <<< 4) |||
    ((y.setWidth 32 : BitVec 32) >>> 4)).toNat < 64 := by
  apply lt_of_and63
  apply BitVec.eq_of_getLsbD_eq
  intro k hk
  interval_cases k <;> simp

theorem last_lt (y : Byte) : (((y.setWidth 32 : BitVec 32) &&& 15) <<< 2).toNat < 64 := by
  apply lt_of_and63
  apply BitVec.eq_of_getLsbD_eq
  intro k hk
  interval_cases k <;> simp

theorem last_unused (y : Byte) :
    (((y.setWidth 32 : BitVec 32) &&& 15) <<< 2).setWidth 8 &&& (0x03 : Byte) = 0 := by
  apply byte_ext <;> simp

theorem decodeTail_two (x y : Byte) : ∃ p q r, encodeTail [x, y] = [p, q, r, pad] ∧ r ≠ pad ∧
    ∀ out, decodeTail out p q r pad = give out [x, y] := by
  refine ⟨_, _, _, rfl, digit_ne_pad (last_lt y), fun out => ?_⟩
  have hvalid := or_and_eq_zero.mpr
    ⟨(sextet_setWidth (high_lt x)).valid, (sextet_setWidth (middle_lt x y)).valid⟩
  have hfirst : (((x.setWidth 32 : BitVec 32) >>> 2).setWidth 8 <<< 2 |||
      ((((x.setWidth 32 : BitVec 32) &&& 3) <<< 4) |||
        ((y.setWidth 32 : BitVec 32) >>> 4)).setWidth 8 >>> 4 : Byte) = x := by
    apply byte_ext <;> simp
  have hsecond : (((((x.setWidth 32 : BitVec 32) &&& 3) <<< 4) |||
        ((y.setWidth 32 : BitVec 32) >>> 4)).setWidth 8 <<< 4 |||
      (((y.setWidth 32 : BitVec 32) &&& 15) <<< 2).setWidth 8 >>> 2 : Byte) = y := by
    apply byte_ext <;> simp
  simp only [decodeTail, lut_digit (high_lt x), lut_digit (middle_lt x y), lut_digit (last_lt y),
    hfirst, hsecond, hvalid, last_unused, (sextet_setWidth (last_lt y)).valid,
    decide_eq_false (digit_ne_pad (last_lt y)), decide_true, Bool.false_eq_true, false_and,
    not_true, if_false, if_true, ne_eq, give, List.length_cons, List.length_nil]
  by_cases hout : out.length < 2
  · rw [if_pos hout, if_neg (by omega)]
  · rw [if_neg hout, if_pos (by omega), store_zero (Nat.le_of_not_lt hout)]
    rfl

theorem low_bits (h : b &&& 0x0f = 0) : b[0] = false ∧ b[1] = false ∧ b[2] = false ∧ b[3] = false := by
  have hbit := fun k => congrArg (fun v : Byte => v.getLsbD k) h
  have h0 := hbit 0
  have h1 := hbit 1
  have h2 := hbit 2
  have h3 := hbit 3
  simp at h0 h1 h2 h3
  exact ⟨h0, h1, h2, h3⟩

theorem encodeTail_one (ha : Sextet a) (hb : Sextet b) (h : b &&& 0x0f = 0) :
    encodeTail [(a <<< 2) ||| (b >>> 4)] =
      [digit (a.setWidth 32), digit (b.setWidth 32), pad, pad] := by
  obtain ⟨ha6, ha7⟩ := ha.bits
  obtain ⟨hb6, hb7⟩ := hb.bits
  obtain ⟨hb0, hb1, hb2, hb3⟩ := low_bits h
  simp only [encodeTail, List.cons.injEq, and_true]
  refine ⟨congrArg digit ?_, congrArg digit ?_⟩
  · apply index_ext (high_lt _) ha.index_lt <;> simp [*]
  · apply index_ext (low_lt _) hb.index_lt <;> simp [*]

theorem encodeTail_two (ha : Sextet a) (hb : Sextet b) (hc : Sextet c) (h : c &&& 0x03 = 0) :
    encodeTail [(a <<< 2) ||| (b >>> 4), (b <<< 4) ||| (c >>> 2)] =
      [digit (a.setWidth 32), digit (b.setWidth 32), digit (c.setWidth 32), pad] := by
  obtain ⟨ha6, ha7⟩ := ha.bits
  obtain ⟨hb6, hb7⟩ := hb.bits
  obtain ⟨hc6, hc7⟩ := hc.bits
  have hbit := fun k => congrArg (fun v : Byte => v.getLsbD k) h
  have hc0 := hbit 0
  have hc1 := hbit 1
  simp at hc0 hc1
  simp only [encodeTail, List.cons.injEq, and_true]
  refine ⟨congrArg digit ?_, congrArg digit ?_, congrArg digit ?_⟩
  · apply index_ext (high_lt _) ha.index_lt <;> simp [*]
  · apply index_ext (middle_lt _ _) hb.index_lt <;> simp [*]
  · apply index_ext (last_lt _) hc.index_lt <;> simp [*]

theorem decodeTail_three (x y z : Byte) :
    ∃ p q r s, encodeGroup x y z = [p, q, r, s] ∧ r ≠ pad ∧ s ≠ pad ∧
      ∀ out, decodeTail out p q r s = give out [x, y, z] := by
  refine ⟨_, _, _, _, rfl, digit_ne_pad (and63_lt _), digit_ne_pad (and63_lt _), fun out => ?_⟩
  generalize hbits : (x.setWidth 32 <<< 16 ||| y.setWidth 32 <<< 8 ||| z.setWidth 32 : BitVec 32) =
    bits
  have hlut := fun i : BitVec 32 => lut_digit (and63_lt i)
  have hvalid := fun i : BitVec 32 => (sextet_setWidth (and63_lt i)).valid
  have hfirst : ((bits >>> 18 &&& 63).setWidth 8 <<< 2 |||
      (bits >>> 12 &&& 63).setWidth 8 >>> 4 : Byte) = x := by
    subst hbits
    apply byte_ext <;> simp
  have hsecond : ((bits >>> 12 &&& 63).setWidth 8 <<< 4 |||
      (bits >>> 6 &&& 63).setWidth 8 >>> 2 : Byte) = y := by
    subst hbits
    apply byte_ext <;> simp
  have hthird : ((bits >>> 6 &&& 63).setWidth 8 <<< 6 ||| (bits &&& 63).setWidth 8 : Byte) = z := by
    subst hbits
    apply byte_ext <;> simp
  have hpair := or_and_eq_zero.mpr ⟨hvalid (bits >>> 18), hvalid (bits >>> 12)⟩
  simp only [decodeTail, hlut, hfirst, hsecond, hthird, hvalid, hpair,
    fun i : BitVec 32 => decide_eq_false (digit_ne_pad (and63_lt i)), Bool.false_eq_true,
    false_and, not_true, if_false, ne_eq, give, List.length_cons, List.length_nil]
  by_cases hout : out.length < 3
  · rw [if_pos hout, if_neg (by omega)]
  · rw [if_neg hout, if_pos (by omega), store_zero (Nat.le_of_not_lt hout)]
    rfl

/-- The last group of a text: an encoding of at most three bytes, or refused
whatever the output -/
theorem decodeTail_cases (in0 in1 in2 in3 : Byte) :
    (∃ x bytes, encodeText (x :: bytes) = [in0, in1, in2, in3] ∧ bytes.length < 3 ∧
      ∀ out, decodeTail out in0 in1 in2 in3 = give out (x :: bytes)) ∨
    ∃ e, ∀ out, decodeTail out in0 in1 in2 in3 = some (.error e, out) := by
  by_cases hpadding : in2 = pad ∧ in3 ≠ pad
  · refine .inr ⟨.invalidPadding, fun out => ?_⟩
    simp [decodeTail, hpadding]
  by_cases hvalid : (decodeLut in0 ||| decodeLut in1) &&& 0x80 = 0
  · obtain ⟨hv0, hv1⟩ := or_and_eq_zero.mp hvalid
    obtain ⟨h0, hd0⟩ := digit_lut hv0
    obtain ⟨h1, hd1⟩ := digit_lut hv1
    by_cases h2 : in2 = pad
    · have h3 : in3 = pad := by
        by_contra h3
        exact hpadding ⟨h2, h3⟩
      subst h2 h3
      by_cases hunused : decodeLut in1 &&& 0x0f = 0
      · have htail := encodeTail_one h0 h1 hunused
        rw [hd0, hd1] at htail
        obtain ⟨p, q, hpq, hgive⟩ := decodeTail_one (decodeLut in0 <<< 2 ||| decodeLut in1 >>> 4)
        rw [htail] at hpq
        cases hpq
        exact .inl ⟨_, [], htail, by simp, hgive⟩
      · refine .inr ⟨.invalidPadding, fun out => ?_⟩
        simp only [decodeTail, hvalid, hunused, decide_true, not_true, and_false, if_false, if_true,
          ne_eq, not_false_eq_true]
    · by_cases hv2 : decodeLut in2 &&& 0x80 = 0
      · obtain ⟨hs2, hd2⟩ := digit_lut hv2
        by_cases h3 : in3 = pad
        · subst h3
          by_cases hunused : decodeLut in2 &&& 0x03 = 0
          · have htail := encodeTail_two h0 h1 hs2 hunused
            rw [hd0, hd1, hd2] at htail
            obtain ⟨p, q, r, hpqr, -, hgive⟩ := decodeTail_two
              (decodeLut in0 <<< 2 ||| decodeLut in1 >>> 4)
              (decodeLut in1 <<< 4 ||| decodeLut in2 >>> 2)
            rw [htail] at hpqr
            cases hpqr
            exact .inl ⟨_, [_], htail, by simp, hgive⟩
          · refine .inr ⟨.invalidPadding, fun out => ?_⟩
            simp only [decodeTail, hvalid, decide_eq_false h2, hv2, hunused, decide_true,
              Bool.false_eq_true, false_and, not_true, if_false, if_true, ne_eq, not_false_eq_true]
        · by_cases hv3 : decodeLut in3 &&& 0x80 = 0
          · obtain ⟨hs3, hd3⟩ := digit_lut hv3
            have hgroup := encodeGroup_sextets h0 h1 hs2 hs3
            rw [hd0, hd1, hd2, hd3] at hgroup
            obtain ⟨p, q, r, s, hpqrs, -, -, hgive⟩ := decodeTail_three
              (decodeLut in0 <<< 2 ||| decodeLut in1 >>> 4)
              (decodeLut in1 <<< 4 ||| decodeLut in2 >>> 2) (decodeLut in2 <<< 6 ||| decodeLut in3)
            rw [hgroup] at hpqrs
            cases hpqrs
            exact .inl ⟨_, [_, _], by simpa [encodeText, encodeTail] using hgroup, by simp, hgive⟩
          · refine .inr ⟨.invalidCharacter, fun out => ?_⟩
            simp only [decodeTail, hvalid, decide_eq_false h2, hv2, decide_eq_false h3, hv3,
              Bool.false_eq_true, false_and, not_true, if_false, if_true, ne_eq, not_false_eq_true]
      · refine .inr ⟨.invalidCharacter, fun out => ?_⟩
        simp only [decodeTail, hvalid, decide_eq_false h2, hv2, Bool.false_eq_true, false_and,
          not_true, if_false, if_true, ne_eq, not_false_eq_true]
  · refine .inr ⟨.invalidCharacter, fun out => ?_⟩
    rw [decodeTail]
    simp only [decide_eq_true_eq]
    rw [if_neg hpadding, if_pos hvalid]

variable {out text x bytes : List Byte} {pos : Nat}

theorem store_ok (h : pos + bytes.length ≤ out.length) :
    store out pos bytes = some (memcpy out pos bytes) := if_pos h

theorem length_encodeText (bytes : List Byte) :
    (encodeText bytes).length = (bytes.length / 3 + if bytes.length % 3 ≠ 0 then 1 else 0) * 4 := by
  induction bytes using encodeText.induct with
  | case1 in0 in1 in2 rest ih =>
    rw [encodeText, List.length_append, ih]
    simp only [encodeGroup, List.length_cons, List.length_nil]
    split <;> split <;> omega
  | case2 tail h =>
    match tail, h with
    | [], _ => rfl
    | [_], _ => simp [encodeText, encodeTail]
    | [_, _], _ => simp [encodeText, encodeTail]
    | _ :: _ :: _ :: _, h => exact absurd rfl (h _ _ _ _)

theorem encodeText_append (h : 3 ∣ bytes.length) :
    encodeText (bytes ++ x) = encodeText bytes ++ encodeText x := by
  induction bytes using encodeText.induct with
  | case1 in0 in1 in2 rest ih =>
    rw [List.cons_append, List.cons_append, List.cons_append, encodeText, encodeText,
      ih (by simp only [List.length_cons] at h; omega), List.append_assoc]
  | case2 tail ht =>
    match tail, ht, h with
    | [], _, _ => rfl
    | [_], _, h => exact absurd h (by simp)
    | [_, _], _, h => exact absurd h (by simp)
    | _ :: _ :: _ :: _, ht, _ => exact absurd rfl (ht _ _ _ _)

theorem encodeBulk_spec (h : pos + bytes.length / 3 * 4 ≤ out.length) :
    ∃ bulk, encodeText bytes = bulk ++ encodeTail (bytes.drop (bytes.length - bytes.length % 3)) ∧
      bulk.length = bytes.length / 3 * 4 ∧
      encodeBulk bytes pos out = some (pos + bulk.length, memcpy out pos bulk) := by
  induction bytes using encodeText.induct generalizing pos out with
  | case1 in0 in1 in2 rest ih =>
    simp only [List.length_cons] at h
    have hgroup : (encodeGroup in0 in1 in2).length = 4 := rfl
    have hstore := @store_ok out (encodeGroup in0 in1 in2) pos (by omega)
    obtain ⟨bulk, htext, hlen, hbulk⟩ := @ih (memcpy out pos (encodeGroup in0 in1 in2)) (pos + 4)
      (by rw [length_memcpy (by omega)]; omega)
    refine ⟨encodeGroup in0 in1 in2 ++ bulk, ?_, ?_, ?_⟩
    · have hdrop : (in0 :: in1 :: in2 :: rest).length - (in0 :: in1 :: in2 :: rest).length % 3 =
          (rest.length - rest.length % 3) + 3 := by
        simp only [List.length_cons]
        omega
      rw [encodeText, htext, List.append_assoc, hdrop]
      rfl
    · simp only [List.length_append, List.length_cons, hgroup, hlen]
      omega
    · rw [encodeBulk, hstore, Option.bind_some, hbulk]
      have htwo := @memcpy_memcpy _ out (encodeGroup in0 in1 in2) bulk pos (by omega)
      rw [hgroup] at htwo
      rw [htwo, List.length_append, hgroup, Nat.add_assoc]
  | case2 tail ht =>
    match tail, ht with
    | [], _ => exact ⟨[], rfl, rfl, by simp [encodeBulk, memcpy]⟩
    | [_], _ => exact ⟨[], rfl, by simp, by simp [encodeBulk, memcpy]⟩
    | [_, _], _ => exact ⟨[], rfl, by simp, by simp [encodeBulk, memcpy]⟩
    | _ :: _ :: _ :: _, ht => exact absurd rfl (ht _ _ _ _)

theorem encodedSize_eq (n : Nat) : encodedSize n =
    let size := (n / 3 + if n % 3 ≠ 0 then 1 else 0) * 4
    if SIZE_MAX < size then .error .inputTooLarge else .ok size := by
  simp only [encodedSize, SIZE_MAX]
  split <;> split <;> split <;> first | rfl | omega

theorem length_encodeTail (h : bytes ≠ []) (hlt : bytes.length < 3) :
    (encodeTail bytes).length = 4 := by
  match bytes, h, hlt with
  | [_], _, _ => rfl
  | [_, _], _, _ => rfl

theorem encode_spec (out x : List Byte) : encode out x =
    some (if SIZE_MAX < (encodeText x).length then (.error .inputTooLarge, out)
      else if out.length < (encodeText x).length then (.error .outputTooSmall, out)
      else (.ok (encodeText x).length, memcpy out 0 (encodeText x))) := by
  rw [encode]
  by_cases hx : x = []
  · subst hx
    simp [encodeText, encodeTail, memcpy]
  rw [if_neg hx, encodedSize_eq, length_encodeText]
  simp only
  by_cases hsize : SIZE_MAX < (x.length / 3 + if x.length % 3 ≠ 0 then 1 else 0) * 4
  · rw [if_pos hsize, if_pos hsize]
  rw [if_neg hsize, if_neg hsize]
  simp only
  by_cases hfit : out.length < (x.length / 3 + if x.length % 3 ≠ 0 then 1 else 0) * 4
  · rw [if_pos hfit, if_pos hfit]
  rw [if_neg hfit, if_neg hfit]
  obtain ⟨bulk, htext, hlen, hbulk⟩ := @encodeBulk_spec out x 0 (by omega)
  rw [hbulk, Option.bind_some, htext]
  simp only [Nat.zero_add]
  by_cases hrest : x.length % 3 = 0
  · have htail : encodeTail (x.drop (x.length - x.length % 3)) = [] := by
      rw [hrest, Nat.sub_zero, List.drop_length]
      rfl
    rw [if_neg (by omega), htail, List.append_nil]
  · have htail : (encodeTail (x.drop (x.length - x.length % 3))).length = 4 := by
      apply length_encodeTail
      · rw [Ne, List.drop_eq_nil_iff]
        omega
      · rw [List.length_drop]
        omega
    have htwo := @memcpy_memcpy _ out bulk (encodeTail (x.drop (x.length - x.length % 3))) 0
      (by omega)
    rw [Nat.zero_add] at htwo
    rw [if_pos hrest, store_ok (by rw [length_memcpy (by omega), htail]; split at hfit <;> omega),
      htwo]
    rfl

theorem decodeBulk_encodeText (h3 : 3 ∣ bytes.length) (h : pos + bytes.length ≤ out.length) :
    decodeBulk (encodeText bytes) pos out =
      some (.ok (pos + bytes.length), memcpy out pos bytes) := by
  induction bytes using encodeText.induct generalizing pos out with
  | case1 in0 in1 in2 rest ih =>
    simp only [List.length_cons] at h h3
    obtain ⟨p, q, r, s, hgroup, hdecode⟩ := decodeGroup_encodeGroup in0 in1 in2
    have hfits : pos + [in0, in1, in2].length ≤ out.length := by
      simp only [List.length_cons, List.length_nil]
      omega
    have hlen := length_memcpy hfits
    have hrest := @ih (memcpy out pos [in0, in1, in2]) (pos + 3) (by omega) (by omega)
    have htwo := @memcpy_memcpy _ out [in0, in1, in2] rest pos (by omega)
    rw [encodeText, hgroup]
    simp only [List.cons_append, List.nil_append, decodeBulk, hdecode, store_ok hfits,
      Option.bind_some]
    rw [hrest, List.length_cons, List.length_cons, List.length_cons]
    simp only [List.length_cons, List.length_nil, Nat.zero_add, List.cons_append,
      List.nil_append] at htwo
    rw [htwo]
    simp only [Option.some.injEq, Prod.mk.injEq, Except.ok.injEq, and_true]
    omega
  | case2 tail ht =>
    match tail, ht, h3 with
    | [], _, _ => simp [encodeText, encodeTail, decodeBulk, memcpy]
    | [_], _, h => exact absurd h (by simp)
    | [_, _], _, h => exact absurd h (by simp)
    | _ :: _ :: _ :: _, ht, _ => exact absurd rfl (ht _ _ _ _)

theorem decodeBulk_cases (h4 : 4 ∣ text.length) (h : pos + text.length / 4 * 3 ≤ out.length) :
    (∃ bytes, 3 ∣ bytes.length ∧ encodeText bytes = text) ∨
      ∃ e out', decodeBulk text pos out = some (.error e, out') ∧ out'.length = out.length := by
  induction text, pos, out using decodeBulk.induct with
  | case1 in0 in1 in2 in3 rest pos out e hgroup =>
    refine .inr ⟨e, out, ?_, rfl⟩
    rw [decodeBulk, hgroup]
  | case2 in0 in1 in2 in3 rest pos out group hgroup ih =>
    obtain ⟨x, y, z, rfl, hencode⟩ := decodeGroup_ok hgroup
    simp only [List.length_cons] at h h4
    have hfits : pos + [x, y, z].length ≤ out.length := by
      simp only [List.length_cons, List.length_nil]
      omega
    have hlen := length_memcpy hfits
    obtain ⟨bytes, h3, hbytes⟩ | ⟨e, out', hrest, hout⟩ :=
      ih (memcpy out pos [x, y, z]) (by omega) (by rw [hlen]; omega)
    · refine .inl ⟨x :: y :: z :: bytes, ?_, ?_⟩
      · simp only [List.length_cons]
        omega
      · rw [encodeText, hencode, hbytes]
        rfl
    · refine .inr ⟨e, out', ?_, hout.trans hlen⟩
      rw [decodeBulk, hgroup]
      simp only [store_ok hfits, Option.bind_some, hrest]
  | case3 text pos out ht =>
    match text, ht, h4 with
    | [], _, _ => exact .inl ⟨[], by simp, rfl⟩
    | [_], _, h => exact absurd h (by simp)
    | [_, _], _, h => exact absurd h (by simp)
    | [_, _, _], _, h => exact absurd h (by simp)
    | _ :: _ :: _ :: _ :: _, ht, _ => exact absurd rfl (ht _ _ _ _ _)

theorem split_last (h : bytes ≠ []) : ∃ front tail, bytes = front ++ tail ∧ 3 ∣ front.length ∧
    tail ≠ [] ∧ tail.length ≤ 3 := by
  have hpos := List.length_pos_iff.mpr h
  refine ⟨bytes.take ((bytes.length - 1) / 3 * 3), bytes.drop ((bytes.length - 1) / 3 * 3),
    (List.take_append_drop _ _).symm, ?_, ?_, ?_⟩
  · rw [List.length_take]
    omega
  · rw [Ne, List.drop_eq_nil_iff]
    omega
  · rw [List.length_drop]
    omega

theorem decodeTail_encodeText (h : bytes ≠ []) (hle : bytes.length ≤ 3) :
    ∃ p q r s, encodeText bytes = [p, q, r, s] ∧ (s = pad ↔ bytes.length ≠ 3) ∧
      (r = pad → s = pad) ∧ ∀ out, decodeTail out p q r s = give out bytes := by
  match bytes, h, hle with
  | [x], _, _ =>
    obtain ⟨p, q, htext, hgive⟩ := decodeTail_one x
    exact ⟨p, q, pad, pad, htext, by simp, fun _ => rfl, hgive⟩
  | [x, y], _, _ =>
    obtain ⟨p, q, r, htext, hr, hgive⟩ := decodeTail_two x y
    exact ⟨p, q, r, pad, htext, by simp, fun _ => rfl, hgive⟩
  | [x, y, z], _, _ =>
    obtain ⟨p, q, r, s, htext, hr, hs, hgive⟩ := decodeTail_three x y z
    exact ⟨p, q, r, s, by rw [encodeText, htext]; rfl, by simp [hs], fun h => absurd h hr, hgive⟩

theorem ends (front : List Byte) (p q r s : Byte) :
    (front ++ [p, q, r, s]).getD ((front ++ [p, q, r, s]).length - 1) 0 = s ∧
      (front ++ [p, q, r, s]).getD ((front ++ [p, q, r, s]).length - 2) 0 = r ∧
      (front ++ [p, q, r, s]).drop ((front ++ [p, q, r, s]).length - 4) = [p, q, r, s] ∧
      (front ++ [p, q, r, s]).take ((front ++ [p, q, r, s]).length - 4) = front := by
  refine ⟨?_, ?_, ?_, ?_⟩
  · simp [List.getD_eq_getElem?_getD]
  · simp [List.getD_eq_getElem?_getD]
  · simp
  · simp

theorem give_append {front tail : List Byte} (h : front.length + tail.length ≤ out.length) :
    store (memcpy (out.take front.length) 0 front ++ out.drop front.length) front.length tail =
      some (memcpy out 0 (front ++ tail)) := by
  have hfront : memcpy (out.take front.length) 0 front ++ out.drop front.length =
      memcpy out 0 front := by
    simp [memcpy]
  have htwo := @memcpy_memcpy _ out front tail 0 (by omega)
  rw [Nat.zero_add] at htwo
  rw [hfront, store_ok (by rw [length_memcpy (by omega)]; omega), htwo]

theorem decodeBody_encodeText {front tail : List Byte} {p q r s : Byte} (h3 : 3 ∣ front.length)
    (hle : tail.length ≤ 3) (htext : encodeText tail = [p, q, r, s])
    (hpad : s = pad ↔ tail.length ≠ 3) (hlast : r = pad → s = pad)
    (htail : ∀ out, decodeTail out p q r s = give out tail) :
    decodeBody out (encodeText front ++ [p, q, r, s]) = give out (front ++ tail) := by
  obtain ⟨hs, hr, hdrop, htake⟩ := ends (encodeText front) p q r s
  have hlen : (encodeText front ++ [p, q, r, s]).length / 4 * 3 = front.length + 3 := by
    rw [List.length_append, length_encodeText]
    simp only [List.length_cons, List.length_nil]
    split <;> omega
  rw [decodeBody]
  simp only [hs, hr, hdrop, htake, hlen]
  by_cases hthree : tail.length = 3
  · have hs' : s ≠ pad := fun h => hpad.mp h hthree
    rw [if_pos hs', if_neg fun h => hs' (hlast h), give, List.length_append, hthree]
    by_cases hfit : out.length < front.length + 3
    · rw [if_pos hfit, if_neg (by omega)]
    · have hbulk := @decodeBulk_encodeText out (front ++ tail) 0
        (by rw [List.length_append]; omega) (by rw [List.length_append]; omega)
      rw [encodeText_append h3, htext, List.length_append, hthree, Nat.zero_add] at hbulk
      rw [if_neg hfit, if_pos (by omega), hbulk]
  · have hcopy : (memcpy [0, 0, 0] 0 tail : List Byte).take tail.length = tail := by
      simp [memcpy]
    have hgive : give [0, 0, 0] tail = some (.ok tail.length, memcpy [0, 0, 0] 0 tail) :=
      if_pos hle
    rw [if_neg (not_not.mpr (hpad.mpr hthree)), htail, hgive, Option.bind_some]
    simp only [Nat.add_sub_cancel, give, List.length_append]
    by_cases hfit : out.length < front.length + tail.length
    · rw [if_pos hfit, if_neg (by omega)]
    · have hbulk := @decodeBulk_encodeText (out.take front.length) front 0 h3
        (by rw [List.length_take]; omega)
      rw [if_neg hfit, if_pos (by omega), hbulk, Option.bind_some]
      simp only
      rw [hcopy, give_append (by omega)]
      rfl

theorem decode_four (out : List Byte) (p q r s : Byte) :
    decode out [p, q, r, s] = decodeTail out p q r s := by
  simp [decode]

theorem decode_long (out : List Byte) (h4 : 4 ∣ text.length) (hlt : 4 < text.length) :
    decode out text = decodeBody out text := by
  have hne : text ≠ [] := by
    intro h
    simp [h] at hlt
  rw [decode, if_neg hne, if_neg (not_not.mpr (Nat.mod_eq_zero_of_dvd h4))]
  intro p q r s h
  simp [h] at hlt

theorem decode_encodeText (out x : List Byte) : decode out (encodeText x) = give out x := by
  by_cases hx : x = []
  · subst hx
    simp [encodeText, encodeTail, decode, give, memcpy]
  obtain ⟨front, tail, rfl, h3, hne, hle⟩ := split_last hx
  obtain ⟨p, q, r, s, htext, hpad, hlast, htail⟩ := decodeTail_encodeText hne hle
  rw [encodeText_append h3, htext]
  by_cases hfront : front = []
  · subst hfront
    exact (decode_four out p q r s).trans (htail out)
  · have hpos := List.length_pos_iff.mpr hfront
    have hlen : (encodeText front ++ [p, q, r, s]).length = front.length / 3 * 4 + 4 := by
      rw [List.length_append, length_encodeText, Nat.mod_eq_zero_of_dvd h3]
      rfl
    rw [decode_long out (by omega) (by omega)]
    exact decodeBody_encodeText h3 hle htext hpad hlast htail

theorem encodeText_inj {y : List Byte} (h : encodeText x = encodeText y) : x = y := by
  have hx := decode_encodeText (List.replicate (x.length + y.length) 0) x
  have hy := decode_encodeText (List.replicate (x.length + y.length) 0) y
  rw [give, List.length_replicate, if_pos (by omega)] at hx hy
  rw [h, hy] at hx
  simp only [Option.some.injEq, Prod.mk.injEq, Except.ok.injEq] at hx
  have hcopy := congrArg (List.take x.length) hx.2
  simpa [memcpy, hx.1] using hcopy.symm

theorem decodeBody_refused {front : List Byte} {p q r s : Byte} (h4 : 4 ∣ front.length)
    (hno : ¬ ∃ x, encodeText x = front ++ [p, q, r, s]) (out : List Byte) :
    ∃ e out', decodeBody out (front ++ [p, q, r, s]) = some (.error e, out') ∧
      out'.length = out.length := by
  obtain ⟨hs, hr, hdrop, htake⟩ := ends front p q r s
  have hlen : (front ++ [p, q, r, s]).length / 4 * 3 = front.length / 4 * 3 + 3 := by
    simp only [List.length_append, List.length_cons, List.length_nil]
    omega
  rw [decodeBody]
  simp only [hs, hr, hdrop, htake, hlen]
  by_cases hpad : s = pad
  · rw [if_neg (not_not.mpr hpad)]
    obtain ⟨x, bytes, htail, hlt, hgive⟩ | ⟨e, htail⟩ := decodeTail_cases p q r s
    · have hthree : give [0, 0, 0] (x :: bytes) =
          some (.ok (bytes.length + 1), memcpy [0, 0, 0] 0 (x :: bytes)) := if_pos hlt
      rw [hgive, hthree, Option.bind_some]
      simp only [Nat.add_sub_cancel]
      by_cases hfit : out.length < front.length / 4 * 3 + (bytes.length + 1)
      · exact ⟨.outputTooSmall, out, if_pos hfit, rfl⟩
      rw [if_neg hfit]
      obtain ⟨y, h3, hfront⟩ | ⟨e, out', hbulk, hout⟩ :=
        @decodeBulk_cases (out.take (front.length / 4 * 3)) front 0 h4
          (by rw [List.length_take]; omega)
      · exact absurd ⟨y ++ x :: bytes, by rw [encodeText_append h3, hfront, htail]⟩ hno
      · refine ⟨e, out' ++ out.drop (front.length / 4 * 3), ?_, ?_⟩
        · rw [hbulk, Option.bind_some]
        · rw [List.length_append, hout, ← List.length_append, List.take_append_drop]
    · rw [htail, Option.bind_some]
      exact ⟨e, out, rfl, rfl⟩
  · rw [if_pos hpad]
    by_cases hr : r = pad
    · exact ⟨.invalidPadding, out, if_pos hr, rfl⟩
    rw [if_neg hr]
    by_cases hfit : out.length < front.length / 4 * 3 + 3
    · exact ⟨.outputTooSmall, out, if_pos hfit, rfl⟩
    rw [if_neg hfit]
    obtain ⟨y, h3, htext⟩ | hbulk := @decodeBulk_cases out (front ++ [p, q, r, s]) 0
      (by simpa using h4) (by omega)
    · exact absurd ⟨y, htext⟩ hno
    · exact hbulk

theorem decode_refused (hno : ¬ ∃ x, encodeText x = text) (out : List Byte) :
    ∃ e out', decode out text = some (.error e, out') ∧ out'.length = out.length := by
  have hnil : text ≠ [] := fun h => hno ⟨[], h.symm⟩
  by_cases h4 : 4 ∣ text.length
  · obtain ⟨front, p, q, r, s, rfl⟩ : ∃ front p q r s, text = front ++ [p, q, r, s] := by
      have hpos := List.length_pos_iff.mpr hnil
      have hdrop : (text.drop (text.length - 4)).length = 4 := by
        rw [List.length_drop]
        omega
      match hlast : text.drop (text.length - 4), hdrop with
      | [p, q, r, s], _ =>
        exact ⟨text.take (text.length - 4), p, q, r, s, by rw [← hlast, List.take_append_drop]⟩
    by_cases hfront : front = []
    · subst hfront
      obtain ⟨x, bytes, htail, -, -⟩ | ⟨e, htail⟩ := decodeTail_cases p q r s
      · exact absurd ⟨x :: bytes, htail⟩ hno
      · exact ⟨e, out, (decode_four out p q r s).trans (htail out), rfl⟩
    · have hpos := List.length_pos_iff.mpr hfront
      rw [decode_long out h4 (by simpa using hpos)]
      exact decodeBody_refused (by simpa using h4) hno out
  · refine ⟨.invalidLength, out, ?_, rfl⟩
    rw [decode, if_neg hnil, if_pos fun h => h4 (Nat.dvd_of_mod_eq_zero h)]
    intro p q r s h
    simp [h] at h4

/-- A canonical text: digits of the alphabet in groups of four, padding only in the
last group and only over bits that are zero -/
inductive Canonical : List Byte → Prop where
  | nil : Canonical []
  | group {a b c d : Byte} {rest : List Byte} (ha : Sextet a) (hb : Sextet b) (hc : Sextet c)
      (hd : Sextet d) (hrest : Canonical rest) :
      Canonical (digit (a.setWidth 32) :: digit (b.setWidth 32) :: digit (c.setWidth 32) ::
        digit (d.setWidth 32) :: rest)
  | one {a b : Byte} (ha : Sextet a) (hb : Sextet b) (hunused : b &&& 0x0f = 0) :
      Canonical [digit (a.setWidth 32), digit (b.setWidth 32), pad, pad]
  | two {a b c : Byte} (ha : Sextet a) (hb : Sextet b) (hc : Sextet c) (hunused : c &&& 0x03 = 0) :
      Canonical [digit (a.setWidth 32), digit (b.setWidth 32), digit (c.setWidth 32), pad]

theorem digit_back (h : i.toNat < 64) : digit ((i.setWidth 8).setWidth 32) = digit i := by
  rw [digit, digit, BitVec.toNat_setWidth, BitVec.toNat_setWidth]
  congr 1
  omega

theorem canonical_encodeText (x : List Byte) : Canonical (encodeText x) := by
  induction x using encodeText.induct with
  | case1 in0 in1 in2 rest ih =>
    have hdigit := fun i : BitVec 32 => sextet_setWidth (and63_lt i)
    have hgroup := fun i j k l => Canonical.group (hdigit i) (hdigit j) (hdigit k) (hdigit l) ih
    simp only [digit_back (and63_lt _)] at hgroup
    exact hgroup _ _ _ _
  | case2 tail ht =>
    match tail, ht with
    | [], _ => exact .nil
    | [x], _ =>
      have hone := Canonical.one (sextet_setWidth (high_lt x)) (sextet_setWidth (low_lt x))
        (low_unused x)
      rw [digit_back (high_lt x), digit_back (low_lt x)] at hone
      exact hone
    | [x, y], _ =>
      have htwo := Canonical.two (sextet_setWidth (high_lt x)) (sextet_setWidth (middle_lt x y))
        (sextet_setWidth (last_lt y)) (last_unused y)
      rw [digit_back (high_lt x), digit_back (middle_lt x y), digit_back (last_lt y)] at htwo
      exact htwo
    | _ :: _ :: _ :: _, ht => exact absurd rfl (ht _ _ _ _)

theorem Canonical.exists_encodeText (h : Canonical text) : ∃ x, encodeText x = text := by
  induction h with
  | nil => exact ⟨[], rfl⟩
  | group ha hb hc hd hrest ih =>
    obtain ⟨x, rfl⟩ := ih
    exact ⟨_ :: _ :: _ :: x, by rw [encodeText, encodeGroup_sextets ha hb hc hd]; rfl⟩
  | one ha hb hunused => exact ⟨[_], encodeTail_one ha hb hunused⟩
  | two ha hb hc hunused => exact ⟨[_, _], encodeTail_two ha hb hc hunused⟩

end Dynamips.Base64
