import Dynamips.Base64
import Mathlib.Data.List.TakeWhile

/-! The C interface to the Base64 codec, base64_compat.cpp, and what encoding and
decoding do to each other. -/
set_option autoImplicit false

namespace Dynamips.Base64

def INT_MAX : Nat := 2 ^ 31 - 1

def span (buffer : List Byte) (n : Nat) : Option (List Byte) :=
  if n ≤ buffer.length then some (buffer.take n) else none

def base64Encode (out inp : List Byte) (inlen : BitVec 32) : Option (List Byte) :=
  if inlen.toInt < 0 then
    some out
  else
    let size := inlen.toNat
    match encodedSize size with
    | .error _ => some out
    | .ok capacity =>
      (span out capacity).bind fun window =>
        (span inp size).bind fun bytes =>
          (encode window bytes).bind fun (encoded, window) =>
            let out := window ++ out.drop capacity
            match encoded with
            | .error _ => some out
            | .ok encoded => store out encoded [0]

/-- The text that `base64_decode` hands to the decoder: the C string at `in`,
less a prefix `"+ "`, up to the first carriage return -/
def payload (inp : List Byte) : List Byte :=
  let text := inp.takeWhile (· ≠ 0)
  let text := if text.take 2 = [0x2b, 0x20] then text.drop 2 else text
  text.takeWhile (· ≠ 0x0d)

/-- The capacity that `base64_decode` takes `out` to have -/
def capacity (inp : List Byte) (maxlen : BitVec 32) : Nat :=
  if maxlen = 0 then (payload inp).length / 4 * 3 else maxlen.toNat

def base64Decode (out inp : List Byte) (maxlen : BitVec 32) : Option (Int × List Byte) :=
  if maxlen.toInt < 0 then
    some (-1, out)
  else
    let text := payload inp
    let capacity := capacity inp maxlen
    (span out capacity).bind fun window =>
      (decode window text).map fun (decoded, window) =>
        let out := window ++ out.drop capacity
        match decoded with
        | .error _ => (-1, out)
        | .ok decoded => if decoded > INT_MAX then (-1, out) else (decoded, out)

variable {out inp x : List Byte} {inlen maxlen : BitVec 32}

/-- A text may carry a prefix that no encoding has. -/
theorem not_only_encodings : ¬ ∀ (out inp : List Byte) (maxlen : BitVec 32) (n : Int)
    (out' : List Byte), base64Decode out inp maxlen = some (n, out') → 0 ≤ n →
      ∃ x, encodeText x = inp.takeWhile (· ≠ 0) := by
  intro h
  have hdecode : base64Decode [0, 0, 0] [0x2b, 0x20, 0x51, 0x55, 0x4a, 0x44, 0] 3 =
      some (3, [0x41, 0x42, 0x43]) := by decide
  obtain ⟨x, hx⟩ := h _ _ _ _ _ hdecode (by decide)
  have hlen := congrArg List.length hx
  rw [length_encodeText] at hlen
  simp at hlen
  omega

theorem drop_memcpy {n : Nat} (h : x.length ≤ n) : (memcpy out 0 x).drop n = out.drop n := by
  have hdrop : (x ++ out.drop x.length).drop n = out.drop n := by
    rw [List.drop_append, List.drop_eq_nil_of_le h, List.drop_drop, List.nil_append,
      Nat.add_sub_cancel' h]
  simpa [memcpy] using hdrop

theorem window_memcpy {n : Nat} (h : x.length ≤ n) :
    memcpy (out.take n) 0 x ++ out.drop n = memcpy out 0 x := by
  have hrest : (out.take n).drop x.length ++ out.drop n = out.drop x.length := by
    have hsplit := List.take_append_drop (n - x.length) (out.drop x.length)
    rwa [List.drop_drop, Nat.add_sub_cancel' h, ← List.drop_take] at hsplit
  simp [memcpy, hrest]

theorem mem_encodeText {c : Byte} (h : c ∈ encodeText x) : c ≠ 0 ∧ c ≠ 0x0d ∧ c ≠ 0x20 := by
  have hdigit : ∀ i : Fin 64, alphabet.getD i 0 ≠ 0 ∧ alphabet.getD i 0 ≠ 0x0d ∧
      alphabet.getD i 0 ≠ 0x20 := by decide
  have hsextet : ∀ {v : Byte}, Sextet v → digit (v.setWidth 32) ≠ 0 ∧
      digit (v.setWidth 32) ≠ 0x0d ∧ digit (v.setWidth 32) ≠ 0x20 := by
    intro v hv
    exact hdigit ⟨_, hv.index_lt⟩
  have hpad : pad ≠ 0 ∧ pad ≠ 0x0d ∧ pad ≠ 0x20 := by decide
  generalize htext : encodeText x = text at h
  have hcanonical : Canonical text := htext ▸ canonical_encodeText x
  clear htext
  induction hcanonical with
  | nil => cases h
  | group ha hb hc hd hrest ih =>
    simp only [List.mem_cons] at h
    rcases h with rfl | rfl | rfl | rfl | h
    · exact hsextet ha
    · exact hsextet hb
    · exact hsextet hc
    · exact hsextet hd
    · exact ih h
  | one ha hb hunused =>
    simp only [List.mem_cons, List.not_mem_nil, or_false] at h
    rcases h with rfl | rfl | rfl | rfl
    · exact hsextet ha
    · exact hsextet hb
    · exact hpad
    · exact hpad
  | two ha hb hc hunused =>
    simp only [List.mem_cons, List.not_mem_nil, or_false] at h
    rcases h with rfl | rfl | rfl | rfl
    · exact hsextet ha
    · exact hsextet hb
    · exact hsextet hc
    · exact hpad

theorem payload_encodeText (x rest : List Byte) :
    payload (encodeText x ++ 0 :: rest) = encodeText x := by
  have hstring : (encodeText x ++ 0 :: rest).takeWhile (· ≠ 0) = encodeText x := by
    rw [List.takeWhile_append_of_pos fun c hc => by simpa using (mem_encodeText hc).1]
    simp
  have hplain : (encodeText x).take 2 ≠ [0x2b, 0x20] := by
    intro h
    have hspace : (0x20 : Byte) ∈ (encodeText x).take 2 := by simp [h]
    exact (mem_encodeText (List.mem_of_mem_take hspace)).2.2 rfl
  have hline : (encodeText x).takeWhile (· ≠ 0x0d) = encodeText x := by
    rw [List.takeWhile_eq_self_iff]
    intro c hc
    simpa using (mem_encodeText hc).2.1
  simp only [payload, hstring, if_neg hplain, hline]

theorem base64Encode_spec (hpos : 0 ≤ inlen.toInt) (hinp : inlen.toNat ≤ inp.length)
    (hout : (encodeText (inp.take inlen.toNat)).length < out.length) :
    base64Encode out inp inlen =
      some (memcpy out 0 (encodeText (inp.take inlen.toNat) ++ [0])) := by
  have hx : (inp.take inlen.toNat).length = inlen.toNat := by
    rw [List.length_take]
    omega
  have hbytes : span inp inlen.toNat = some (inp.take inlen.toNat) := if_pos hinp
  generalize inp.take inlen.toNat = x at hout hx hbytes ⊢
  have hsize : ¬ SIZE_MAX < (encodeText x).length := by
    have hlt := inlen.isLt
    rw [length_encodeText, hx, SIZE_MAX]
    split <;> omega
  have hcapacity : encodedSize inlen.toNat = .ok (encodeText x).length := by
    rw [encodedSize_eq, ← hx, ← length_encodeText]
    exact if_neg hsize
  have hspan : span out (encodeText x).length = some (out.take (encodeText x).length) :=
    if_pos (by omega)
  have hencode : encode (out.take (encodeText x).length) x = some (.ok (encodeText x).length,
      memcpy (out.take (encodeText x).length) 0 (encodeText x)) := by
    rw [encode_spec, if_neg hsize, if_neg (by rw [List.length_take]; omega)]
  have htwo := @memcpy_memcpy _ out (encodeText x) [0] 0 (by omega)
  rw [Nat.zero_add] at htwo
  rw [base64Encode, if_neg (by omega)]
  simp only [hcapacity, hspan, hbytes, hencode, Option.bind_some]
  rw [window_memcpy (Nat.le_refl _), store_ok (by rw [length_memcpy (by omega)]; exact hout), htwo]

theorem base64Decode_encoding (hpos : 0 ≤ maxlen.toInt) (hout : capacity inp maxlen ≤ out.length)
    (hx : encodeText x = payload inp) :
    base64Decode out inp maxlen = some
      (if capacity inp maxlen < x.length then (-1, out)
        else if INT_MAX < x.length then (-1, memcpy out 0 x)
        else ((x.length : Int), memcpy out 0 x)) := by
  have hspan : span out (capacity inp maxlen) = some (out.take (capacity inp maxlen)) :=
    if_pos hout
  have hlen : (out.take (capacity inp maxlen)).length = capacity inp maxlen := by
    rw [List.length_take]
    omega
  rw [base64Decode, if_neg (by omega)]
  simp only [hspan, Option.bind_some]
  rw [← hx, decode_encodeText, give, hlen]
  by_cases hfit : capacity inp maxlen < x.length
  · rw [if_pos hfit, if_neg (by omega), Option.map_some]
    simp only [List.take_append_drop]
  · rw [if_neg hfit, if_pos (by omega), Option.map_some]
    simp only [window_memcpy (Nat.le_of_not_lt hfit), gt_iff_lt]

theorem base64Decode_refused (hpos : 0 ≤ maxlen.toInt) (hout : capacity inp maxlen ≤ out.length)
    (hno : ¬ ∃ x, encodeText x = payload inp) :
    ∃ out', base64Decode out inp maxlen = some (-1, out') ∧ out'.length = out.length ∧
      out'.drop (capacity inp maxlen) = out.drop (capacity inp maxlen) := by
  have hspan : span out (capacity inp maxlen) = some (out.take (capacity inp maxlen)) :=
    if_pos hout
  obtain ⟨e, window, hdecode, hwindow⟩ := decode_refused hno (out.take (capacity inp maxlen))
  refine ⟨window ++ out.drop (capacity inp maxlen), ?_, ?_, ?_⟩
  · rw [base64Decode, if_neg (by omega)]
    simp only [hspan, Option.bind_some, hdecode, Option.map_some]
  · rw [List.length_append, hwindow, ← List.length_append, List.take_append_drop]
  · apply List.drop_left'
    rw [hwindow, List.length_take]
    omega

theorem decode_ok {s out' : List Byte} {n : Nat} (h : decode out s = some (.ok n, out')) :
    ∃ x, encodeText x = s ∧ n = x.length ∧ x.length ≤ out.length ∧ out' = memcpy out 0 x := by
  by_cases hs : ∃ x, encodeText x = s
  · obtain ⟨x, rfl⟩ := hs
    rw [decode_encodeText, give] at h
    split at h
    · rename_i hfit
      cases h
      exact ⟨x, rfl, rfl, hfit, rfl⟩
    · cases h
  · obtain ⟨e, out'', hdecode, -⟩ := decode_refused hs out
    rw [hdecode] at h
    cases h

theorem decode_inside (out s : List Byte) :
    ∃ r out', decode out s = some (r, out') ∧ out'.length = out.length := by
  by_cases hs : ∃ x, encodeText x = s
  · obtain ⟨x, rfl⟩ := hs
    rw [decode_encodeText, give]
    split
    · rename_i hfit
      exact ⟨_, _, rfl, length_memcpy (by omega)⟩
    · exact ⟨_, _, rfl, rfl⟩
  · obtain ⟨e, out', hdecode, hout⟩ := decode_refused hs out
    exact ⟨_, _, hdecode, hout⟩

/-- Encoding and decoding, on their spans and through the C interface -/
theorem base64_codec :
    (∀ out x, encode out x = some
      (if SIZE_MAX < (encodeText x).length then (.error .inputTooLarge, out)
        else if out.length < (encodeText x).length then (.error .outputTooSmall, out)
        else (.ok (encodeText x).length, memcpy out 0 (encodeText x)))) ∧
    (∀ out x, decode out (encodeText x) = some
      (if x.length ≤ out.length then (.ok x.length, memcpy out 0 x)
        else (.error .outputTooSmall, out))) ∧
    (∀ out s, ∃ r out', decode out s = some (r, out') ∧ out'.length = out.length ∧
      ∀ n, r = .ok n → ∃ x, encodeText x = s ∧ n = x.length ∧ out' = memcpy out 0 x) ∧
    (∀ s, (∃ x, encodeText x = s) ↔ Canonical s) ∧
    (∀ (out inp : List Byte) (inlen : BitVec 32),
      (inlen.toInt < 0 → base64Encode out inp inlen = some out) ∧
      (0 ≤ inlen.toInt → inlen.toNat ≤ inp.length →
        (encodeText (inp.take inlen.toNat)).length < out.length →
        base64Encode out inp inlen =
            some (memcpy out 0 (encodeText (inp.take inlen.toNat) ++ [0])) ∧
          payload (memcpy out 0 (encodeText (inp.take inlen.toNat) ++ [0])) =
            encodeText (inp.take inlen.toNat))) ∧
    (∀ (out inp : List Byte) (maxlen : BitVec 32),
      (maxlen.toInt < 0 → base64Decode out inp maxlen = some (-1, out)) ∧
      (0 ≤ maxlen.toInt → capacity inp maxlen ≤ out.length →
        ∃ n out', base64Decode out inp maxlen = some (n, out') ∧ out'.length = out.length ∧
          out'.drop (capacity inp maxlen) = out.drop (capacity inp maxlen) ∧
          (∀ x, encodeText x = payload inp → x.length ≤ capacity inp maxlen →
            x.length ≤ INT_MAX → n = x.length ∧ out' = memcpy out 0 x) ∧
          ((∀ x, encodeText x = payload inp →
            capacity inp maxlen < x.length ∨ INT_MAX < x.length) → n = -1))) := by
  refine ⟨encode_spec, fun out x => ?_, fun out s => ?_, fun s => ?_, fun out inp inlen => ?_,
    fun out inp maxlen => ?_⟩
  · rw [decode_encodeText, give]
    split <;> rfl
  · obtain ⟨r, out', hdecode, hout⟩ := decode_inside out s
    refine ⟨r, out', hdecode, hout, fun n hn => ?_⟩
    subst hn
    obtain ⟨x, hx, hn, -, hmem⟩ := decode_ok hdecode
    exact ⟨x, hx, hn, hmem⟩
  · constructor
    · intro h
      obtain ⟨x, rfl⟩ := h
      exact canonical_encodeText x
    · exact Canonical.exists_encodeText
  · refine ⟨fun h => if_pos h, fun hpos hinp hout => ⟨base64Encode_spec hpos hinp hout, ?_⟩⟩
    have hterminated : memcpy out 0 (encodeText (inp.take inlen.toNat) ++ [0]) =
        encodeText (inp.take inlen.toNat) ++
          0 :: out.drop ((encodeText (inp.take inlen.toNat)).length + 1) := by
      simp [memcpy]
    rw [hterminated, payload_encodeText]
  · refine ⟨fun h => if_pos h, fun hpos hout => ?_⟩
    by_cases hx : ∃ x, encodeText x = payload inp
    · obtain ⟨x, hx⟩ := hx
      have hsame : ∀ y, encodeText y = payload inp → y = x :=
        fun y hy => encodeText_inj (hy.trans hx.symm)
      have hdecode := base64Decode_encoding hpos hout hx
      by_cases hfit : capacity inp maxlen < x.length
      · rw [if_pos hfit] at hdecode
        refine ⟨_, _, hdecode, rfl, rfl, fun y hy hle => ?_, fun _ => rfl⟩
        rw [hsame y hy] at hle
        omega
      · have hlen : (memcpy out 0 x).length = out.length := length_memcpy (by omega)
        rw [if_neg hfit] at hdecode
        by_cases hmax : INT_MAX < x.length
        · rw [if_pos hmax] at hdecode
          refine ⟨_, _, hdecode, hlen, drop_memcpy (by omega), fun y hy _ hle => ?_, fun _ => rfl⟩
          rw [hsame y hy] at hle
          omega
        · rw [if_neg hmax] at hdecode
          refine ⟨_, _, hdecode, hlen, drop_memcpy (by omega), fun y hy _ _ => ?_, fun h => ?_⟩
          · rw [hsame y hy]
            exact ⟨rfl, rfl⟩
          · have hbad := h x hx
            omega
    · obtain ⟨out', hdecode, hlen, hdrop⟩ := base64Decode_refused hpos hout hx
      exact ⟨-1, out', hdecode, hlen, hdrop, fun y hy => absurd ⟨y, hy⟩ hx, fun _ => rfl⟩

end Dynamips.Base64
