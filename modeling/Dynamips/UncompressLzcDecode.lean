import Mathlib.Data.List.GetD
import Dynamips.UncompressLzc
import Dynamips.Lib.Lzw

/-! What `uncompress_LZC` computes: the strings of the codes of its input, with every
access in bounds. -/
set_option autoImplicit false

namespace Dynamips.Nvram
open Function (update)
open Lzw

def letter (code : Nat) : Byte := BitVec.ofNat 8 code

/-- The dictionary before the first code. In block mode code 256 clears it. -/
def firstDict (blockMode : Bool) : Dict Byte := ⟨if blockMode then [[]] else [], none⟩

/-- A decoder of the stream. Codes are taken from chunks of as many bytes as a code has
bits. -/
structure LzcView where
  rest : List Byte
  chunk : List Byte
  bitPos : Nat
  numBits : Nat
  dict : Dict Byte
  out : List Byte

namespace LzcView

def fill (v : LzcView) : LzcView :=
  if v.bitPos = 8 * v.chunk.length then
    { v with rest := v.rest.drop v.numBits, chunk := v.rest.take v.numBits, bitPos := 0 }
  else v

def symbol (v : LzcView) : Nat :=
  let byte := fun k => (v.chunk.getD (v.bitPos / 8 + k) 0).toNat
  (byte 0 + byte 1 * 2 ^ 8 + byte 2 * 2 ^ 16) / 2 ^ (v.bitPos % 8) % 2 ^ v.numBits

inductive Turn where
  | done (out : List Byte)
  | errData
  | next (v : LzcView)

def clear (blockMode : Bool) (v : LzcView) : LzcView :=
  { v with chunk := [], bitPos := 0, numBits := 9, dict := firstDict blockMode }

/-- A string is output and learned. The codes get wider when the dictionary needs it. -/
def take (maxbits : Nat) (v : LzcView) (w : List Byte) : LzcView :=
  let dict := v.dict.learn 256 (2 ^ maxbits) w
  let v := { v with dict := dict, out := v.out ++ w, bitPos := v.bitPos + v.numBits }
  if dict.prev.isSome ∧ dict.next 256 > 2 ^ v.numBits ∧ v.numBits < maxbits then
    { v with chunk := [], bitPos := 0, numBits := v.numBits + 1 }
  else v

def turn (maxbits : Nat) (blockMode : Bool) (v : LzcView) : Turn :=
  let v := v.fill
  if v.bitPos + v.numBits > 8 * v.chunk.length then .done v.out
  else if blockMode ∧ v.symbol = 256 then .next (v.clear blockMode)
  else
    match v.dict.string letter 256 v.symbol with
    | none => .errData
    | some w => .next (v.take maxbits w)

def run (maxbits : Nat) (blockMode : Bool) : Nat → LzcView → Option (List Byte)
  | 0, _ => none
  | fuel + 1, v =>
    match v.turn maxbits blockMode with
    | .done out => some out
    | .errData => none
    | .next v => run maxbits blockMode fuel v

end LzcView

def decodeLzc (inData : List Byte) : Option (List Byte) :=
  let maxbits := (inData.getD 2 0 &&& 0x1F).toNat
  let blockMode : Bool := inData.getD 2 0 &&& 0x80 ≠ 0
  if inData.length < 3 ∨ inData.getD 0 0 ≠ 0x1F ∨ inData.getD 1 0 ≠ 0x9D ∨ maxbits < 9 ∨
      maxbits > 16 then none
  else LzcView.run maxbits blockMode (8 * inData.length + 1)
    ⟨inData.drop 3, [], 0, 9, firstDict blockMode, []⟩

/-! The strings in the tables. -/

inductive Spells (parents : Nat → BitVec 16) (suffixes : Nat → Byte) : Nat → List Byte → Prop where
  | leaf {code : Nat} (h : code < 256) : Spells parents suffixes code [letter code]
  | node {code : Nat} {w : List Byte} (h : 256 ≤ code) (hlt : (parents code).toNat < code)
      (hw : Spells parents suffixes (parents code).toNat w) :
      Spells parents suffixes code (w ++ [suffixes code])

variable {c : LzcConst} {parents parents' : Nat → BitVec 16} {suffixes suffixes' : Nat → Byte}
  {code : Nat} {w : List Byte}

theorem Spells.congr {n : Nat} (hp : ∀ x, 256 ≤ x → x < n → parents' x = parents x)
    (hs : ∀ x, 256 ≤ x → x < n → suffixes' x = suffixes x) (h : Spells parents suffixes code w)
    (hcode : code < n) : Spells parents' suffixes' code w := by
  induction h with
  | leaf h => exact Spells.leaf h
  | @node code w h hlt _ ih =>
    have hw := ih (by omega)
    rw [← hp code h hcode] at hw
    rw [← hs code h hcode]
    refine Spells.node h ?_ hw
    rw [hp code h hcode]
    exact hlt

theorem Spells.length_le (h : Spells parents suffixes code w) :
    1 ≤ w.length ∧ w.length ≤ code - 255 + 1 := by
  induction h with
  | leaf h =>
    simp only [List.length_singleton]
    omega
  | node h hlt _ ih =>
    simp only [List.length_append, List.length_singleton]
    omega

theorem lzcChain_leaf {fuel i : Nat} {t : LzcTables} (h : code < 256) :
    lzcChain c fuel t code i =
      if i < c.numItems then some ({ t with stack := update t.stack i (letter code) }, i + 1, code)
      else none := by
  rw [lzcChain.eq_def]
  exact if_pos h

theorem lzcChain_node {fuel i : Nat} {t : LzcTables} (h : 256 ≤ code) :
    lzcChain c (fuel + 1) t code i =
      if i < c.numItems ∧ code < c.numItems then
        lzcChain c fuel { t with stack := update t.stack i (t.suffixes code) }
          (t.parents code).toNat (i + 1)
      else none := by
  rw [lzcChain.eq_def]
  exact if_neg (by omega)

theorem lzcChain_spells {fuel i : Nat} {t : LzcTables} (h : Spells t.parents t.suffixes code w)
    (hcode : code < c.numItems) (hfuel : code ≤ fuel + 255) (hi : i + w.length ≤ c.numItems) :
    ∃ stack cur, lzcChain c fuel t code i = some ({ t with stack := stack }, i + w.length, cur) ∧
      letter cur = w.getD 0 0 ∧ (∀ k < i, stack k = t.stack k) ∧
        ∀ k < w.length, stack (i + k) = w.getD (w.length - 1 - k) 0 := by
  generalize hparents : t.parents = parents at h
  generalize hsuffixes : t.suffixes = suffixes at h
  induction h generalizing fuel i t with
  | @leaf code h =>
    subst hparents hsuffixes
    simp only [List.length_singleton] at hi
    refine ⟨update t.stack i (letter code), code, ?_, rfl, fun k hk => ?_, fun k hk => ?_⟩
    · rw [lzcChain_leaf h, if_pos (by omega)]
      rfl
    · exact Function.update_of_ne (by omega) ..
    · simp only [List.length_singleton] at hk
      obtain rfl : k = 0 := by omega
      simp
  | @node code w h hlt hw ih =>
    subst hparents hsuffixes
    simp only [List.length_append, List.length_singleton] at hi
    obtain ⟨fuel, rfl⟩ : ∃ f, fuel = f + 1 := ⟨fuel - 1, by omega⟩
    have hpos := hw.length_le.1
    have htail := @ih fuel (i + 1) { t with stack := update t.stack i (t.suffixes code) }
      (by omega) (by omega) (by omega) rfl rfl
    obtain ⟨stack, cur, hrun, hcur, hkeep, hput⟩ := htail
    refine ⟨stack, cur, ?_, ?_, fun k hk => ?_, fun k hk => ?_⟩
    · rw [lzcChain_node h, if_pos ⟨by omega, hcode⟩]
      refine hrun.trans ?_
      simp only [List.length_append, List.length_singleton, Nat.add_assoc, Nat.add_comm 1]
    · rw [hcur, List.getD_append _ _ _ _ (by omega)]
    · rw [hkeep k (by omega)]
      exact Function.update_of_ne (by omega) ..
    · simp only [List.length_append, List.length_singleton] at hk ⊢
      cases k with
      | zero =>
        have hlast := hkeep i (by omega)
        simp only [Function.update_self] at hlast
        rw [Nat.add_zero, hlast]
        simp
      | succ k =>
        have hmid := hput k (by omega)
        rw [show i + (k + 1) = i + 1 + k by omega, hmid,
          List.getD_append _ _ _ _ (by omega)]
        congr 1
        omega

/-! The state of the loop as the decoder sees it. -/

structure CursorRep (c : LzcConst) (s : LzcState) (v : LzcView) : Prop where
  widthMin : 9 ≤ v.numBits
  widthMax : v.numBits ≤ c.maxbits
  maxbits : c.maxbits ≤ 16
  numBits : s.numBits = v.numBits
  inPos : s.inPos ≤ c.inData.length
  rest : v.rest = c.inData.drop s.inPos
  bitPos : s.bitPos = v.bitPos
  numBufBits : s.numBufBits = 8 * v.chunk.length
  within : v.bitPos ≤ 8 * v.chunk.length
  chunk : v.chunk.length ≤ 16
  buf : ∀ k < v.chunk.length, s.tables.buf k = v.chunk.getD k 0

/-- The tables. The first entry is for the code that clears them, in block mode. -/
structure DictRep (c : LzcConst) (t : LzcTables) (head : Nat) (needPrev : Bool) (d : Dict Byte) :
    Prop where
  head_eq : head = d.next 256
  head_le : head ≤ c.numItems
  needPrev_eq : needPrev = d.prev.isSome
  parents : ∀ x, 256 ≤ x → x < head → (t.parents x).toNat < x
  clear : c.blockMode = true → d.entries ≠ []
  known : ∀ k w, d.entries[k]? = some w → ¬(c.blockMode = true ∧ k = 0) →
    Spells t.parents t.suffixes (256 + k) w
  begun : ∀ p, d.prev = some p →
    Spells t.parents t.suffixes (t.parents (256 + d.entries.length)).toNat p

/-- The output buffer, which held `heap` before. -/
structure OutRep (c : LzcConst) (heap : Nat → Byte) (outPos : Nat) (outData : Nat → Byte)
    (out : List Byte) : Prop where
  outPos_eq : outPos = min c.outLen out.length
  data : ∀ j, outData j = if j < outPos then out.getD j 0 else heap j

structure Rep (c : LzcConst) (heap : Nat → Byte) (s : LzcState) (v : LzcView) : Prop where
  cursor : CursorRep c s v
  dict : DictRep c s.tables s.head s.needPrev v.dict
  out : OutRep c heap s.outPos s.outData v.out

variable {heap : Nat → Byte} {s : LzcState} {v : LzcView}

/-! The input. -/

theorem refill_cursor (h : CursorRep c s v) :
    ∃ s', lzcRefill c s = some s' ∧ CursorRep c s' v.fill ∧
      s'.tables.parents = s.tables.parents ∧ s'.tables.suffixes = s.tables.suffixes ∧
        s'.head = s.head ∧ s'.needPrev = s.needPrev ∧ s'.outPos = s.outPos ∧
          s'.outData = s.outData := by
  have hmin := h.widthMin
  have hmax := h.widthMax
  have hbits := h.maxbits
  have hin := h.inPos
  rw [lzcRefill, h.numBufBits, h.bitPos, h.numBits, LzcView.fill]
  by_cases hend : v.bitPos = 8 * v.chunk.length
  · rw [if_pos hend.symm, if_pos hend]
    simp only
    rw [if_pos ⟨hin, by simp only [lzcBufSize]; omega⟩]
    have hlen : (v.rest.take v.numBits).length = min (c.inData.length - s.inPos) v.numBits := by
      rw [List.length_take, h.rest, List.length_drop, Nat.min_comm]
    refine ⟨_, rfl, ?_, rfl, rfl, rfl, rfl, rfl, rfl⟩
    constructor
    · exact hmin
    · exact hmax
    · exact hbits
    · rfl
    · simp only
      omega
    · rw [h.rest]
      simp only [List.drop_drop]
      by_cases hshort : c.inData.length - s.inPos ≤ v.numBits
      · rw [List.drop_eq_nil_iff.mpr (by omega), List.drop_eq_nil_iff.mpr (by omega)]
      · rw [Nat.min_eq_right (by omega)]
    · rfl
    · simp only [hlen]
      omega
    · simp only
      omega
    · simp only [hlen]
      omega
    · intro k hk
      rw [hlen] at hk
      simp only
      rw [if_pos hk, h.rest, List.getD_eq_getElem?_getD, List.getD_eq_getElem?_getD,
        List.getElem?_take_of_lt (by omega), List.getElem?_drop]
  · rw [if_neg (Ne.symm hend), if_neg hend]
    exact ⟨s, rfl, h, rfl, rfl, rfl, rfl, rfl, rfl⟩

theorem fill_width : v.fill.numBits = v.numBits ∧ v.fill.dict = v.dict ∧ v.fill.out = v.out := by
  rw [LzcView.fill]
  split <;> exact ⟨rfl, rfl, rfl⟩

theorem div_mod_congr {a b k n m : Nat} (h : k + n ≤ m) :
    (a + b * 2 ^ m) / 2 ^ k % 2 ^ n = a / 2 ^ k % 2 ^ n := by
  obtain ⟨r, rfl⟩ := Nat.exists_eq_add_of_le h
  have hsplit : b * 2 ^ (k + n + r) = 2 ^ k * (2 ^ n * (2 ^ r * b)) := by
    rw [Nat.pow_add, Nat.pow_add, Nat.mul_comm, Nat.mul_assoc, Nat.mul_assoc]
  rw [hsplit, Nat.add_mul_div_left _ _ (Nat.two_pow_pos k), Nat.add_mul_mod_self_left]

theorem symbol_cursor (h : CursorRep c s v) (hbits : v.bitPos < 8 * v.chunk.length ∨ v.bitPos = 0) :
    ∃ symbol, lzcSymbol s = some symbol ∧
      (v.bitPos + v.numBits ≤ 8 * v.chunk.length → symbol = v.symbol) := by
  have hchunk := h.chunk
  have hmin := h.widthMin
  rw [lzcSymbol, h.bitPos, h.numBits]
  simp only
  rw [if_pos (by simp only [lzcBufSize]; omega)]
  refine ⟨_, rfl, fun hfit => ?_⟩
  have h0 := h.buf (v.bitPos / 8) (by omega)
  have h1 := h.buf (v.bitPos / 8 + 1) (by omega)
  rw [LzcView.symbol, h0, h1]
  simp only [Nat.add_zero]
  by_cases htwo : v.bitPos / 8 + 2 < v.chunk.length
  · rw [h.buf _ htwo]
  · have hwidth : v.bitPos % 8 + v.numBits ≤ 16 := by omega
    rw [div_mod_congr hwidth, div_mod_congr hwidth]

/-! The output. -/

theorem emit_out {stack : Nat → Byte} {outPos : Nat} {outData : Nat → Byte} {out : List Byte}
    (h : OutRep c heap outPos outData out)
    (hstack : ∀ k < w.length, stack k = w.getD (w.length - 1 - k) 0) :
    OutRep c heap (lzcEmit c stack w.length outPos outData).1
      (lzcEmit c stack w.length outPos outData).2 (out ++ w) := by
  induction w generalizing outPos outData out with
  | nil => simpa [lzcEmit] using h
  | cons b w ih =>
    have hpos := h.outPos_eq
    rw [List.length_cons, lzcEmit]
    split
    · rename_i hroom
      have htop : stack w.length = b := by
        rw [hstack w.length (by simp)]
        simp
      have hput : OutRep c heap (outPos + 1) (update outData outPos (stack w.length))
          (out ++ [b]) := by
        constructor
        · simp only [List.length_append, List.length_singleton]
          omega
        · intro j
          rw [Function.update_apply, h.data j, htop]
          by_cases hj : j = outPos
          · subst hj
            rw [if_pos rfl, if_pos (by omega), List.getD_append_right _ _ _ _ (by omega),
              show j - out.length = 0 by omega, List.getD_cons_zero]
          · rw [if_neg hj]
            by_cases hlt : j < outPos
            · rw [if_pos hlt, if_pos (by omega), List.getD_append _ _ _ _ (by omega)]
            · rw [if_neg hlt, if_neg (by omega)]
      have hrest := ih hput fun k hk => by
        rw [hstack k (by simp only [List.length_cons]; omega), List.length_cons,
          show w.length + 1 - 1 - k = w.length - 1 - k + 1 by omega, List.getD_cons_succ]
      rwa [List.append_assoc] at hrest
    · constructor
      · simp only [List.length_append, List.length_cons]
        omega
      · intro j
        refine (h.data j).trans ?_
        simp only
        split
        · rw [List.getD_append _ _ _ _ (by omega)]
        · rfl

/-! The tables. -/

variable {t : LzcTables} {head symbol : Nat} {needPrev : Bool} {d : Dict Byte}

theorem take_one (h : 1 ≤ w.length) : w.take 1 = [w.getD 0 0] := by
  cases w with
  | nil => cases h
  | cons b w => rfl

theorem getD_zero_take_one {p : List Byte} (h : 1 ≤ p.length) :
    (p ++ p.take 1).getD 0 0 = p.getD 0 0 := List.getD_append _ _ _ _ (by omega)

theorem DictRep.next_eq (h : DictRep c t head needPrev d) :
    (∀ p, d.prev = some p → head = 256 + d.entries.length + 1) ∧
      (d.prev = none → head = 256 + d.entries.length) := by
  constructor
  · intro p hp
    rw [h.head_eq, Dict.next, hp]
    rfl
  · intro hp
    rw [h.head_eq, Dict.next, hp]
    rfl

theorem DictRep.congr {t' : LzcTables} (h : DictRep c t head needPrev d)
    (hparents : t'.parents = t.parents) (hsuffixes : t'.suffixes = t.suffixes) :
    DictRep c t' head needPrev d := by
  cases t
  cases t'
  simp only at hparents hsuffixes
  subst hparents hsuffixes
  exact { h with }

theorem DictRep.entries_le (h : DictRep c t head needPrev d) : 256 + d.entries.length ≤ head := by
  rw [h.head_eq, Dict.next]
  omega

theorem DictRep.spells (h : DictRep c t head needPrev d)
    (hstring : d.string letter 256 symbol = some w)
    (hclear : c.blockMode = true → symbol ≠ 256)
    (hp : ∀ x, 256 ≤ x → x < head → parents' x = t.parents x)
    (hs : ∀ x, 256 ≤ x → x < 256 + d.entries.length → suffixes' x = t.suffixes x)
    (hlast : d.prev.isSome → symbol = 256 + d.entries.length →
      suffixes' symbol = w.getD 0 0) : Spells parents' suffixes' symbol w := by
  have hle := h.entries_le
  rcases string_cases hstring with ⟨hlt, rfl⟩ | ⟨k, rfl, hentry⟩ | ⟨p, hprev, rfl, rfl⟩
  · exact Spells.leaf hlt
  · have hk := (List.getElem?_eq_some_iff.mp hentry).1
    have hknown := h.known k w hentry fun hc => hclear hc.1 (by rw [hc.2])
    exact hknown.congr (fun x hx hlt => hp x hx (by omega)) hs (by omega)
  · have hhead := h.next_eq.1 p hprev
    have hparent := h.parents (256 + d.entries.length) (by omega) (by omega)
    have hbegun := (h.begun p hprev).congr (fun x hx hlt => hp x hx (by omega)) hs hparent
    have hlen := hbegun.length_le.1
    have hsame := hp (256 + d.entries.length) (by omega) (by omega)
    have hnode := @Spells.node parents' suffixes' (256 + d.entries.length) p (by omega) (by rw [hsame]; exact hparent)
      (by rw [hsame]; exact hbegun)
    rw [hlast (by rw [hprev]; rfl) rfl, getD_zero_take_one hlen, ← take_one hlen] at hnode
    exact hnode

/-- The chain of a code, whose last letter is put right when the code was only begun. -/
theorem DictRep.chain (h : DictRep c t head needPrev d)
    (hstring : d.string letter 256 symbol = some w)
    (hclear : c.blockMode = true → symbol ≠ 256) :
    ∃ stack cur, lzcChain c c.numItems t symbol 0 = some ({ t with stack := stack }, w.length, cur) ∧
      letter cur = w.getD 0 0 ∧ 1 ≤ w.length ∧ w.length ≤ c.numItems ∧
        ∀ k < w.length, (if needPrev ∧ symbol = head - 1 then update stack 0 (letter cur) else stack) k =
          w.getD (w.length - 1 - k) 0 := by
  have hlt : symbol < head := by
    rw [h.head_eq, ← @string_isSome _ letter, hstring]
    rfl
  have hle := h.head_le
  have hbase := h.entries_le
  by_cases hlast : d.prev.isSome ∧ symbol = 256 + d.entries.length
  · obtain ⟨p, hprev⟩ := Option.isSome_iff_exists.mp hlast.1
    have hhead := h.next_eq.1 p hprev
    have hparent := h.parents symbol (by omega) hlt
    have hbegun := h.begun p hprev
    rw [← hlast.2] at hbegun
    have hlen := hbegun.length_le
    have hw : w = p ++ p.take 1 := by
      rcases string_cases hstring with ⟨hsmall, _⟩ | ⟨k, hk, hentry⟩ | ⟨p', hp', _, rfl⟩
      · omega
      · have := (List.getElem?_eq_some_iff.mp hentry).1
        omega
      · rw [hprev] at hp'
        cases hp'
        rfl
    have hnode := Spells.node (by omega) hparent hbegun
    obtain ⟨stack, cur, hrun, hcur, -, hput⟩ := @lzcChain_spells c _ _ c.numItems 0 t hnode (by omega)
      (by omega) (by simp only [List.length_append, List.length_singleton]; omega)
    simp only [List.length_append, List.length_singleton, Nat.zero_add] at hrun hput
    rw [List.getD_append _ _ _ _ (by omega)] at hcur
    have hwlen : w.length = p.length + 1 := by
      rw [hw, take_one hlen.1]
      simp
    refine ⟨stack, cur, by rw [hrun, hwlen], by rw [hcur, hw, getD_zero_take_one hlen.1],
      by omega, by omega, fun k hk => ?_⟩
    have hneed : needPrev = true := by rw [h.needPrev_eq, hprev]; rfl
    rw [if_pos ⟨hneed, by omega⟩, hw, take_one hlen.1, Function.update_apply]
    split
    · rename_i hk0
      subst hk0
      rw [hcur, List.getD_append_right _ _ _ _ (by simp)]
      simp
    · rename_i hk0
      rw [hput k (by omega), List.getD_append _ _ _ _ (by omega),
        List.getD_append _ _ _ _ (by simp; omega)]
      congr 1
      simp
  · have hspells : Spells t.parents t.suffixes symbol w := h.spells hstring hclear
      (fun _ _ _ => rfl) (fun _ _ _ => rfl) (fun hp hs => absurd ⟨hp, hs⟩ hlast)
    have hlen := hspells.length_le
    obtain ⟨stack, cur, hrun, hcur, -, hput⟩ := @lzcChain_spells c _ _ c.numItems 0 t hspells
      (by omega) (by omega) (by omega)
    simp only [Nat.zero_add] at hrun hput
    refine ⟨stack, cur, hrun, hcur, by omega, by omega, fun k hk => ?_⟩
    rw [if_neg, hput k hk]
    rintro ⟨hneed, hsym⟩
    rw [h.needPrev_eq] at hneed
    obtain ⟨p, hprev⟩ := Option.isSome_iff_exists.mp hneed
    have hhead := h.next_eq.1 p hprev
    exact hlast ⟨hneed, by omega⟩

/-- A code is added to the tables. -/
theorem DictRep.learn {stack : Nat → Byte} (h : DictRep c t head needPrev d)
    (hstring : d.string letter 256 symbol = some w)
    (hclear : c.blockMode = true → symbol ≠ 256) (hbits : c.maxbits ≤ 16)
    (hsuffix : suffixes' = if needPrev then update t.suffixes (head - 1) (w.getD 0 0) else t.suffixes)
    (hparents : parents' = if head < c.numItems then update t.parents head (BitVec.ofNat 16 symbol)
      else t.parents) :
    DictRep c { t with parents := parents', suffixes := suffixes', stack := stack }
      (if head < c.numItems then head + 1 else head) (decide (head < c.numItems))
      (d.learn 256 c.numItems w) := by
  have hle := h.head_le
  have hbase := h.entries_le
  have hlt : symbol < head := by
    rw [h.head_eq, ← @string_isSome _ letter, hstring]
    rfl
  have hitems : c.numItems ≤ 2 ^ 16 := Nat.pow_le_pow_right (by omega) hbits
  have hcomplete : 256 + (d.complete w).length = head := by rw [length_complete, h.head_eq]
  have hp : ∀ x, 256 ≤ x → x < head → parents' x = t.parents x := by
    intro x _ hx
    rw [hparents]
    split
    · exact Function.update_of_ne (by omega) ..
    · rfl
  have hs : ∀ x, 256 ≤ x → x < 256 + d.entries.length → suffixes' x = t.suffixes x := by
    intro x _ hx
    rw [hsuffix]
    split
    · rename_i hneed
      rw [h.needPrev_eq] at hneed
      obtain ⟨p, hprev⟩ := Option.isSome_iff_exists.mp hneed
      have hhead := h.next_eq.1 p hprev
      exact Function.update_of_ne (by omega) ..
    · rfl
  have hlast : ∀ p, d.prev = some p → suffixes' (256 + d.entries.length) = w.getD 0 0 := by
    intro p hprev
    have hhead := h.next_eq.1 p hprev
    have hneed : needPrev = true := by rw [h.needPrev_eq, hprev]; rfl
    rw [hsuffix, if_pos hneed, show 256 + d.entries.length = head - 1 by omega,
      Function.update_self]
  have hspells : Spells parents' suffixes' symbol w := by
    refine h.spells hstring hclear hp hs fun hprev hsym => ?_
    obtain ⟨p, hp⟩ := Option.isSome_iff_exists.mp hprev
    rw [hsym, hlast p hp]
  constructor
  · rw [next_learn, ← h.head_eq]
  · split <;> omega
  · rw [Dict.learn]
    simp only [hcomplete]
    split <;> simp_all
  · intro x hx hxlt
    simp only
    by_cases hxh : x < head
    · rw [hp x hx hxh]
      exact h.parents x hx hxh
    · split at hxlt
      · rename_i hroom
        obtain rfl : x = head := by omega
        rw [hparents, if_pos hroom, Function.update_self, BitVec.toNat_ofNat]
        omega
      · omega
  · intro hblock hnil
    have hne := h.clear hblock
    rw [Dict.learn, Dict.complete] at hnil
    split at hnil
    · simp at hnil
    · exact hne hnil
  · intro k x hk hne
    rcases complete_cases hk with hold | ⟨p, hprev, rfl, rfl⟩
    · have hlen := (List.getElem?_eq_some_iff.mp hold).1
      exact (h.known k x hold hne).congr (fun y hy hlt => hp y hy (by omega)) hs (by omega)
    · have hhead := h.next_eq.1 p hprev
      have hparent := h.parents (256 + d.entries.length) (by omega) (by omega)
      have hbegun := (h.begun p hprev).congr (fun y hy hlt => hp y hy (by omega)) hs hparent
      have hsame := hp (256 + d.entries.length) (by omega) (by omega)
      have hnode := @Spells.node parents' suffixes' (256 + d.entries.length) p (by omega) (by rw [hsame]; exact hparent)
        (by rw [hsame]; exact hbegun)
      rw [hlast p hprev, ← take_one hspells.length_le.1] at hnode
      exact hnode
  · intro p hprev
    rw [Dict.learn] at hprev
    simp only [hcomplete] at hprev
    split at hprev
    · rename_i hroom
      cases hprev
      simp only [Dict.learn, hcomplete]
      have hsym : (parents' head).toNat = symbol := by
        rw [hparents, if_pos hroom, Function.update_self, BitVec.toNat_ofNat]
        omega
      rw [hsym]
      exact hspells
    · cases hprev

/-! The loop. -/

def lzcCode (c : LzcConst) (s : LzcState) (symbol : Nat) : Option LzcTurn :=
  if s.bitPos > s.numBufBits then some (.done s)
  else if symbol ≥ s.head then some (.errData s)
  else if c.blockMode ∧ symbol = 256 then
    some (.next { s with numBufBits := 0, bitPos := 0, numBits := 9, head := 257, needPrev := false })
  else
    match lzcChain c c.numItems s.tables symbol 0 with
    | none => none
    | some (t, i, cur) =>
      let t := if s.needPrev then
        { t with
          suffixes := update t.suffixes (s.head - 1) (BitVec.ofNat 8 cur)
          stack := if symbol = s.head - 1 then update t.stack 0 (BitVec.ofNat 8 cur) else t.stack }
        else t
      some (.next (lzcExtend c { s with
        tables := t
        outPos := (lzcEmit c t.stack i s.outPos s.outData).1
        outData := (lzcEmit c t.stack i s.outPos s.outData).2 } symbol))

theorem lzcTurn_eq {s s' : LzcState} {symbol : Nat} (hrefill : lzcRefill c s = some s')
    (hsymbol : lzcSymbol s' = some symbol) :
    lzcTurn c s = lzcCode c { s' with bitPos := s'.bitPos + s'.numBits } symbol := by
  rw [lzcTurn, hrefill]
  simp only [Option.bind_eq_bind, Option.bind_some, hsymbol, lzcCode]
  split
  · rfl
  · split
    · rfl
    · split
      · rfl
      · cases lzcChain c c.numItems s'.tables symbol 0 with
        | none => rfl
        | some r => rfl

inductive TurnRep (c : LzcConst) (heap : Nat → Byte) : LzcTurn → LzcView.Turn → Prop where
  | done {s : LzcState} {out : List Byte} (h : OutRep c heap s.outPos s.outData out) :
      TurnRep c heap (.done s) (.done out)
  | errData {s : LzcState} : TurnRep c heap (.errData s) .errData
  | next {s : LzcState} {v : LzcView} (h : Rep c heap s v) : TurnRep c heap (.next s) (.next v)

theorem firstDict_rep {t : LzcTables} (hitems : 512 ≤ c.numItems) {d : Dict Byte}
    (hd : d = firstDict c.blockMode) (hparent : c.blockMode = true → (t.parents 256).toNat < 256) :
    DictRep c t (if c.blockMode then 257 else 256) false d := by
  subst hd
  constructor
  · rw [Dict.next, firstDict]
    split <;> rfl
  · split <;> omega
  · rfl
  · intro x hx hlt
    split at hlt
    · rename_i hblock
      obtain rfl : x = 256 := by omega
      exact hparent hblock
    · omega
  · intro hblock
    simp [firstDict, hblock]
  · intro k w hk hne
    rw [firstDict] at hk
    split at hk
    · rename_i hblock
      cases k with
      | zero => exact absurd ⟨hblock, rfl⟩ hne
      | succ k => cases hk
    · cases hk
  · intro p hp
    cases hp

theorem take_rep {t : LzcTables} {s : LzcState} {outPos : Nat} {outData : Nat → Byte}
    (hcursor : CursorRep c s v) (hfit : v.bitPos + v.numBits ≤ 8 * v.chunk.length)
    (hbuf : t.buf = s.tables.buf)
    (hdict : DictRep c
      { t with parents := if s.head < c.numItems then
          update t.parents s.head (BitVec.ofNat 16 symbol) else t.parents }
      (if s.head < c.numItems then s.head + 1 else s.head) (decide (s.head < c.numItems))
      (v.dict.learn 256 c.numItems w))
    (hout : OutRep c heap outPos outData (v.out ++ w)) :
    Rep c heap
      (lzcExtend c
        { s with
          bitPos := s.bitPos + s.numBits
          tables := t
          outPos := outPos
          outData := outData } symbol)
      (v.take c.maxbits w) := by
  have hcur : ∀ (t' : LzcTables), t'.buf = s.tables.buf → ∀ head needPrev,
      CursorRep c
        { s with
          tables := t'
          bitPos := s.bitPos + s.numBits
          outPos := outPos
          outData := outData
          head := head
          needPrev := needPrev }
        { v with
          dict := v.dict.learn 256 (2 ^ c.maxbits) w
          out := v.out ++ w
          bitPos := v.bitPos + v.numBits } := by
    intro t' ht' head needPrev
    exact { hcursor with
      bitPos := by simp only [hcursor.bitPos, hcursor.numBits]
      within := hfit
      buf := fun k hk => by simp only [ht']; exact hcursor.buf k hk }
  have hlearn : (v.dict.learn 256 (2 ^ c.maxbits) w).prev.isSome = decide (s.head < c.numItems) :=
    hdict.needPrev_eq.symm
  have hlearnNext : (v.dict.learn 256 (2 ^ c.maxbits) w).next 256 =
      if s.head < c.numItems then s.head + 1 else s.head := hdict.head_eq.symm
  rw [lzcExtend, LzcView.take]
  by_cases hroom : s.head < c.numItems
  · simp only [if_pos hroom, decide_eq_true hroom] at hdict hlearn hlearnNext ⊢
    rw [hcursor.numBits] at *
    by_cases hwide : s.head + 1 > 2 ^ v.numBits ∧ v.numBits < c.maxbits
    · rw [if_pos hwide, if_pos ⟨hlearn, by rw [hlearnNext]; exact hwide.1, hwide.2⟩]
      have hold := hcur t hbuf s.head s.needPrev
      refine ⟨?_, hdict, hout⟩
      exact
        { widthMin := by have := hold.widthMin; simp only at this ⊢; omega
          widthMax := hwide.2
          maxbits := hold.maxbits
          numBits := rfl
          inPos := hold.inPos
          rest := hold.rest
          bitPos := rfl
          numBufBits := rfl
          within := Nat.le_refl _
          chunk := Nat.zero_le _
          buf := fun k hk => absurd hk (Nat.not_lt_zero k) }
    · rw [if_neg hwide, if_neg (fun h => hwide ⟨by rw [hlearnNext] at h; exact h.2.1, h.2.2⟩)]
      have hold := hcur { t with parents := update t.parents s.head (BitVec.ofNat 16 symbol) } hbuf
        (s.head + 1) true
      exact ⟨hold, hdict, hout⟩
  · simp only [if_neg hroom, decide_eq_false hroom] at hdict hlearn hlearnNext ⊢
    rw [if_neg (by simp [hlearn])]
    exact ⟨hcur t hbuf s.head false, hdict, hout⟩

namespace LzcView

variable {maxbits : Nat} {blockMode : Bool}

theorem turn_done (h : v.fill.bitPos + v.fill.numBits > 8 * v.fill.chunk.length) :
    v.turn maxbits blockMode = .done v.fill.out := if_pos h

theorem turn_clear (h : ¬v.fill.bitPos + v.fill.numBits > 8 * v.fill.chunk.length)
    (hclear : blockMode = true ∧ v.fill.symbol = 256) :
    v.turn maxbits blockMode = .next (v.fill.clear blockMode) := by
  rw [turn]
  exact (if_neg h).trans (if_pos hclear)

theorem turn_code (h : ¬v.fill.bitPos + v.fill.numBits > 8 * v.fill.chunk.length)
    (hclear : ¬(blockMode = true ∧ v.fill.symbol = 256)) :
    v.turn maxbits blockMode = match v.fill.dict.string letter 256 v.fill.symbol with
      | none => .errData
      | some w => .next (v.fill.take maxbits w) := by
  rw [turn]
  exact (if_neg h).trans (if_neg hclear)

end LzcView

theorem clear_rep (hitems : 512 ≤ c.numItems) (hcursor : CursorRep c s v)
    (hdict : DictRep c s.tables s.head s.needPrev v.dict)
    (hout : OutRep c heap s.outPos s.outData v.out) (hblock : c.blockMode = true) :
    Rep c heap
      { s with numBufBits := 0, bitPos := 0, numBits := 9, head := 257, needPrev := false }
      (v.clear c.blockMode) where
  cursor :=
    { widthMin := Nat.le_refl _
      widthMax := Nat.le_trans hcursor.widthMin hcursor.widthMax
      maxbits := hcursor.maxbits
      numBits := rfl
      inPos := hcursor.inPos
      rest := hcursor.rest
      bitPos := rfl
      numBufBits := rfl
      within := Nat.le_refl _
      chunk := Nat.zero_le _
      buf := fun k hk => absurd hk (Nat.not_lt_zero k) }
  dict := by
    have hne := hdict.clear hblock
    have hpos := List.length_pos_iff.mpr hne
    have hbase := hdict.entries_le
    have hfirst := @firstDict_rep c s.tables hitems _ rfl fun _ =>
      hdict.parents 256 (by omega) (by omega)
    rw [if_pos hblock] at hfirst
    exact hfirst
  out := hout

theorem code_rep (hcursor : CursorRep c s v)
    (hdict : DictRep c s.tables s.head s.needPrev v.dict)
    (hout : OutRep c heap s.outPos s.outData v.out)
    (hfit : v.bitPos + v.numBits ≤ 8 * v.chunk.length)
    (hclear : c.blockMode = true → v.symbol ≠ 256)
    (hstring : v.dict.string letter 256 v.symbol = some w) :
    ∃ s', lzcCode c { s with bitPos := s.bitPos + s.numBits } v.symbol = some (.next s') ∧
      Rep c heap s' (v.take c.maxbits w) := by
  obtain ⟨stack, cur, hchain, hcur, hpos, _, hstack⟩ := hdict.chain hstring hclear
  have hlt : ¬v.symbol ≥ s.head := by
    have hsome : (v.dict.string letter 256 v.symbol).isSome := by
      rw [hstring]
      rfl
    rw [string_isSome, ← hdict.head_eq] at hsome
    omega
  rw [lzcCode]
  simp only
  rw [if_neg (by rw [hcursor.bitPos, hcursor.numBits, hcursor.numBufBits]; omega), if_neg hlt,
    if_neg (fun h => hclear h.1 h.2), hchain]
  simp only
  refine ⟨_, rfl, ?_⟩
  have hbits := hcursor.maxbits
  cases hneed : s.needPrev with
  | false =>
    rw [hneed] at hstack hdict
    simp only [Bool.false_eq_true, false_and, if_false] at hstack ⊢
    have hlearn := @DictRep.learn c (if s.head < c.numItems then
        update s.tables.parents s.head (BitVec.ofNat 16 v.symbol) else s.tables.parents)
      s.tables.suffixes w s.tables s.head v.symbol false v.dict stack hdict hstring hclear hbits rfl rfl
    exact take_rep hcursor hfit rfl hlearn (emit_out hout hstack)
  | true =>
    rw [hneed] at hstack hdict
    simp only [true_and, if_true] at hstack ⊢
    have hlearn := @DictRep.learn c (if s.head < c.numItems then
        update s.tables.parents s.head (BitVec.ofNat 16 v.symbol) else s.tables.parents)
      (update s.tables.suffixes (s.head - 1) (letter cur)) w s.tables s.head v.symbol true v.dict
      (if v.symbol = s.head - 1 then update stack 0 (letter cur) else stack) hdict hstring hclear hbits
      (by rw [hcur]; rfl) rfl
    exact take_rep hcursor hfit rfl hlearn (emit_out hout hstack)

theorem fill_bitPos (h : CursorRep c s v) :
    v.fill.bitPos < 8 * v.fill.chunk.length ∨ v.fill.bitPos = 0 := by
  have hin := h.within
  rw [LzcView.fill]
  split
  · exact Or.inr rfl
  · left
    omega

theorem turn_rep (hitems : 512 ≤ c.numItems) (h : Rep c heap s v) :
    ∃ r, lzcTurn c s = some r ∧ TurnRep c heap r (v.turn c.maxbits c.blockMode) := by
  obtain ⟨s', hrefill, hcursor, hparents, hsuffixes, hhead, hneed, houtPos, houtData⟩ :=
    refill_cursor h.cursor
  obtain ⟨symbol, hsymbol, hfit⟩ := symbol_cursor hcursor (fill_bitPos h.cursor)
  have hdict : DictRep c s'.tables s'.head s'.needPrev v.fill.dict := by
    rw [fill_width.2.1, hhead, hneed]
    exact h.dict.congr hparents hsuffixes
  have hout : OutRep c heap s'.outPos s'.outData v.fill.out := by
    rw [fill_width.2.2, houtPos, houtData]
    exact h.out
  rw [lzcTurn_eq hrefill hsymbol]
  by_cases hshort : v.fill.bitPos + v.fill.numBits > 8 * v.fill.chunk.length
  · rw [LzcView.turn_done hshort, lzcCode]
    refine ⟨_, if_pos ?_, TurnRep.done hout⟩
    simp only [hcursor.bitPos, hcursor.numBits, hcursor.numBufBits]
    exact hshort
  · obtain rfl := hfit (by omega)
    by_cases hclear : c.blockMode = true ∧ v.fill.symbol = 256
    · have hpos := List.length_pos_iff.mpr (hdict.clear hclear.1)
      have hbase := hdict.entries_le
      rw [LzcView.turn_clear hshort hclear, lzcCode]
      simp only
      rw [if_neg (by rw [hcursor.bitPos, hcursor.numBits, hcursor.numBufBits]; exact hshort),
        if_neg (by omega), if_pos hclear]
      exact ⟨_, rfl, TurnRep.next (clear_rep hitems hcursor hdict hout hclear.1)⟩
    · rw [LzcView.turn_code hshort hclear]
      cases hstring : v.fill.dict.string letter 256 v.fill.symbol with
      | none =>
        have hnone := @string_isSome _ letter 256 v.fill.symbol v.fill.dict
        rw [hstring, ← hdict.head_eq] at hnone
        simp only [Option.isSome_none, Bool.false_eq_true, false_iff] at hnone
        rw [lzcCode]
        simp only
        rw [if_neg (by rw [hcursor.bitPos, hcursor.numBits, hcursor.numBufBits]; exact hshort),
          if_pos (by omega)]
        exact ⟨_, rfl, TurnRep.errData⟩
      | some w =>
        obtain ⟨s'', hcode, hrep⟩ := code_rep hcursor hdict hout (by omega)
          (fun hblock hsym => hclear ⟨hblock, hsym⟩) hstring
        exact ⟨_, hcode, TurnRep.next hrep⟩

/-! The whole run. -/

def LzcView.left (v : LzcView) : Nat := 8 * v.rest.length + (8 * v.chunk.length - v.bitPos)

theorem LzcView.left_turn {maxbits : Nat} {blockMode : Bool} {v' : LzcView}
    (hpos : 0 < v.numBits) (h : v.turn maxbits blockMode = .next v') : v'.left < v.left := by
  have hfill : v.fill.left ≤ v.left := by
    rw [LzcView.fill, LzcView.left, LzcView.left]
    split
    · simp only [List.length_drop, List.length_take]
      omega
    · omega
  have hnum := (fill_width (v := v)).1
  by_cases hshort : v.fill.bitPos + v.fill.numBits > 8 * v.fill.chunk.length
  · rw [turn_done hshort] at h
    cases h
  · by_cases hclear : blockMode = true ∧ v.fill.symbol = 256
    · rw [turn_clear hshort hclear] at h
      cases h
      simp only [LzcView.left, LzcView.clear, List.length_nil] at hfill ⊢
      omega
    · rw [turn_code hshort hclear] at h
      split at h
      · cases h
      · cases h
        rw [LzcView.take]
        simp only [LzcView.left] at hfill ⊢
        split <;> simp only [List.length_nil] <;> omega

theorem run_rep {fuel : Nat} (hitems : 512 ≤ c.numItems) (h : Rep c heap s v)
    (hfuel : v.left < fuel) :
    ∃ e s', lzcRun c fuel s = some (e, s') ∧
      match LzcView.run c.maxbits c.blockMode fuel v with
      | some out => e = 0 ∧ OutRep c heap s'.outPos s'.outData out
      | none => e = -1 := by
  induction fuel generalizing s v with
  | zero => omega
  | succ fuel ih =>
    obtain ⟨r, hturn, hr⟩ := turn_rep hitems h
    rw [lzcRun, hturn, LzcView.run]
    generalize hview : v.turn c.maxbits c.blockMode = turn at hr
    cases hr with
    | done hout => exact ⟨0, _, rfl, rfl, hout⟩
    | errData => exact ⟨-1, _, rfl, rfl⟩
    | next hrep =>
      have hmin := h.cursor.widthMin
      have hleft := LzcView.left_turn (by omega) hview
      exact ih hrep (by omega)

end Dynamips.Nvram
