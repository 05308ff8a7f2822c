import Mathlib.Algebra.Order.Ring.Int

/-! Words that are shifted in and out one bit at a time, from the most significant
bit on. -/
set_option autoImplicit false

namespace Dynamips.MsbBits

variable {w n : Nat}

def bitsMsb (x : BitVec w) : List Bool := (List.range w).map x.getMsbD

def shiftIn (acc : BitVec n) (b : Bool) : BitVec n := acc <<< 1 ||| (BitVec.ofBool b).setWidth n

def pushBits (acc : BitVec n) (bits : List Bool) : BitVec n := bits.foldl shiftIn acc

/-- The bits that leave a word, and what is left of it. -/
def popBits : Nat → BitVec n → List Bool
  | 0, _ => []
  | k + 1, x => x.msb :: popBits k (x <<< 1)

@[simp] theorem length_bitsMsb (x : BitVec w) : (bitsMsb x).length = w := by
  simp [bitsMsb]

theorem pushBits_append (acc : BitVec n) (bits bits' : List Bool) :
    pushBits acc (bits ++ bits') = pushBits (pushBits acc bits) bits' :=
  List.foldl_append

theorem getLsbD_shiftIn (acc : BitVec n) (b : Bool) {i : Nat} (hi : i < n) :
    (shiftIn acc b).getLsbD i = if i = 0 then b else acc.getLsbD (i - 1) := by
  rw [shiftIn, BitVec.getLsbD_or, BitVec.getLsbD_shiftLeft, BitVec.getLsbD_setWidth]
  cases i with
  | zero => simp [hi]
  | succ i =>
    simp [hi]

theorem getLsbD_pushBits (acc : BitVec n) (bits : List Bool) {i : Nat} (hi : i < n) :
    (pushBits acc bits).getLsbD i =
      if i < bits.length then bits.getD (bits.length - 1 - i) false
      else acc.getLsbD (i - bits.length) := by
  induction bits generalizing acc with
  | nil => rfl
  | cons b bits ih =>
    rw [pushBits, List.foldl_cons]
    have hrec := ih (shiftIn acc b)
    rw [pushBits] at hrec
    rw [hrec, List.length_cons]
    by_cases hlt : i < bits.length
    · rw [if_pos hlt, if_pos (by omega)]
      rw [show bits.length + 1 - 1 - i = bits.length - 1 - i + 1 by omega, List.getD_cons_succ]
    · rw [if_neg hlt, getLsbD_shiftIn acc b (by omega)]
      by_cases heq : i = bits.length
      · simp [heq]
      · rw [if_neg (by omega), if_neg (by omega), Nat.sub_sub]

/-- All bits of a word shifted into nothing are the word. -/
theorem pushBits_bitsMsb (x : BitVec w) : pushBits 0 (bitsMsb x) = x.setWidth n := by
  apply BitVec.eq_of_getLsbD_eq
  intro i hi
  rw [getLsbD_pushBits 0 _ hi, length_bitsMsb, BitVec.getLsbD_setWidth]
  by_cases hlt : i < w
  · have hpos : w - 1 - i < w := by omega
    rw [if_pos hlt, bitsMsb, List.getD_eq_getElem?_getD, List.getElem?_map,
      List.getElem?_range hpos]
    simp [BitVec.getMsbD, hpos, hi, show w - 1 - (w - 1 - i) = i by omega]
  · rw [if_neg hlt, BitVec.getLsbD_of_ge x i (by omega)]
    simp

theorem shiftIn_lt {acc : BitVec n} {k : Nat} (h : acc.toNat < 2 ^ k) (b : Bool) :
    (shiftIn acc b).toNat < 2 ^ (k + 1) := by
  apply Nat.lt_pow_two_of_testBit
  intro i hi
  by_cases hin : i < n
  · have hbit := getLsbD_shiftIn acc b hin
    rw [if_neg (by omega)] at hbit
    rw [BitVec.testBit_toNat, hbit, BitVec.getLsbD]
    have hle : 2 ^ k ≤ 2 ^ (i - 1) := Nat.pow_le_pow_right (by decide) (by omega)
    exact Nat.testBit_lt_two_pow (Nat.lt_of_lt_of_le h hle)
  · rw [BitVec.testBit_toNat]
    exact BitVec.getLsbD_of_ge _ _ (by omega)

theorem popBits_eq (x : BitVec n) {k : Nat} (hk : k ≤ n) :
    popBits k x = (List.range k).map x.getMsbD := by
  induction k generalizing x with
  | zero => rfl
  | succ k ih =>
    rw [popBits, ih (x <<< 1) (by omega), List.range_succ_eq_map, List.map_cons, List.map_map]
    congr 1
    apply List.map_congr_left
    intro i hi
    have hlt := List.mem_range.mp hi
    rw [Function.comp_apply, BitVec.getMsbD_shiftLeft]

end Dynamips.MsbBits
