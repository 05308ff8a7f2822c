import Dynamips.Lib.Bytes

/-! The byte-order helpers of utils.h, with the limits of an int. A pointer is
the list of the bytes it points to. -/
set_option autoImplicit false

namespace Dynamips

def INT_MAX : Int := 2147483647

def INT_MIN : Int := -2147483648

def mNtoh16 (ptr : List Byte) : BitVec 16 :=
  (((ptr.getD 0 0).setWidth 32 <<< 8) ||| (ptr.getD 1 0).setWidth 32).setWidth 16

def mNtoh32 (ptr : List Byte) : BitVec 32 :=
  ((ptr.getD 0 0).setWidth 32 <<< 24) ||| ((ptr.getD 1 0).setWidth 32 <<< 16) |||
    ((ptr.getD 2 0).setWidth 32 <<< 8) ||| (ptr.getD 3 0).setWidth 32

/-- The four bytes that `m_hton32` stores. -/
def mHton32 (val : BitVec 32) : List Byte :=
  [(val >>> 24).setWidth 8, (val >>> 16).setWidth 8, (val >>> 8).setWidth 8, val.setWidth 8]

def mHton16 (val : BitVec 16) : List Byte :=
  [(val >>> 8).setWidth 8, val.setWidth 8]

@[simp] theorem length_mHton16 (val : BitVec 16) : (mHton16 val).length = 2 := rfl

@[simp] theorem length_mHton32 (val : BitVec 32) : (mHton32 val).length = 4 := rfl

theorem mNtoh32_mHton32 (val : BitVec 32) (rest : List Byte) :
    mNtoh32 (mHton32 val ++ rest) = val := by
  apply BitVec.eq_of_getLsbD_eq
  intro i hi
  rcases (by omega : i < 8 ∨ (8 ≤ i ∧ i < 16) ∨ (16 ≤ i ∧ i < 24) ∨ (24 ≤ i ∧ i < 32)) with
    h | h | h | h
  · simp [mNtoh32, mHton32, h, hi, show i < 16 by omega, show i < 24 by omega]
  · simp [mNtoh32, mHton32, h, hi, show ¬ i < 8 by omega, show i < 24 by omega,
      show i - 8 < 8 by omega, show 8 + (i - 8) = i by omega]
  · simp [mNtoh32, mHton32, h, hi, show ¬ i < 8 by omega, show ¬ i < 16 by omega,
      show ¬ i - 8 < 8 by omega, show i - 16 < 8 by omega, show 16 + (i - 16) = i by omega]
  · simp [mNtoh32, mHton32, hi, show ¬ i < 8 by omega, show ¬ i < 16 by omega,
      show ¬ i < 24 by omega, show ¬ i - 8 < 8 by omega, show ¬ i - 16 < 8 by omega,
      show i - 24 < 8 by omega, show 24 + (i - 24) = i by omega]

theorem mNtoh16_mHton32 (val : BitVec 32) (rest : List Byte) :
    mNtoh16 ((mHton32 val).drop 2 ++ rest) = val.setWidth 16 := by
  apply BitVec.eq_of_getLsbD_eq
  intro i hi
  rcases (by omega : i < 8 ∨ (8 ≤ i ∧ i < 16)) with h | h
  · simp [mNtoh16, mHton32, h, hi]
  · simp [mNtoh16, mHton32, h, show ¬ i < 8 by omega, show i < 32 by omega,
      show i - 8 < 8 by omega, show 8 + (i - 8) = i by omega]

theorem mNtoh16_mHton16 (val : BitVec 16) (rest : List Byte) :
    mNtoh16 (mHton16 val ++ rest) = val := by
  apply BitVec.eq_of_getLsbD_eq
  intro i hi
  rcases (by omega : i < 8 ∨ (8 ≤ i ∧ i < 16)) with h | h
  · simp [mNtoh16, mHton16, h, hi]
  · simp [mNtoh16, mHton16, h, show ¬ i < 8 by omega,
      show i - 8 < 8 by omega, show 8 + (i - 8) = i by omega]

theorem mNtoh16_high (ptr : List Byte) : (mNtoh16 ptr >>> 8).setWidth 8 = ptr.getD 0 0 := by
  apply BitVec.eq_of_getLsbD_eq
  intro i hi
  simp [mNtoh16, hi, show 8 + i < 16 by omega]

theorem mHton16_mNtoh16 (a b : Byte) : mHton16 (mNtoh16 [a, b]) = [a, b] := by
  have hb : (mNtoh16 [a, b]).setWidth 8 = b := by
    apply BitVec.eq_of_getLsbD_eq
    intro i hi
    simp [mNtoh16, hi]
  rw [mHton16, mNtoh16_high, hb]
  rfl

end Dynamips
