import Dynamips.Utils

/-! The memory of a guest as its devices see it: bytes, and words in the byte
order of the guest. -/
set_option autoImplicit false

namespace Dynamips.GuestRam

abbrev Ram := Nat → Byte

def physmemCopyToVm (m : Ram) (realBuffer : List Byte) (paddr : Nat) : Ram := fun a =>
  if paddr ≤ a ∧ a < paddr + realBuffer.length then realBuffer.getD (a - paddr) 0 else m a

def physmemCopyFromVm (m : Ram) (paddr len : Nat) : List Byte :=
  (List.range len).map fun i => m (paddr + i)

def physmemCopyU32FromVm (m : Ram) (paddr : Nat) : BitVec 32 :=
  mNtoh32 (physmemCopyFromVm m paddr 4)

def physmemCopyU32ToVm (m : Ram) (paddr : Nat) (val : BitVec 32) : Ram :=
  physmemCopyToVm m (mHton32 val) paddr

/-- A test of a word for a flag. -/
def hasFlag (w flag : BitVec 32) : Bool := w &&& flag ≠ 0

theorem hasFlag_or (w w' flag : BitVec 32) :
    hasFlag (w ||| w') flag = (hasFlag w flag || hasFlag w' flag) := by
  simp only [hasFlag, BitVec.and_or_distrib_right, ne_eq]
  grind

theorem hasFlag_twoPow (w : BitVec 32) (i : Nat) :
    hasFlag w (BitVec.twoPow 32 i) = w.getLsbD i := by
  rw [hasFlag, BitVec.and_twoPow]
  cases h : w.getLsbD i with
  | true =>
    have hi := BitVec.lt_of_getLsbD h
    have hne : BitVec.twoPow 32 i ≠ 0#32 := by
      intro heq
      have hbit := congrArg (BitVec.getLsbD · i) heq
      simp [hi] at hbit
    simpa using hne
  | false => simp

variable {m m' : Ram}

@[simp] theorem length_physmemCopyFromVm (paddr len : Nat) :
    (physmemCopyFromVm m paddr len).length = len := by
  simp [physmemCopyFromVm]

theorem copyToVm_of_not_mem {data : List Byte} {paddr a : Nat}
    (h : a < paddr ∨ paddr + data.length ≤ a) : physmemCopyToVm m data paddr a = m a := by
  rw [physmemCopyToVm, if_neg (by omega)]

theorem copyFromVm_congr {paddr len : Nat} (h : ∀ a, paddr ≤ a → a < paddr + len → m a = m' a) :
    physmemCopyFromVm m paddr len = physmemCopyFromVm m' paddr len := by
  simp only [physmemCopyFromVm]
  exact List.map_congr_left fun i hi =>
    h (paddr + i) (by omega) (by have := List.mem_range.mp hi; omega)

theorem copyFromVm_append (paddr n k : Nat) : physmemCopyFromVm m paddr (n + k) =
    physmemCopyFromVm m paddr n ++ physmemCopyFromVm m (paddr + n) k := by
  simp [physmemCopyFromVm, List.range_add, Function.comp_def, Nat.add_assoc]

theorem take_copyFromVm (m : Ram) (paddr : Nat) {n k : Nat} (h : k ≤ n) :
    (physmemCopyFromVm m paddr n).take k = physmemCopyFromVm m paddr k := by
  rw [physmemCopyFromVm, ← List.map_take, List.take_range, Nat.min_eq_left h, physmemCopyFromVm]

theorem copyFromVm_copyToVm (data : List Byte) (paddr : Nat) :
    physmemCopyFromVm (physmemCopyToVm m data paddr) paddr data.length = data := by
  apply List.ext_getElem
  · simp
  · intro i hi hi'
    simp [physmemCopyFromVm, physmemCopyToVm, hi']

theorem copyFromVm_disjoint {data : List Byte} {paddr paddr' len : Nat}
    (h : paddr + len ≤ paddr' ∨ paddr' + data.length ≤ paddr) :
    physmemCopyFromVm (physmemCopyToVm m data paddr') paddr len = physmemCopyFromVm m paddr len :=
  copyFromVm_congr fun a ha ha' => copyToVm_of_not_mem (by omega)

/-! Words. -/

theorem u32_congr {paddr : Nat} (h : ∀ a, paddr ≤ a → a < paddr + 4 → m a = m' a) :
    physmemCopyU32FromVm m paddr = physmemCopyU32FromVm m' paddr := by
  rw [physmemCopyU32FromVm, copyFromVm_congr h, physmemCopyU32FromVm]

theorem u32_u32ToVm (paddr : Nat) (val : BitVec 32) :
    physmemCopyU32FromVm (physmemCopyU32ToVm m paddr val) paddr = val := by
  have hread := copyFromVm_copyToVm (m := m) (mHton32 val) paddr
  have hval := mNtoh32_mHton32 val []
  rw [length_mHton32] at hread
  rwa [physmemCopyU32FromVm, physmemCopyU32ToVm, hread, ← List.append_nil (mHton32 val)]

theorem u32_copyToVm {data : List Byte} {paddr paddr' : Nat}
    (h : paddr + 4 ≤ paddr' ∨ paddr' + data.length ≤ paddr) :
    physmemCopyU32FromVm (physmemCopyToVm m data paddr') paddr = physmemCopyU32FromVm m paddr := by
  rw [physmemCopyU32FromVm, copyFromVm_disjoint h, physmemCopyU32FromVm]

theorem u32_u32ToVm_disjoint {paddr paddr' : Nat} (val : BitVec 32)
    (h : paddr + 4 ≤ paddr' ∨ paddr' + 4 ≤ paddr) :
    physmemCopyU32FromVm (physmemCopyU32ToVm m paddr' val) paddr = physmemCopyU32FromVm m paddr :=
  u32_copyToVm (by simpa using h)

theorem copyToVm_append (a b : List Byte) (paddr : Nat) :
    physmemCopyToVm m (a ++ b) paddr =
      physmemCopyToVm (physmemCopyToVm m a paddr) b (paddr + a.length) := by
  funext x
  simp only [physmemCopyToVm, List.length_append, List.getD_eq_getElem?_getD,
    List.getElem?_append]
  grind

/-- Words that are stored one after the other. -/
theorem u32_words {words : List (BitVec 32)} {k paddr : Nat} {w : BitVec 32}
    (h : words[k]? = some w) :
    physmemCopyU32FromVm (physmemCopyToVm m (words.flatMap mHton32) paddr) (paddr + 4 * k) = w := by
  induction words generalizing m paddr k with
  | nil => cases h
  | cons v words ih =>
    rw [List.flatMap_cons, copyToVm_append, length_mHton32]
    cases k with
    | zero =>
      cases h
      rw [u32_copyToVm (by omega)]
      exact u32_u32ToVm paddr w
    | succ k =>
      rw [show paddr + 4 * (k + 1) = paddr + 4 + 4 * k by omega]
      exact ih h

end Dynamips.GuestRam
