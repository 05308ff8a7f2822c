import Mathlib

/-! Cyclic redundancy checks. A word is the polynomial over GF(2) that has its
bits as coefficients, and the register of a check is a remainder. -/
set_option autoImplicit false

namespace Dynamips.Crc
open Polynomial

variable {w d : Nat}

noncomputable def poly (v : BitVec w) : (ZMod 2)[X] :=
  ∑ i ∈ Finset.range w, if v.getLsbD i then X ^ i else 0

/-- The polynomial of some bytes, the first of which has the highest coefficients. -/
noncomputable def bytesPoly (bytes : List (BitVec 8)) : (ZMod 2)[X] :=
  bytes.foldl (fun p b => p * X ^ 8 + poly b) 0

/-- One shift of a register of `d` bits, over a generator of degree `d`. -/
def shift (generator : BitVec w) (d : Nat) (v : BitVec w) : BitVec w :=
  if v.getLsbD (d - 1) then (v <<< 1) ^^^ generator else v <<< 1

theorem coeff_poly (v : BitVec w) (i : Nat) :
    (poly v).coeff i = if v.getLsbD i then 1 else 0 := by
  rw [poly, finsetSum_coeff]
  simp only [apply_ite (coeff · i), coeff_X_pow, coeff_zero]
  by_cases hi : i < w
  · rw [Finset.sum_eq_single_of_mem i (Finset.mem_range.mpr hi)]
    · simp
    · intro j _ hj
      simp [Ne.symm hj]
  · rw [BitVec.getLsbD_of_ge v i (by omega)]
    apply Finset.sum_eq_zero
    intro j hj
    have hne : i ≠ j := by
      have hlt := Finset.mem_range.mp hj
      omega
    simp [hne]

theorem poly_xor (a b : BitVec w) : poly (a ^^^ b) = poly a + poly b := by
  ext i
  simp only [coeff_add, coeff_poly, BitVec.getLsbD_xor]
  cases a.getLsbD i <;> cases b.getLsbD i <;> simp [CharTwo.add_self_eq_zero]

@[simp] theorem poly_zero : poly (0 : BitVec w) = 0 := by
  ext i
  simp [coeff_poly]

theorem poly_setWidth (v : BitVec w) {n : Nat} (h : ∀ i, n ≤ i → v.getLsbD i = false) :
    poly (v.setWidth n) = poly v := by
  ext i
  rw [coeff_poly, coeff_poly, BitVec.getLsbD_setWidth]
  by_cases hi : i < n
  · simp [hi]
  · simp [h i (by omega)]

theorem poly_shl (v : BitVec w) (h : v.getLsbD (w - 1) = false) : poly (v <<< 1) = X * poly v := by
  ext i
  cases i with
  | zero => simp [coeff_poly]
  | succ i =>
    rw [coeff_X_mul, coeff_poly, coeff_poly, BitVec.getLsbD_shiftLeft]
    by_cases hi : i + 1 < w
    · simp [hi]
    · have hbit : v.getLsbD i = false := by
        by_cases hlast : i = w - 1
        · rw [hlast, h]
        · exact BitVec.getLsbD_of_ge v i (by omega)
      simp [hi, hbit]

/-- The bits from `d` on are zero. -/
def Fits (d : Nat) (v : BitVec w) : Prop := ∀ i, d ≤ i → v.getLsbD i = false

section Register

variable {generator : BitVec w} (htop : generator.getLsbD d = true) (hfit : Fits (d + 1) generator)
variable {v : BitVec w}
include htop hfit

theorem shift_fits (hd : 0 < d) (hv : Fits d v) : Fits d (shift generator d v) := by
  intro i hi
  rw [shift]
  split
  · rename_i hbit
    rw [BitVec.getLsbD_xor, BitVec.getLsbD_shiftLeft]
    by_cases heq : i = d
    · subst heq
      have hlt : i < w := BitVec.lt_of_getLsbD htop
      have hne : ¬ i < 1 := by omega
      simp [htop, hbit, hlt, hne]
    · rw [hfit i (by omega), hv (i - 1) (by omega)]
      simp
  · rename_i hbit
    rw [BitVec.getLsbD_shiftLeft]
    by_cases heq : i = d
    · subst heq
      simp [hbit]
    · rw [hv (i - 1) (by omega)]
      simp

omit hfit in
/-- A shift of the register multiplies the remainder by X. -/
theorem mk_shift (hv : Fits d v) : AdjoinRoot.mk (poly generator) (poly (shift generator d v)) =
    AdjoinRoot.mk (poly generator) (X * poly v) := by
  have hlt : d < w := BitVec.lt_of_getLsbD htop
  have hshl := poly_shl v (hv (w - 1) (by omega))
  rw [shift]
  split
  · rw [poly_xor, hshl, map_add, AdjoinRoot.mk_self, add_zero]
  · rw [hshl]

theorem mk_shifts (hd : 0 < d) (hv : Fits d v) (n : Nat) :
    Fits d ((shift generator d)^[n] v) ∧
      AdjoinRoot.mk (poly generator) (poly ((shift generator d)^[n] v)) =
        AdjoinRoot.mk (poly generator) (X ^ n * poly v) := by
  induction n with
  | zero => simp [hv]
  | succ n ih =>
    rw [Function.iterate_succ_apply']
    refine ⟨shift_fits htop hfit hd ih.1, ?_⟩
    rw [mk_shift htop ih.1, map_mul, ih.2, ← map_mul, pow_succ']
    rw [mul_assoc]

end Register

/-- A table of the remainders of the bytes makes a check of any number of bytes. -/
theorem mk_table {g : (ZMod 2)[X]} {table : BitVec 8 → BitVec 8}
    (htable : ∀ b, AdjoinRoot.mk g (poly (table b)) = AdjoinRoot.mk g (X ^ 8 * poly b))
    (bytes : List (BitVec 8)) :
    AdjoinRoot.mk g (poly (bytes.foldl (fun accum b => table (accum ^^^ b)) 0)) =
      AdjoinRoot.mk g (bytesPoly bytes * X ^ 8) := by
  induction bytes using List.reverseRecOn with
  | nil => rw [List.foldl_nil, poly_zero, bytesPoly, List.foldl_nil, zero_mul]
  | append_singleton bytes b ih =>
    have hsnoc : bytesPoly (bytes ++ [b]) = bytesPoly bytes * X ^ 8 + poly b := by
      rw [bytesPoly, List.foldl_append]
      rfl
    rw [List.foldl_append, List.foldl_cons, List.foldl_nil, htable, poly_xor, map_mul, map_add,
      ih, ← map_add, ← map_mul, hsnoc, mul_comm]

end Dynamips.Crc
