import Mathlib.Algebra.BigOperators.Group.List.Basic
import Mathlib.Algebra.Order.Ring.Int

/-! Sums of 16-bit words in one's complement, where the carry comes around. -/
set_option autoImplicit false

namespace Dynamips

def onesAdd (a b : Nat) : Nat := if a + b < 2 ^ 16 then a + b else a + b - 0xFFFF

def onesSum (words : List Nat) : Nat := words.foldr onesAdd 0

theorem onesAdd_spec {a b : Nat} (ha : a < 2 ^ 16) (hb : b < 2 ^ 16) :
    onesAdd a b < 2 ^ 16 ∧ onesAdd a b % 0xFFFF = (a + b) % 0xFFFF ∧
      (onesAdd a b = 0 ↔ a + b = 0) := by
  rw [onesAdd]
  split <;> omega

/-- The sum is the plain sum modulo 65535, where 65535 stands for a sum that is not zero. -/
theorem onesSum_spec {words : List Nat} (h : ∀ w ∈ words, w < 2 ^ 16) :
    onesSum words < 2 ^ 16 ∧ onesSum words % 0xFFFF = words.sum % 0xFFFF ∧
      (onesSum words = 0 ↔ words.sum = 0) := by
  induction words with
  | nil => decide
  | cons w words ih =>
    rw [List.forall_mem_cons] at h
    obtain ⟨hlt, hmod, hzero⟩ := ih h.2
    have hadd := onesAdd_spec h.1 hlt
    rw [onesSum, List.foldr_cons, List.sum_cons]
    rw [onesSum] at hlt hmod hzero hadd
    omega

theorem onesSum_eq_iff {words : List Nat} (h : ∀ w ∈ words, w < 2 ^ 16) :
    onesSum words = 0xFFFF ↔ words.sum % 0xFFFF = 0 ∧ words.sum ≠ 0 := by
  have hspec := onesSum_spec h
  omega

/-- One term of a sum gets more. -/
theorem sum_map_range_add (f : Nat → Nat) (k c n : Nat) :
    ((List.range n).map fun i => if i = k then f i + c else f i).sum =
      ((List.range n).map f).sum + if k < n then c else 0 := by
  induction n with
  | zero => simp
  | succ n ih =>
    simp only [List.range_succ, List.map_append, List.map_cons, List.map_nil, List.sum_append,
      List.sum_cons, List.sum_nil, ih]
    split <;> split <;> split <;> omega

theorem sum_map_range_le {f : Nat → Nat} {c n : Nat} (h : ∀ i < n, f i ≤ c) :
    ((List.range n).map f).sum ≤ n * c := by
  induction n with
  | zero => simp
  | succ n ih =>
    have hlast := h n (by omega)
    have hrest := ih fun i hi => h i (by omega)
    simp only [List.range_succ, List.map_append, List.map_cons, List.map_nil, List.sum_append,
      List.sum_cons, List.sum_nil]
    rw [Nat.succ_mul]
    omega

end Dynamips
