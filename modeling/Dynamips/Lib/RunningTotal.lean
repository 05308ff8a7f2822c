import Mathlib.Algebra.BigOperators.Fin
import Mathlib.Algebra.Group.Fin.Basic
import Mathlib.Tactic.Ring

/-! Counters in a ring, one for each of the last `n` slots of time, and their sum. -/
set_option autoImplicit false

namespace Dynamips.RunningTotal
open Function

variable {n : Nat} {α : Type} [CommRing α]

/-- What was counted in the last `n` slots, the newest in front. -/
def windowSum (n : Nat) (slots : List Nat) : Nat := ∑ k ∈ Finset.range n, slots.getD k 0

def countNewest (x : Nat) : List Nat → List Nat
  | [] => [x]
  | y :: slots => (y + x) :: slots

/-- Backwards from `pos` the counters hold what was counted in each slot. -/
def Holds [NeZero n] (cnt : Fin n → α) (pos : Fin n) (slots : List Nat) : Prop :=
  ∀ k : Fin n, cnt (pos - k) = ((slots.getD k 0 : Nat) : α)

theorem getD_countNewest (x k : Nat) (slots : List Nat) :
    (countNewest x slots).getD k 0 = slots.getD k 0 + if k = 0 then x else 0 := by
  cases slots with
  | nil => cases k <;> simp [countNewest]
  | cons y slots => cases k <;> simp [countNewest]

variable {cnt : Fin n → α} {pos : Fin n} {slots : List Nat}

theorem sum_update (v : α) : ∑ i, update cnt pos v i = ∑ i, cnt i - cnt pos + v := by
  rw [Finset.sum_update_of_mem (Finset.mem_univ pos),
    ← Finset.sum_erase_add Finset.univ cnt (Finset.mem_univ pos), ← Finset.erase_eq]
  ring

variable [NeZero n]

theorem Holds.count (h : Holds cnt pos slots) (x : Nat) :
    Holds (update cnt pos (cnt pos + x)) pos (countNewest x slots) := by
  intro k
  rw [getD_countNewest]
  by_cases hk : k = 0
  · subst hk
    have hpos := h 0
    rw [sub_zero] at hpos ⊢
    simp [hpos]
  · have hne : pos - k ≠ pos := by simpa using hk
    have hval : (k : Nat) ≠ 0 := fun hzero => hk (Fin.ext hzero)
    rw [update_of_ne hne, h k, if_neg hval, Nat.add_zero]

/-- The oldest counter becomes the one of a new slot. -/
theorem Holds.rotate (h : Holds cnt pos slots) :
    Holds (update cnt (pos + 1) 0) (pos + 1) (0 :: slots) := by
  intro k
  by_cases hk : k = 0
  · subst hk
    simp
  · have hne : pos + 1 - k ≠ pos + 1 := by simpa using hk
    have hval : (k : Nat) = (k - 1 : Fin n) + 1 := by
      have hpos : (k : Nat) ≠ 0 := fun hzero => hk (Fin.ext hzero)
      rw [Fin.val_sub_one_of_ne_zero hk]
      omega
    have hprev := h (k - 1)
    rw [sub_sub_eq_add_sub] at hprev
    rw [update_of_ne hne, hprev, hval, List.getD_cons_succ]

theorem Holds.sum_eq (h : Holds cnt pos slots) : ∑ i, cnt i = (windowSum n slots : α) := by
  calc ∑ i, cnt i = ∑ k, cnt (pos - k) := (Equiv.sum_comp (Equiv.subLeft pos) cnt).symm
    _ = ∑ k : Fin n, ((slots.getD k 0 : Nat) : α) := Finset.sum_congr rfl fun k _ => h k
    _ = (windowSum n slots : α) := by rw [windowSum, Finset.sum_range, Nat.cast_sum]

end Dynamips.RunningTotal
