import Mathlib.Data.List.TakeDrop

/-! Accesses to a value that lies across two groups of memory. A left access is
for the cells of the value in the group of its first cell, a right access for
those in the group of its last one; the other cells keep what they hold. -/
set_option autoImplicit false

namespace Dynamips.Unaligned

variable {α : Type}

/-- What a register holds after a left load at cell `k` of a group. -/
def loadLeft (k : Nat) (reg group : List α) : List α :=
  group.drop k ++ reg.drop (group.length - k)

def loadRight (k : Nat) (reg group : List α) : List α :=
  reg.take (reg.length - (k + 1)) ++ group.take (k + 1)

/-- What a group holds after a left store at its cell `k`. -/
def storeLeft (k : Nat) (reg group : List α) : List α :=
  group.take k ++ reg.take (group.length - k)

def storeRight (k : Nat) (reg group : List α) : List α :=
  reg.drop (reg.length - (k + 1)) ++ group.drop (k + 1)

/-- The cells of a value from cell `k` of the first of two groups on. -/
def window (k n : Nat) (g₀ g₁ : List α) : List α := ((g₀ ++ g₁).drop k).take n

variable {n k : Nat} {reg g₀ g₁ : List α}

theorem length_loadLeft (hr : reg.length = n) (hg : g₀.length = n) (hk : k ≤ n) :
    (loadLeft k reg g₀).length = n := by
  simp only [loadLeft, List.length_append, List.length_drop, hr, hg]
  omega

theorem loadRight_last (hr : reg.length = n) (hg : g₁.length = n) (hk : k + 1 = n) :
    loadRight k reg g₁ = g₁ := by
  simp [loadRight, hr, hk, ← hg]

theorem storeLeft_zero (hr : reg.length = n) (hg : g₀.length = n) : storeLeft 0 reg g₀ = reg := by
  simp [storeLeft, hg, ← hr]

theorem window_eq (hg : g₀.length = n) (h' : g₁.length = n) (hk : k ≤ n) :
    window k n g₀ g₁ = g₀.drop k ++ g₁.take k := by
  have hlen : n - (g₀.drop k).length = k := by
    rw [List.length_drop, hg]
    omega
  rw [window, List.drop_append_of_le_length (by omega), List.take_append, hlen,
    List.take_of_length_le (by rw [List.length_drop]; omega)]

/-- A left load and then a right load read the value across the two groups. -/
theorem load_pair (hr : reg.length = n) (hg : g₀.length = n) (h' : g₁.length = n)
    (hk : k + 1 ≤ n) :
    loadRight k (loadLeft (k + 1) reg g₀) g₁ = window (k + 1) n g₀ g₁ := by
  have htake : n - (k + 1) = (g₀.drop (k + 1)).length := by
    rw [List.length_drop, hg]
  rw [loadRight, length_loadLeft hr hg hk, window_eq hg h' hk, loadLeft, htake,
    List.take_left]

/-- A left store and a right store write the value across the two groups. -/
theorem store_pair (hr : reg.length = n) (hg : g₀.length = n) (h' : g₁.length = n)
    (hk : k + 1 ≤ n) :
    storeLeft (k + 1) reg g₀ ++ storeRight k reg g₁ =
      (g₀ ++ g₁).take (k + 1) ++ reg ++ (g₀ ++ g₁).drop (k + 1 + n) := by
  have hdrop : (g₀ ++ g₁).drop (k + 1 + n) = g₁.drop (k + 1) := by
    rw [List.drop_append, List.drop_of_length_le (by omega), hg]
    simp
  have hsplit : reg.take (n - (k + 1)) ++ reg.drop (n - (k + 1)) = reg :=
    List.take_append_drop _ _
  rw [storeLeft, storeRight, hr, hg, hdrop, List.take_append_of_le_length (by omega)]
  simp only [List.append_assoc]
  rw [← List.append_assoc (reg.take _), hsplit]

end Dynamips.Unaligned
