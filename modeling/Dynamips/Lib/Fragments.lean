import Mathlib.Algebra.Order.Ring.Int

/-! A list spread over places of given sizes, in order. -/
set_option autoImplicit false

namespace Dynamips.Fragments

variable {α : Type}

/-- The room before a place. -/
def offset (cap : Nat → Nat) : Nat → Nat
  | 0 => 0
  | n + 1 => offset cap n + cap n

/-- What goes to a place. -/
def chunk (cap : Nat → Nat) (l : List α) (i : Nat) : List α :=
  (l.drop (offset cap i)).take (cap i)

variable {cap : Nat → Nat} {l : List α}

theorem drop_offset_succ (i : Nat) :
    (l.drop (offset cap i)).drop (cap i) = l.drop (offset cap (i + 1)) := by
  rw [List.drop_drop, offset]

theorem flatten_chunks (n : Nat) :
    ((List.range n).map (chunk cap l)).flatten = l.take (offset cap n) := by
  induction n with
  | zero => simp [offset]
  | succ n ih =>
    rw [List.range_succ, List.map_append, List.flatten_append, ih, List.map_singleton,
      List.flatten_singleton, chunk, offset, List.take_add]

theorem offset_mono {i j : Nat} (h : i ≤ j) : offset cap i ≤ offset cap j := by
  induction j with
  | zero => simp [Nat.le_zero.mp h]
  | succ j ih =>
    rcases Nat.le_succ_iff.mp h with h | rfl
    · have := ih h
      simp only [offset]
      omega
    · rfl

/-- A list cut into pieces of given sizes, the last ones short or empty. -/
def pieces : List Nat → List α → List (List α)
  | [], _ => []
  | n :: sizes, l => l.take n :: pieces sizes (l.drop n)

theorem flatten_pieces (sizes : List Nat) (l : List α) :
    (pieces sizes l).flatten = l.take sizes.sum := by
  induction sizes generalizing l with
  | nil => simp [pieces]
  | cons n sizes ih =>
    rw [pieces, List.flatten_cons, ih, List.sum_cons, List.take_add]

/-- Nothing is left behind the first place where the list ends. -/
theorem drop_eq_nil_iff (i : Nat) : l.drop (offset cap i) = [] ↔ l.length ≤ offset cap i :=
  List.drop_eq_nil_iff

end Dynamips.Fragments
