import Mathlib.Data.List.Range
import Mathlib.Logic.Function.Basic
import Mathlib.Tactic.SplitIfs

/-! A ring of `n` slots with a read and a write index: one slot stays free, so
that equal indices mean that it is empty. -/
set_option autoImplicit false

namespace Dynamips.RingBuffer

variable {α : Type}

def next (n i : Nat) : Nat := if i + 1 = n then 0 else i + 1

def slot (n r i : Nat) : Nat := if r + i < n then r + i else r + i - n

def count (n r w : Nat) : Nat := if r ≤ w then w - r else w + n - r

/-- What the ring holds, the oldest first. -/
def contents (n : Nat) (buffer : Nat → α) (r w : Nat) : List α :=
  (List.range (count n r w)).map fun i => buffer (slot n r i)

variable {n r w i : Nat} {buffer : Nat → α}

theorem next_lt (h : i < n) : next n i < n := by
  unfold next
  split_ifs <;> omega

@[simp] theorem count_self : count n r r = 0 := by simp [count]

@[simp] theorem contents_self : contents n buffer r r = [] := by simp [contents]

@[simp] theorem length_contents : (contents n buffer r w).length = count n r w := by
  simp [contents]

theorem count_lt (hr : r < n) (hw : w < n) : count n r w < n := by
  unfold count
  split_ifs <;> omega

/-- The ring is full when the write index would meet the read index. -/
theorem next_eq_iff (hr : r < n) (hw : w < n) : next n w = r ↔ count n r w = n - 1 := by
  unfold next count
  split_ifs <;> omega

theorem slot_count (hr : r < n) (hw : w < n) : slot n r (count n r w) = w := by
  unfold slot count
  split_ifs <;> omega

theorem slot_ne (hr : r < n) (hi : i < count n r w) : slot n r i ≠ w := by
  unfold count at hi
  unfold slot
  split_ifs at hi ⊢ <;> omega

theorem count_next_write (hr : r < n) (h : next n w ≠ r) :
    count n r (next n w) = count n r w + 1 := by
  unfold next at h ⊢
  unfold count
  split_ifs at h ⊢ <;> omega

theorem count_next_read (hr : r < n) (hw : w < n) (h : r ≠ w) :
    count n (next n r) w + 1 = count n r w := by
  unfold next count
  split_ifs <;> omega

theorem slot_next (hi : i + 1 < n) : slot n (next n r) i = slot n r (i + 1) := by
  unfold slot next
  split_ifs <;> omega

theorem contents_put (hr : r < n) (hw : w < n) (h : next n w ≠ r) (x : α) :
    contents n (Function.update buffer w x) r (next n w) = contents n buffer r w ++ [x] := by
  unfold contents
  rw [count_next_write hr h, List.range_succ, List.map_append, List.map_singleton,
    slot_count hr hw, Function.update_self]
  congr 1
  apply List.map_congr_left
  intro i hi
  rw [Function.update_of_ne (slot_ne hr (List.mem_range.mp hi))]

theorem contents_get (hr : r < n) (hw : w < n) (h : r ≠ w) :
    contents n buffer r w = buffer r :: contents n buffer (next n r) w := by
  have hlt := count_lt hr hw
  have hcount := count_next_read hr hw h
  have hfirst : slot n r 0 = r := by simp [slot, hr]
  unfold contents
  rw [← hcount, List.range_succ_eq_map, List.map_cons, List.map_map, hfirst]
  congr 1
  apply List.map_congr_left
  intro i hi
  have hi := List.mem_range.mp hi
  rw [Function.comp, ← slot_next (by omega)]

end Dynamips.RingBuffer
