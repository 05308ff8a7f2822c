import Mathlib.Algebra.Order.Ring.Int
import Mathlib.Data.List.Basic

/-! Byte buffers as lists, written with `memcpy` and `memset`. A write inside
the buffer keeps its length, so a length that never changes shows that no write
left it. -/
set_option autoImplicit false

namespace Dynamips

abbrev Byte := BitVec 8

variable {α : Type}

def memcpy (dst : List α) (pos : Nat) (src : List α) : List α :=
  dst.take pos ++ src ++ dst.drop (pos + src.length)

def memset (dst : List α) (pos : Nat) (c : α) (len : Nat) : List α :=
  memcpy dst pos (List.replicate len c)

theorem length_memcpy {dst src : List α} {pos : Nat} (h : pos + src.length ≤ dst.length) :
    (memcpy dst pos src).length = dst.length := by
  simp [memcpy]
  omega

/-- A write over the middle of a buffer, whatever the position is called. -/
theorem memcpy_middle {a b c src : List α} {pos : Nat} (hpos : pos = a.length)
    (hsrc : src.length = b.length) : memcpy (a ++ b ++ c) pos src = a ++ src ++ c := by
  subst hpos
  have hdrop : (a ++ (b ++ c)).drop (a.length + src.length) = c := by
    rw [List.drop_append, hsrc]
    simp
  simp [memcpy, hdrop]

theorem memcpy_start {b c src : List α} (hsrc : src.length = b.length) :
    memcpy (b ++ c) 0 src = src ++ c := by
  simpa using memcpy_middle (a := []) (b := b) (c := c) rfl hsrc

/-- A write over the first cells of the rest of a buffer. -/
theorem memcpy_after {a c src : List α} {pos : Nat} (hpos : pos = a.length)
    (hlen : src.length ≤ c.length) :
    memcpy (a ++ c) pos src = a ++ src ++ c.drop src.length := by
  have h := @memcpy_middle _ a (c.take src.length) (c.drop src.length) src pos hpos
    (by simp [hlen])
  rwa [List.append_assoc, List.take_append_drop] at h

theorem memcpy_replicate {a src : List α} {pos avail : Nat} (x : α) (hpos : pos = a.length)
    (hlen : src.length ≤ avail) :
    memcpy (a ++ List.replicate avail x) pos src =
      a ++ src ++ List.replicate (avail - src.length) x := by
  rw [memcpy_after hpos (by simpa using hlen), List.drop_replicate]

/-- Two writes one after the other are one write. -/
theorem memcpy_memcpy {dst a b : List α} {pos : Nat} (h : pos ≤ dst.length) :
    memcpy (memcpy dst pos a) (pos + a.length) b = memcpy dst pos (a ++ b) := by
  have hfront : (dst.take pos ++ a).length = pos + a.length := by simp [h]
  have htake : (memcpy dst pos a).take (pos + a.length) = dst.take pos ++ a :=
    List.take_left' hfront
  have hdrop : (memcpy dst pos a).drop (pos + a.length) = dst.drop (pos + a.length) :=
    List.drop_left' hfront
  rw [memcpy, htake, ← List.drop_drop, hdrop, List.drop_drop]
  simp [memcpy, Nat.add_assoc]

end Dynamips
