import Dynamips.Lib.Bytes
import Dynamips.Lib.Loop

/-! Storage that is read and written one byte at a time. The only law asked of
it is that a write changes the byte at its own offset and no other; copies,
clears and windows are derived from it. -/
set_option autoImplicit false

namespace Dynamips
open Loop

structure ByteStore (σ : Type) where
  size : Nat
  read : σ → Nat → Byte
  write : σ → Nat → Byte → σ
  read_write : ∀ s o v o', o < size → o' < size →
    read (write s o v) o' = if o' = o then v else read s o'

namespace ByteStore

variable {σ : Type} (B : ByteStore σ)

def copyTo (s : σ) (off : Nat) (data : List Byte) (len : Nat) : σ :=
  loop (fun i s => B.write s (off + i) (data.getD i 0)) len s

def clear (s : σ) (off len : Nat) : σ :=
  loop (fun i s => B.write s (off + i) 0) len s

/-- The `len` bytes from `off` on. -/
def window (s : σ) (off len : Nat) : List Byte :=
  (List.range len).map fun i => B.read s (off + i)

variable {B} {s s' : σ} {off len : Nat}

/-- A counted loop that writes `v i` at `off + i`. -/
theorem read_loop_write (v : Nat → Byte) (h : off + len ≤ B.size) {o : Nat} (ho : o < B.size) :
    B.read (loop (fun i s => B.write s (off + i) (v i)) len s) o =
      if off ≤ o ∧ o < off + len then v (o - off) else B.read s o := by
  induction len with
  | zero => simp [loop, show ¬ (off ≤ o ∧ o < off) by omega]
  | succ len ih =>
    rw [loop, B.read_write _ _ _ _ (by omega) ho, ih (by omega)]
    by_cases heq : o = off + len
    · have hin : off ≤ o ∧ o < off + (len + 1) := by omega
      rw [if_pos heq, if_pos hin, heq, Nat.add_sub_cancel_left]
    · have hiff : (off ≤ o ∧ o < off + (len + 1)) ↔ (off ≤ o ∧ o < off + len) := by omega
      simp only [if_neg heq, hiff]

theorem read_copyTo (data : List Byte) (h : off + len ≤ B.size) {o : Nat} (ho : o < B.size) :
    B.read (B.copyTo s off data len) o =
      if off ≤ o ∧ o < off + len then data.getD (o - off) 0 else B.read s o :=
  read_loop_write (fun i => data.getD i 0) h ho

theorem read_clear (h : off + len ≤ B.size) {o : Nat} (ho : o < B.size) :
    B.read (B.clear s off len) o = if off ≤ o ∧ o < off + len then 0 else B.read s o :=
  read_loop_write (fun _ => 0) h ho

theorem window_congr (h : ∀ i < len, B.read s (off + i) = B.read s' (off + i)) :
    B.window s off len = B.window s' off len := by
  simp only [window]
  exact List.map_congr_left fun i hi => h i (List.mem_range.mp hi)

/-- What was copied to a window is what is read from it. -/
theorem window_copyTo (data : List Byte) (h : off + data.length ≤ B.size) :
    B.window (B.copyTo s off data data.length) off data.length = data := by
  apply List.ext_getElem
  · simp [window]
  · intro i hi hi'
    have hin : off ≤ off + i ∧ off + i < off + data.length := by omega
    simp [window, read_copyTo data h (show off + i < B.size by omega), hin, hi']

theorem window_copyTo_disjoint (data : List Byte) {off' len' : Nat} (h : off + len ≤ B.size)
    (h' : off' + len' ≤ B.size) (hdisj : off + len ≤ off' ∨ off' + len' ≤ off) :
    B.window (B.copyTo s off' data len') off len = B.window s off len := by
  apply window_congr
  intro i hi
  rw [read_copyTo data h' (by omega), if_neg (by omega)]

theorem window_clear_disjoint {off' len' : Nat} (h : off + len ≤ B.size)
    (h' : off' + len' ≤ B.size) (hdisj : off + len ≤ off' ∨ off' + len' ≤ off) :
    B.window (B.clear s off' len') off len = B.window s off len := by
  apply window_congr
  intro i hi
  rw [read_clear h' (by omega), if_neg (by omega)]

theorem window_write_disjoint {o : Nat} (v : Byte) (h : off + len ≤ B.size) (ho : o < B.size)
    (hdisj : o < off ∨ off + len ≤ o) :
    B.window (B.write s o v) off len = B.window s off len := by
  apply window_congr
  intro i hi
  rw [B.read_write _ _ _ _ ho (by omega), if_neg (by omega)]

/-- A write into a window replaces one of its bytes. -/
theorem window_write {i : Nat} (v : Byte) (h : off + len ≤ B.size) (hi : i < len) :
    B.window (B.write s (off + i) v) off len = (B.window s off len).set i v := by
  apply List.ext_getElem
  · simp [window]
  · intro j hj hj'
    have hlt : j < len := by simpa [window] using hj
    have hread := B.read_write s (off + i) v (off + j) (by omega) (by omega)
    by_cases hij : j = i
    · subst hij
      simp [window, hread]
    · have hne : i ≠ j := fun hc => hij hc.symm
      simp [window, hread, hij, List.getElem_set_ne hne]

end ByteStore

end Dynamips
