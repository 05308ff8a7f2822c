import Dynamips.Lib.ByteStore
import Mathlib.Logic.Function.Basic

/-! Sequences of reads and writes, and memory that keeps each byte twice. -/
set_option autoImplicit false

namespace Dynamips
open Function (update)

inductive Access where
  | write (offset : Nat) (val : Byte)
  | read (offset : Nat)
  deriving DecidableEq, Repr

namespace Access

def offset : Access → Nat
  | .write offset _ => offset
  | .read offset => offset

/-- The values that the reads return, and the state after all accesses. -/
def exec {σ : Type} (read : σ → Nat → Byte) (write : σ → Nat → Byte → σ) :
    List Access → σ → List Byte × σ
  | [], s => ([], s)
  | .write offset val :: accesses, s => exec read write accesses (write s offset val)
  | .read offset :: accesses, s =>
    let (values, s') := exec read write accesses s
    (read s offset :: values, s')

/-- The values when each read returns the last value written. -/
def lastWritten (accesses : List Access) (m : Nat → Byte) : List Byte :=
  (exec (fun m offset => m offset) update accesses m).1

variable {σ : Type} {read : σ → Nat → Byte} {write : σ → Nat → Byte → σ}

@[simp] theorem exec_nil (s : σ) : exec read write [] s = ([], s) := rfl

@[simp] theorem exec_write (s : σ) (offset : Nat) (val : Byte) (accesses : List Access) :
    exec read write (.write offset val :: accesses) s =
      exec read write accesses (write s offset val) := rfl

@[simp] theorem exec_read (s : σ) (offset : Nat) (accesses : List Access) :
    exec read write (.read offset :: accesses) s =
      (read s offset :: (exec read write accesses s).1, (exec read write accesses s).2) := rfl

/-- What the writes preserve holds after all accesses. -/
theorem exec_invariant {P : σ → Prop} {ok : Nat → Prop} {accesses : List Access} {s : σ}
    (hwrite : ∀ s offset val, ok offset → P s → P (write s offset val))
    (hok : ∀ a ∈ accesses, ok a.offset) (h : P s) : P (exec read write accesses s).2 := by
  induction accesses generalizing s with
  | nil => exact h
  | cons a accesses ih =>
    rw [List.forall_mem_cons] at hok
    cases a with
    | write offset val => exact ih hok.2 (hwrite s offset val hok.1 h)
    | read offset => exact ih hok.2 h

end Access

/-- A byte store is a plain map: each read returns the last value written. -/
theorem ByteStore.exec_values {σ : Type} (B : ByteStore σ) {accesses : List Access} {s : σ}
    {m : Nat → Byte} (hm : ∀ o < B.size, m o = B.read s o)
    (hok : ∀ a ∈ accesses, a.offset < B.size) :
    (Access.exec B.read B.write accesses s).1 = Access.lastWritten accesses m := by
  induction accesses generalizing s m with
  | nil => rfl
  | cons a accesses ih =>
    rw [List.forall_mem_cons] at hok
    cases a with
    | write offset val =>
      refine ih (fun o ho => ?_) hok.2
      rw [B.read_write s offset val o hok.1 ho, Function.update_apply, hm o ho]
    | read offset =>
      have hvalue := hm offset hok.1
      have hrest := ih hm hok.2
      simp only [Access.lastWritten, Access.exec_read, hvalue] at hrest ⊢
      rw [hrest]

/-- Two copies of each of `size` bytes, all of them apart. -/
structure Mirror (size : Nat) (normal backup : Nat → Nat) : Prop where
  normal_inj : ∀ o < size, ∀ o' < size, normal o = normal o' → o = o'
  backup_inj : ∀ o < size, ∀ o' < size, backup o = backup o' → o = o'
  apart : ∀ o < size, ∀ o' < size, normal o ≠ backup o'

def InSync (size : Nat) (normal backup : Nat → Nat) (m : Nat → Byte) : Prop :=
  ∀ o < size, m (normal o) = m (backup o)

namespace Mirror

variable {size : Nat} {normal backup : Nat → Nat} {m : Nat → Byte}

/-- A write to both copies changes no other byte. -/
theorem write_other (h : Mirror size normal backup) {o o' : Nat} (ho : o < size) (ho' : o' < size)
    (hne : o' ≠ o) (val : Byte) :
    update (update m (normal o) val) (backup o) val (normal o') = m (normal o') ∧
      update (update m (normal o) val) (backup o) val (backup o') = m (backup o') := by
  constructor
  · rw [Function.update_of_ne (h.apart o' ho' o ho),
      Function.update_of_ne fun hc => hne (h.normal_inj o' ho' o ho hc)]
  · rw [Function.update_of_ne fun hc => hne (h.backup_inj o' ho' o ho hc),
      Function.update_of_ne (h.apart o ho o' ho').symm]

theorem write_self (h : Mirror size normal backup) {o : Nat} (ho : o < size) (val : Byte) :
    update (update m (normal o) val) (backup o) val (normal o) = val ∧
      update (update m (normal o) val) (backup o) val (backup o) = val := by
  constructor
  · rw [Function.update_of_ne (h.apart o ho o ho), Function.update_self]
  · exact Function.update_self ..

/-- A write puts its own byte in sync and leaves the others as they are. -/
theorem inSyncAt_write (h : Mirror size normal backup) {o o' : Nat} (ho : o < size)
    (ho' : o' < size) (val : Byte) :
    (update (update m (normal o) val) (backup o) val (normal o') =
        update (update m (normal o) val) (backup o) val (backup o')) ↔
      o' = o ∨ m (normal o') = m (backup o') := by
  by_cases hne : o' = o
  · subst hne
    rw [(h.write_self ho val).1, (h.write_self ho val).2]
    exact iff_of_true rfl (Or.inl rfl)
  · rw [(h.write_other ho ho' hne val).1, (h.write_other ho ho' hne val).2, or_iff_right hne]

theorem inSync_write (h : Mirror size normal backup) (hm : InSync size normal backup m) {o : Nat}
    (ho : o < size) (val : Byte) :
    InSync size normal backup (update (update m (normal o) val) (backup o) val) := by
  intro o' ho'
  exact (h.inSyncAt_write ho ho' val).mpr (Or.inr (hm o' ho'))

end Mirror

end Dynamips
