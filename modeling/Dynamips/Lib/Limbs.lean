import Mathlib.Algebra.Order.Ring.Int
import Mathlib.Tactic.Ring

/-! Numbers written as lists of words, the lowest first, and the chains of
additions that pass a carry from each word to the next. -/
set_option autoImplicit false

namespace Dynamips.Limbs

variable {w : Nat}

def value : List (BitVec w) → Nat
  | [] => 0
  | limb :: rest => limb.toNat + 2 ^ w * value rest

/-- One addition of a chain. -/
structure Step (w : Nat) where
  x : BitVec w
  y : BitVec w
  carryIn : Bool
  sum : BitVec w
  carryOut : Bool

/-- The sum and the carry together are the exact sum. -/
def Step.Exact (s : Step w) : Prop :=
  s.sum.toNat + 2 ^ w * s.carryOut.toNat = s.x.toNat + s.y.toNat + s.carryIn.toNat

/-- Every addition takes the carry that the one before it left. -/
def Linked (carry : Bool) : List (Step w) → Prop
  | [] => True
  | s :: steps => s.carryIn = carry ∧ Linked s.carryOut steps

def lastCarry (carry : Bool) : List (Step w) → Bool
  | [] => carry
  | s :: steps => lastCarry s.carryOut steps

theorem value_of_linked {carry : Bool} {steps : List (Step w)} (hlinked : Linked carry steps)
    (hexact : ∀ s ∈ steps, s.Exact) :
    value (steps.map Step.sum) + 2 ^ (w * steps.length) * (lastCarry carry steps).toNat =
      value (steps.map Step.x) + value (steps.map Step.y) + carry.toNat := by
  induction steps generalizing carry with
  | nil => simp [value, lastCarry]
  | cons s steps ih =>
    obtain ⟨hcarry, hrest⟩ := hlinked
    have hstep := hexact s List.mem_cons_self
    have htail := ih hrest fun t ht => hexact t (List.mem_cons_of_mem s ht)
    have hpow : 2 ^ (w * (s :: steps).length) = 2 ^ w * 2 ^ (w * steps.length) := by
      rw [List.length_cons, Nat.mul_succ, Nat.pow_add, Nat.mul_comm]
    simp only [List.map_cons, value, lastCarry, hpow]
    unfold Step.Exact at hstep
    calc s.sum.toNat + 2 ^ w * value (steps.map Step.sum) +
          2 ^ w * 2 ^ (w * steps.length) * (lastCarry s.carryOut steps).toNat
        = s.sum.toNat + 2 ^ w * (value (steps.map Step.sum) +
            2 ^ (w * steps.length) * (lastCarry s.carryOut steps).toNat) := by ring
      _ = s.sum.toNat + 2 ^ w * s.carryOut.toNat +
            2 ^ w * (value (steps.map Step.x) + value (steps.map Step.y)) := by
          rw [htail]
          ring
      _ = s.x.toNat + 2 ^ w * value (steps.map Step.x) +
            (s.y.toNat + 2 ^ w * value (steps.map Step.y)) + carry.toNat := by
          rw [hstep, hcarry]
          ring

end Dynamips.Limbs
