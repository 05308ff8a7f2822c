import Mathlib.Algebra.Order.Ring.Int
import Mathlib.Data.Finset.Card
import Mathlib.Data.Finset.Image

/-! Numbering of values in the order of their first appearance: a finite map
from values to numbers together with its inverse table. The two tables being
inverse to each other is part of the structure, so no numbering can give one
number to two values or two numbers to one value. -/
set_option autoImplicit false

namespace Dynamips

structure Numbering (α : Type*) where
  count : Nat
  idOf : α → Option Nat
  keyAt : Nat → Option α
  idOf_iff : ∀ a i, idOf a = some i ↔ i < count ∧ keyAt i = some a
  total : ∀ i < count, ∃ a, keyAt i = some a

namespace Numbering

variable {α : Type*}

def empty : Numbering α where
  count := 0
  idOf := fun _ => none
  keyAt := fun _ => none
  idOf_iff := by simp
  total := by simp

/-- A value without a number gets the next one. -/
def push [DecidableEq α] (t : Numbering α) (a : α) (h : t.idOf a = none) :
    Numbering α where
  count := t.count + 1
  idOf := fun b => if b = a then some t.count else t.idOf b
  keyAt := fun i => if i = t.count then some a else t.keyAt i
  idOf_iff := by
    intro b i
    have hb := t.idOf_iff b i
    by_cases hba : b = a
    · subst hba
      by_cases hi : i = t.count
      · simp [hi]
      · have hne : ¬ (i < t.count ∧ t.keyAt i = some b) := by simp [← hb, h]
        simp only [if_true, hi, if_false, Option.some.injEq]
        constructor
        · intro hc; exact absurd hc.symm hi
        · rintro ⟨hlt, hk⟩
          exact absurd ⟨by omega, hk⟩ hne
    · by_cases hi : i = t.count
      · subst hi
        have hlt : t.idOf b ≠ some t.count := by simp [hb]
        simp [hba, hlt, Ne.symm hba]
      · simp only [hba, hi, if_false, hb]
        constructor
        · rintro ⟨hlt, hk⟩; exact ⟨by omega, hk⟩
        · rintro ⟨hlt, hk⟩; exact ⟨by omega, hk⟩
  total := by
    intro i hi
    by_cases hc : i = t.count
    · exact ⟨a, by simp [hc]⟩
    · obtain ⟨b, hb⟩ := t.total i (by omega)
      exact ⟨b, by simp [hc, hb]⟩

theorem idOf_lt {t : Numbering α} {a : α} {i : Nat} (h : t.idOf a = some i) :
    i < t.count := ((t.idOf_iff a i).mp h).1

theorem keyAt_idOf {t : Numbering α} {a : α} {i : Nat} (h : t.idOf a = some i) :
    t.keyAt i = some a := ((t.idOf_iff a i).mp h).2

@[simp] theorem count_push [DecidableEq α] (t : Numbering α) (a : α) (h : t.idOf a = none) :
    (t.push a h).count = t.count + 1 := rfl

@[simp] theorem idOf_push_self [DecidableEq α] (t : Numbering α) (a : α)
    (h : t.idOf a = none) : (t.push a h).idOf a = some t.count := by
  simp [push]

/-- Numbers are never reassigned. -/
theorem idOf_push_of_some [DecidableEq α] {t : Numbering α} {a b : α} {i : Nat}
    (h : t.idOf a = none) (hb : t.idOf b = some i) : (t.push a h).idOf b = some i := by
  have hne : b ≠ a := by rintro rfl; simp [h] at hb
  simp [push, hne, hb]

theorem isSome_idOf_push [DecidableEq α] (t : Numbering α) (a b : α)
    (h : t.idOf a = none) :
    ((t.push a h).idOf b).isSome ↔ b = a ∨ (t.idOf b).isSome := by
  by_cases hb : b = a <;> simp [push, hb]

/-- As many numbers are in use as there are numbered values. -/
theorem count_eq_card [DecidableEq α] (t : Numbering α) (S : Finset α)
    (hS : ∀ a, (t.idOf a).isSome ↔ a ∈ S) : t.count = S.card := by
  have himg : S.image t.idOf = (Finset.range t.count).image some := by
    ext o
    simp only [Finset.mem_image, Finset.mem_range]
    constructor
    · rintro ⟨a, ha, rfl⟩
      obtain ⟨i, hi⟩ := Option.isSome_iff_exists.mp ((hS a).mpr ha)
      exact ⟨i, idOf_lt hi, hi.symm⟩
    · rintro ⟨i, hi, rfl⟩
      obtain ⟨a, ha⟩ := t.total i hi
      have hid := (t.idOf_iff a i).mpr ⟨hi, ha⟩
      exact ⟨a, (hS a).mp (by simp [hid]), hid⟩
  have hinj : Set.InjOn t.idOf S := by
    intro a ha b _ hab
    obtain ⟨i, hi⟩ := Option.isSome_iff_exists.mp ((hS a).mpr ha)
    have hka := keyAt_idOf hi
    have hkb := keyAt_idOf (hab ▸ hi)
    exact Option.some.inj (hka.symm.trans hkb)
  have hcard := congrArg Finset.card himg
  rw [Finset.card_image_of_injOn hinj,
    Finset.card_image_of_injective _ (Option.some_injective _), Finset.card_range] at hcard
  exact hcard.symm

end Numbering

end Dynamips
