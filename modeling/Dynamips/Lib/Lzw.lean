import Mathlib.Data.List.Basic

/-! The dictionary of an LZW decoder. -/
set_option autoImplicit false

namespace Dynamips.Lzw

variable {α : Type}

/-- The strings of the codes from `base` on, and the string of the code before, which
the next code extends. -/
structure Dict (α : Type) where
  entries : List (List α)
  prev : Option (List α)

/-- The codes that are known, with the one that is only begun. -/
def Dict.next (base : Nat) (d : Dict α) : Nat :=
  base + d.entries.length + if d.prev.isSome then 1 else 0

def Dict.string (letter : Nat → α) (base : Nat) (d : Dict α) (code : Nat) : Option (List α) :=
  if code < base then some [letter code]
  else
    match d.prev, d.entries[code - base]? with
    | _, some w => some w
    | some p, none => if code = base + d.entries.length then some (p ++ p.take 1) else none
    | none, none => none

/-- The string begun before is completed by the first letter of the next one. -/
def Dict.complete (d : Dict α) (w : List α) : List (List α) :=
  match d.prev with
  | some p => d.entries ++ [p ++ w.take 1]
  | none => d.entries

/-- The dictionary after a string, with room for codes below `size`. -/
def Dict.learn (base size : Nat) (d : Dict α) (w : List α) : Dict α where
  entries := d.complete w
  prev := if base + (d.complete w).length < size then some w else none

variable {letter : Nat → α} {base size code : Nat} {d : Dict α} {w : List α}

theorem length_complete : base + (d.complete w).length = d.next base := by
  rw [Dict.complete, Dict.next]
  split
  · rename_i p h
    simp only [h, Option.isSome_some, if_true, List.length_append, List.length_singleton]
    omega
  · rename_i h
    simp [h]

theorem next_learn : (d.learn base size w).next base =
    if d.next base < size then d.next base + 1 else d.next base := by
  rw [Dict.next, Dict.learn]
  simp only [length_complete]
  split <;> simp

theorem string_isSome : (d.string letter base code).isSome ↔ code < d.next base := by
  rw [Dict.string, Dict.next]
  split
  · simp only [Option.isSome_some, true_iff]
    omega
  · rename_i hcode
    cases hentry : d.entries[code - base]? with
    | some w =>
      have hlt := (List.getElem?_eq_some_iff.mp hentry).1
      simp only [Option.isSome_some, true_iff]
      omega
    | none =>
      have hge := List.getElem?_eq_none_iff.mp hentry
      cases hprev : d.prev with
      | none =>
        simp only [Option.isSome_none, Bool.false_eq_true, if_false, false_iff]
        omega
      | some p =>
        simp only [Option.isSome_some, if_true]
        split
        · simp only [Option.isSome_some, true_iff]
          omega
        · simp only [Option.isSome_none, Bool.false_eq_true, false_iff]
          omega

/-- A letter, a known string, or the one that was begun with its own first letter. -/
theorem string_cases (h : d.string letter base code = some w) :
    (code < base ∧ w = [letter code]) ∨
      (∃ k, code = base + k ∧ d.entries[k]? = some w) ∨
        ∃ p, d.prev = some p ∧ code = base + d.entries.length ∧ w = p ++ p.take 1 := by
  rw [Dict.string] at h
  split at h
  · rename_i hcode
    cases h
    exact Or.inl ⟨hcode, rfl⟩
  · rename_i hcode
    right
    split at h
    · rename_i w' hentry
      cases h
      exact Or.inl ⟨code - base, by omega, hentry⟩
    · rename_i p hprev _
      split at h
      · rename_i heq
        cases h
        exact Or.inr ⟨p, hprev, heq, rfl⟩
      · cases h
    · cases h

theorem complete_cases {k : Nat} {x : List α} (h : (d.complete w)[k]? = some x) :
    d.entries[k]? = some x ∨ ∃ p, d.prev = some p ∧ k = d.entries.length ∧ x = p ++ w.take 1 := by
  rw [Dict.complete] at h
  split at h
  · rename_i p hprev
    rw [List.getElem?_append] at h
    split at h
    · exact Or.inl h
    · rename_i hk
      right
      refine ⟨p, hprev, ?_⟩
      cases hsub : k - d.entries.length with
      | zero =>
        rw [hsub] at h
        cases h
        exact ⟨by omega, rfl⟩
      | succ n =>
        rw [hsub] at h
        cases h
  · exact Or.inl h

end Dynamips.Lzw
