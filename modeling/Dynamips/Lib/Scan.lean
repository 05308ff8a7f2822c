import Mathlib.Data.Fin.Tuple.Basic
import Mathlib.Algebra.Order.Ring.Int

/-! Scans of an index range: the first index that satisfies a predicate, the
last one, and the loop that keeps the last one it has seen. -/
set_option autoImplicit false

namespace Dynamips.Scan

variable {n : Nat} {p q : Fin n → Bool} {i : Fin n}

/-- The first index that satisfies `p`. -/
def First (p : Fin n → Bool) (i : Fin n) : Prop := p i ∧ ∀ j < i, ¬ p j

theorem find?_finRange_eq_some : (List.finRange n).find? p = some i ↔ First p i := by
  rw [← Fin.find?_eq_find?_finRange, Fin.find?_eq_some_iff]
  simp [First]

theorem find?_reverse_finRange_eq_some :
    (List.finRange n).reverse.find? p = some i ↔ p i ∧ ∀ j, i < j → ¬ p j := by
  rw [List.finRange_reverse, List.find?_map, Option.map_eq_some_iff]
  constructor
  · rintro ⟨j, hj, rfl⟩
    obtain ⟨hp, hfirst⟩ := find?_finRange_eq_some.mp hj
    refine ⟨hp, fun k hk => ?_⟩
    have hlt : k.rev < j := by rwa [← Fin.rev_lt_rev, Fin.rev_rev]
    simpa using hfirst k.rev hlt
  · intro h
    refine ⟨i.rev, find?_finRange_eq_some.mpr ⟨by simpa using h.1, fun j hj => ?_⟩, Fin.rev_rev i⟩
    exact h.2 j.rev (by rwa [← Fin.rev_lt_rev, Fin.rev_rev])

theorem find?_eq_none_of_mem {l : List (Fin n)} (hl : ∀ i, i ∈ l) :
    l.find? p = none ↔ ∀ i, ¬ p i := by
  rw [List.find?_eq_none]
  exact ⟨fun h i => h i (hl i), fun h i _ => h i⟩

/-- The last index of `q` is the first one of `p`. -/
theorem last_eq_first_iff :
    (List.finRange n).reverse.find? q = (List.finRange n).find? p ↔
      (∀ i, First p i → q i ∧ ∀ j, i < j → ¬ q j) ∧ ∀ i, q i → ∃ j, p j := by
  cases hp : (List.finRange n).find? p with
  | none =>
    have hnone := (find?_eq_none_of_mem List.mem_finRange).mp hp
    rw [find?_eq_none_of_mem (by simp)]
    constructor
    · intro hq
      exact ⟨fun i hi => absurd hi.1 (hnone i), fun i hi => absurd hi (hq i)⟩
    · intro h i hi
      obtain ⟨j, hj⟩ := h.2 i hi
      exact hnone j hj
  | some i =>
    have hfirst := find?_finRange_eq_some.mp hp
    rw [find?_reverse_finRange_eq_some]
    constructor
    · intro hq
      refine ⟨fun j hj => ?_, fun _ _ => ⟨i, hfirst.1⟩⟩
      have hij : i = j := by
        rw [← Option.some_inj, ← hp, find?_finRange_eq_some.mpr hj]
      exact hij ▸ hq
    · intro h
      exact h.1 i hfirst

/-- A loop over `l` that replaces what `g` reads wherever `p` holds leaves the
value of the last such place. -/
theorem get_foldl {σ α β : Type} {f : σ → α → σ} {g : σ → β} {I : σ → Prop} {p : α → Bool}
    {v : α → β} (hkeep : ∀ s a, I s → I (f s a))
    (hget : ∀ s a, I s → g (f s a) = if p a then v a else g s) (l : List α) {s : σ} (hs : I s) :
    g (l.foldl f s) = (l.reverse.find? p).elim (g s) v := by
  induction l generalizing s with
  | nil => rfl
  | cons a l ih =>
    rw [List.foldl_cons, ih (hkeep s a hs), List.reverse_cons, List.find?_append, hget s a hs]
    cases l.reverse.find? p with
    | some b => rfl
    | none =>
      by_cases hp : p a <;> simp [hp]

end Dynamips.Scan
