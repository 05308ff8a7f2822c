import Mathlib.Algebra.Order.Ring.Int

/-! Loops without a bound of their own, one turn after the other. -/
set_option autoImplicit false

namespace Dynamips.Turns

/-- What one turn of a loop leaves. -/
inductive Turn (σ ρ : Type) where
  | go (s : σ)
  | stop (r : ρ)

variable {σ ρ : Type}

/-- The loop with at most some number of turns. -/
def drive (f : σ → Turn σ ρ) : Nat → σ → Option ρ
  | 0, _ => none
  | fuel + 1, s =>
    match f s with
    | .go s' => drive f fuel s'
    | .stop r => some r

/-- The loop ends, with this result. -/
def Returns (f : σ → Turn σ ρ) (s : σ) (r : ρ) : Prop := ∃ fuel, drive f fuel s = some r

variable {f : σ → Turn σ ρ} {s s' : σ} {r r' : ρ}

theorem returns_stop (h : f s = .stop r) : Returns f s r' ↔ r' = r := by
  constructor
  · rintro ⟨fuel, hr⟩
    cases fuel with
    | zero => cases hr
    | succ fuel =>
      rw [drive, h] at hr
      cases hr
      rfl
  · rintro rfl
    exact ⟨1, by rw [drive, h]⟩

theorem returns_go (h : f s = .go s') : Returns f s r ↔ Returns f s' r := by
  constructor
  · rintro ⟨fuel, hr⟩
    cases fuel with
    | zero => cases hr
    | succ fuel =>
      rw [drive, h] at hr
      exact ⟨fuel, hr⟩
  · rintro ⟨fuel, hr⟩
    refine ⟨fuel + 1, ?_⟩
    rw [drive, h]
    exact hr

theorem Returns.unique (h : Returns f s r) (h' : Returns f s r') : r = r' := by
  obtain ⟨fuel, h⟩ := h
  induction fuel generalizing s with
  | zero => cases h
  | succ fuel ih =>
    rw [drive] at h
    split at h
    · rename_i s' hgo
      exact ih ((returns_go hgo).mp h') h
    · rename_i hstop
      cases h
      exact ((returns_stop hstop).mp h').symm

/-- A loop that always has a next turn has no result. -/
theorem not_returns_of_endless {P : Nat → σ → Prop} {i : Nat} (h0 : P i s)
    (hgo : ∀ i s, P i s → ∃ s', f s = .go s' ∧ P (i + 1) s') : ¬Returns f s r := by
  rintro ⟨fuel, hr⟩
  induction fuel generalizing i s with
  | zero => cases hr
  | succ fuel ih =>
    obtain ⟨s', hs, hP⟩ := hgo i s h0
    rw [drive, hs] at hr
    exact ih hP hr

/-- What every turn keeps and every end gives holds of the result. -/
theorem Returns.invariant {P : σ → Prop} {Q : ρ → Prop} (h : Returns f s r) (h0 : P s)
    (hgo : ∀ s s', P s → f s = .go s' → P s') (hstop : ∀ s r, P s → f s = .stop r → Q r) :
    Q r := by
  obtain ⟨fuel, h⟩ := h
  induction fuel generalizing s with
  | zero => cases h
  | succ fuel ih =>
    rw [drive] at h
    split at h
    · rename_i s' hs
      exact ih (hgo s s' h0 hs) h
    · rename_i r' hs
      cases h
      exact hstop s r h0 hs

/-- A loop that comes nearer to its end on every turn has a result. -/
theorem returns_of_measure (measure : σ → Nat)
    (hgo : ∀ s s', f s = .go s' → measure s' < measure s) (s : σ) : ∃ r, Returns f s r := by
  induction hn : measure s using Nat.strong_induction_on generalizing s with
  | _ n ih =>
    subst hn
    cases hs : f s with
    | stop r => exact ⟨r, (returns_stop hs).mpr rfl⟩
    | go s' =>
      obtain ⟨r, hr⟩ := ih _ (hgo s s' hs) s' rfl
      exact ⟨r, (returns_go hs).mpr hr⟩

end Dynamips.Turns
