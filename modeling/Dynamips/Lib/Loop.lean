import Mathlib.Algebra.Order.Ring.Int

/-! Counted loops and their invariant rules. The body of `loopM` may abort,
which ends the loop. Nothing here depends on what the loops compute. -/
set_option autoImplicit false

namespace Dynamips.Loop

theorem bind_of_some {α β : Type} {x : Option α} {f : α → Option β} {a : α} {o : Option β}
    (h : x = some a) (hf : f a = o) : (x >>= f) = o := by
  rw [h]
  exact hf

theorem bind_of_none {α β : Type} {x : Option α} {f : α → Option β} (h : x = none) :
    (x >>= f) = none := by
  rw [h]
  rfl

/-- `for (i = 0; i < n; i++) s = f(i, s)`. -/
def loop {σ : Type*} (f : Nat → σ → σ) : Nat → σ → σ
  | 0, s => s
  | n + 1, s => f n (loop f n s)

/-- The same loop with a body that may abort. -/
def loopM {σ : Type*} (f : Nat → σ → Option σ) : Nat → σ → Option σ
  | 0, s => some s
  | n + 1, s => (loopM f n s).bind (f n)

theorem loop_invariant {σ : Type*} {f : Nat → σ → σ} (P : Nat → σ → Prop)
    {n : Nat} {s : σ} (h0 : P 0 s)
    (hstep : ∀ i < n, ∀ t, P i t → P (i + 1) (f i t)) : P n (loop f n s) := by
  induction n with
  | zero => exact h0
  | succ n ih =>
    have hn := ih (fun i hi => hstep i (by omega))
    exact hstep n (by omega) _ hn

/-- Total correctness: a body that never aborts under the invariant makes a
loop that never aborts, and the invariant holds at its end. -/
theorem loopM_total {σ : Type*} {f : Nat → σ → Option σ} (P : Nat → σ → Prop)
    {n : Nat} {s : σ} (h0 : P 0 s)
    (hstep : ∀ i < n, ∀ t, P i t → ∃ t', f i t = some t' ∧ P (i + 1) t') :
    ∃ t, loopM f n s = some t ∧ P n t := by
  induction n with
  | zero => exact ⟨s, rfl, h0⟩
  | succ n ih =>
    obtain ⟨t, ht, hp⟩ := ih (fun i hi => hstep i (by omega))
    obtain ⟨t', ht', hp'⟩ := hstep n (by omega) t hp
    exact ⟨t', by simp only [loopM, ht, Option.bind_some, ht'], hp'⟩

/-- Partial correctness: what the body preserves whenever it does not abort
holds whenever the loop does not abort. -/
theorem loopM_partial {σ : Type*} {f : Nat → σ → Option σ} (P : Nat → σ → Prop)
    {n : Nat} {s t : σ} (h0 : P 0 s)
    (hstep : ∀ i < n, ∀ u u', P i u → f i u = some u' → P (i + 1) u')
    (h : loopM f n s = some t) : P n t := by
  induction n generalizing t with
  | zero =>
    simp only [loopM, Option.some.injEq] at h
    exact h ▸ h0
  | succ n ih =>
    obtain ⟨u, hu, ht⟩ := Option.bind_eq_some_iff.mp h
    exact hstep n (by omega) u t (ih (fun i hi => hstep i (by omega)) hu) ht

end Dynamips.Loop
