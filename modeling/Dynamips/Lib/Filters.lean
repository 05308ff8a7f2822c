import Mathlib.Logic.Function.Basic

/-! Filters that read one symbol at a time and may write several, one after the
other and one against the other. -/
set_option autoImplicit false

namespace Dynamips.Filters

variable {α β γ σ τ : Type}

/-- A filter: its next state and what it writes. -/
def Filter (α β σ : Type) : Type := σ → α → σ × List β

def run (f : Filter α β σ) : σ → List α → σ × List β
  | s, [] => (s, [])
  | s, a :: as =>
    let r := f s a
    let rest := run f r.1 as
    (rest.1, r.2 ++ rest.2)

/-- The second filter reads what the first one writes. -/
def comp (f : Filter α β σ) (g : Filter β γ τ) : Filter α γ (σ × τ) := fun st a =>
  let r := f st.1 a
  let r' := run g st.2 r.2
  ((r.1, r'.1), r'.2)

variable (f : Filter α β σ) (g : Filter β γ τ) (s : σ) (t : τ)

@[simp] theorem run_nil : run f s [] = (s, []) := rfl

@[simp] theorem run_singleton (a : α) : run f s [a] = f s a := by simp [run]

theorem run_append (as bs : List α) :
    run f s (as ++ bs) =
      ((run f (run f s as).1 bs).1, (run f s as).2 ++ (run f (run f s as).1 bs).2) := by
  induction as generalizing s with
  | nil => simp
  | cons a as ih => simp [run, ih]

theorem run_snoc (as : List α) (a : α) :
    run f s (as ++ [a]) =
      ((f (run f s as).1 a).1, (run f s as).2 ++ (f (run f s as).1 a).2) := by
  rw [run_append, run_singleton]

/-- What a filter passes over changes nothing. -/
theorem run_filter {I : σ → Prop} {p : α → Bool} (hstep : ∀ s a, I s → I (f s a).1)
    (hskip : ∀ s a, I s → p a = false → f s a = (s, [])) (h : I s) (as : List α) :
    run f s as = run f s (as.filter p) := by
  induction as generalizing s with
  | nil => rfl
  | cons a as ih =>
    cases hp : p a with
    | true => simp [run, hp, ih _ (hstep s a h)]
    | false => simp [run, hp, hskip s a h hp, ih s h]

end Dynamips.Filters
