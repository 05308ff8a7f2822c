import Mathlib.Algebra.Order.Ring.Int
import Mathlib.Logic.Function.Basic

/-! A direct-mapped cache, and what it takes for its valid entries to agree with
what they are a copy of. -/
set_option autoImplicit false

namespace Dynamips.TagCache

variable {B E : Type} {valid ok ok' : E → Prop} {cache : B → E}

/-- Every valid entry is right. -/
def Agrees (valid ok : E → Prop) (cache : B → E) : Prop :=
  ∀ b, valid (cache b) → ok (cache b)

theorem agrees_of_empty (h : ∀ b, ¬ valid (cache b)) : Agrees valid ok cache :=
  fun b hv => absurd hv (h b)

theorem Agrees.mono (h : Agrees valid ok cache)
    (hok : ∀ b, valid (cache b) → ok (cache b) → ok' (cache b)) : Agrees valid ok' cache :=
  fun b hv => hok b hv (h b hv)

/-- A fill replaces one entry; the others must stay right. -/
theorem Agrees.fill [DecidableEq B] {b0 : B} {e : E} (h : Agrees valid ok cache) (he : ok' e)
    (hok : ∀ b, b ≠ b0 → valid (cache b) → ok (cache b) → ok' (cache b)) :
    Agrees valid ok' (Function.update cache b0 e) := by
  intro b hv
  by_cases hb : b = b0
  · subst hb
    simpa using he
  · simp only [Function.update_of_ne hb] at hv ⊢
    exact hok b hb hv (h b hv)

end Dynamips.TagCache
