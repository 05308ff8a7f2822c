import Mathlib.Logic.Function.Basic

/-! Copy-on-write pages: each slot shares the page it starts with until it is
given a page of its own, from a pool that no slot starts with. -/
set_option autoImplicit false

namespace Dynamips.CowPages

variable {σ H β V : Type}

structure Pages (σ H β V : Type) where
  page : σ → H
  own : σ → Bool
  mem : H → β → V

/-- What is behind a slot. -/
def Pages.content (s : Pages σ H β V) (x : σ) : β → V := s.mem (s.page x)

/-- The slots that do not own a page still share the first one, and nothing
outside the pool has changed since `s₀`. -/
structure Keeps (pool : H → Prop) (s₀ s : Pages σ H β V) : Prop where
  shared : ∀ x, s.own x = false → s.page x = s₀.page x
  pooled : ∀ x, s.own x = true → pool (s.page x)
  apart : ∀ x y, s.own x = true → s.own y = true → s.page x = s.page y → x = y
  rest : ∀ h, ¬ pool h → s.mem h = s₀.mem h

variable {pool : H → Prop} {s₀ s : Pages σ H β V} {x : σ} {h : H}

theorem keeps_start (hs : ∀ x, s.own x = false) : Keeps pool s s where
  shared := fun _ _ => rfl
  pooled := fun x hx => by
    rw [hs x] at hx
    cases hx
  apart := fun x _ hx => by
    rw [hs x] at hx
    cases hx
  rest := fun _ _ => rfl

/-- A page of the pool that no slot owns. -/
def Fresh (pool : H → Prop) (s : Pages σ H β V) (h : H) : Prop :=
  pool h ∧ ∀ x, s.own x = true → s.page x ≠ h

variable [DecidableEq H]

def Pages.write (s : Pages σ H β V) (x : σ) (f : β → V) : Pages σ H β V :=
  { s with mem := Function.update s.mem (s.page x) f }

theorem Keeps.write (hk : Keeps pool s₀ s) (hx : s.own x = true) (f : β → V) :
    Keeps pool s₀ (s.write x f) where
  shared := hk.shared
  pooled := hk.pooled
  apart := hk.apart
  rest := by
    intro page hpage
    have hne : page ≠ s.page x := by
      rintro rfl
      exact hpage (hk.pooled x hx)
    simp only [Pages.write, Function.update_of_ne hne]
    exact hk.rest page hpage

variable [DecidableEq σ]

/-- The slot gets a page of its own with a copy of what it had. -/
def Pages.give (s : Pages σ H β V) (x : σ) (h : H) : Pages σ H β V where
  page := Function.update s.page x h
  own := Function.update s.own x true
  mem := Function.update s.mem h (s.content x)

theorem Keeps.give (hk : Keeps pool s₀ s) (hf : Fresh pool s h) : Keeps pool s₀ (s.give x h) where
  shared := by
    intro y hy
    by_cases hyx : y = x
    · subst hyx
      simp [Pages.give] at hy
    · simp only [Pages.give, Function.update_of_ne hyx] at hy ⊢
      exact hk.shared y hy
  pooled := by
    intro y hy
    by_cases hyx : y = x
    · subst hyx
      simp only [Pages.give, Function.update_self]
      exact hf.1
    · simp only [Pages.give, Function.update_of_ne hyx] at hy ⊢
      exact hk.pooled y hy
  apart := by
    intro y z hy hz hpage
    by_cases hyx : y = x
    · by_cases hzx : z = x
      · rw [hyx, hzx]
      · subst hyx
        simp only [Pages.give, Function.update_self, Function.update_of_ne hzx] at hz hpage
        exact absurd hpage.symm (hf.2 z hz)
    · by_cases hzx : z = x
      · subst hzx
        simp only [Pages.give, Function.update_self, Function.update_of_ne hyx] at hy hpage
        exact absurd hpage (hf.2 y hy)
      · simp only [Pages.give, Function.update_of_ne hyx, Function.update_of_ne hzx] at hy hz hpage
        exact hk.apart y z hy hz hpage
  rest := by
    intro page hpage
    have hne : page ≠ h := by
      rintro rfl
      exact hpage hf.1
    simp only [Pages.give, Function.update_of_ne hne]
    exact hk.rest page hpage

/-- Copying a page changes nothing behind the slots. -/
theorem content_give (hk : Keeps pool s₀ s) (hbase : ∀ y, ¬ pool (s₀.page y))
    (hf : Fresh pool s h) : (s.give x h).content = s.content := by
  funext y
  by_cases hyx : y = x
  · subst hyx
    simp only [Pages.content, Pages.give, Function.update_self]
  · have hne : s.page y ≠ h := by
      cases hown : s.own y with
      | true => exact hf.2 y hown
      | false =>
        rw [hk.shared y hown]
        rintro rfl
        exact hbase y hf.1
    simp only [Pages.content, Pages.give, Function.update_of_ne hyx, Function.update_of_ne hne]

/-- A write to a page of its own reaches one slot. -/
theorem content_write (hk : Keeps pool s₀ s) (hbase : ∀ y, ¬ pool (s₀.page y))
    (hx : s.own x = true) (f : β → V) :
    (s.write x f).content = Function.update s.content x f := by
  funext y
  by_cases hyx : y = x
  · subst hyx
    simp only [Pages.content, Pages.write, Function.update_self]
  · have hne : s.page y ≠ s.page x := by
      cases hown : s.own y with
      | true => exact fun hpage => hyx (hk.apart y x hown hx hpage)
      | false =>
        rw [hk.shared y hown]
        exact fun hpage => hbase y (hpage ▸ hk.pooled x hx)
    simp only [Pages.content, Pages.write, Function.update_of_ne hyx, Function.update_of_ne hne]

end Dynamips.CowPages
