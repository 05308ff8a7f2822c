import Mathlib.Algebra.Order.Ring.Int
import Mathlib.Logic.Function.Basic

/-! Nodes that are linked through a field: the chain that starts at a node, and
the nodes from which a walk never ends. -/
set_option autoImplicit false

namespace Dynamips.Links

variable {P : Type} {next next' : P → Option P} {p : Option P} {l l' : List P} {x : P}

/-- The nodes of the list, linked by `next` from `p` to the end. -/
def Chain (next : P → Option P) : Option P → List P → Prop
  | p, [] => p = none
  | p, x :: l => p = some x ∧ Chain next (next x) l

theorem Chain.congr (h : Chain next p l) (hn : ∀ x ∈ l, next' x = next x) : Chain next' p l := by
  induction l generalizing p with
  | nil => exact h
  | cons x l ih =>
    refine ⟨h.1, ?_⟩
    rw [hn x List.mem_cons_self]
    exact ih h.2 fun y hy => hn y (List.mem_cons_of_mem x hy)

theorem Chain.unique (h : Chain next p l) (h' : Chain next p l') : l = l' := by
  induction l generalizing p l' with
  | nil =>
    cases l' with
    | nil => rfl
    | cons y l' => cases h.symm.trans h'.1
  | cons x l ih =>
    cases l' with
    | nil => cases h'.symm.trans h.1
    | cons y l' =>
      cases h.1.symm.trans h'.1
      rw [ih h.2 h'.2]

/-- The chain that starts at a node of the list is the rest of the list. -/
theorem Chain.drop {l₁ l₂ : List P} (h : Chain next p (l₁ ++ x :: l₂)) :
    Chain next (some x) (x :: l₂) := by
  induction l₁ generalizing p with
  | nil => exact ⟨rfl, h.2⟩
  | cons y l₁ ih => exact ih h.2

/-- A chain that ends meets no node twice. -/
theorem Chain.nodup (h : Chain next p l) : l.Nodup := by
  induction l generalizing p with
  | nil => exact List.nodup_nil
  | cons x l ih =>
    refine List.nodup_cons.mpr ⟨fun hx => ?_, ih h.2⟩
    obtain ⟨l₁, l₂, rfl⟩ := List.append_of_mem hx
    have hself : Chain next (some x) (x :: (l₁ ++ x :: l₂)) := ⟨rfl, h.2⟩
    have hlen := congrArg List.length (hself.unique h.2.drop)
    simp only [List.length_cons, List.length_append] at hlen
    omega

/-- A set of nodes that the links do not leave. -/
def Endless (next : P → Option P) (p : Option P) : Prop :=
  ∃ S : P → Prop, (∃ x, p = some x ∧ S x) ∧ ∀ x, S x → ∃ y, next x = some y ∧ S y

theorem Endless.not_chain (h : Endless next p) : ¬ Chain next p l := by
  obtain ⟨S, hstart, hnext⟩ := h
  induction l generalizing p with
  | nil =>
    intro hc
    obtain ⟨x, hx, -⟩ := hstart
    cases hx.symm.trans hc
  | cons y l ih =>
    intro hc
    obtain ⟨x, hx, hs⟩ := hstart
    have hxy : x = y := Option.some.inj (hx.symm.trans hc.1)
    subst hxy
    exact ih (hnext x hs) hc.2

variable [DecidableEq P]

/-- A new first node -/
theorem Chain.push (h : Chain next p l) (hx : x ∉ l) :
    Chain (Function.update next x p) (some x) (x :: l) := by
  refine ⟨rfl, ?_⟩
  rw [Function.update_self]
  refine h.congr fun y hy => Function.update_of_ne ?_ _ _
  rintro rfl
  exact hx hy

/-- Putting a node of the chain in front of it closes a cycle. -/
theorem Chain.push_mem (h : Chain next p l) (hx : x ∈ l) :
    Endless (Function.update next x p) (some x) := by
  obtain ⟨l₁, l₂, rfl⟩ := List.append_of_mem hx
  have hnodup := h.nodup
  have hnot : x ∉ l₁ := fun hm =>
    (List.nodup_append.mp hnodup).2.2 x hm x List.mem_cons_self rfl
  have hstart : ∃ y, p = some y ∧ (y ∈ l₁ ∨ y = x) := by
    cases l₁ with
    | nil => exact ⟨x, h.1, Or.inr rfl⟩
    | cons y l₁ => exact ⟨y, h.1, Or.inl List.mem_cons_self⟩
  have hstep : ∀ (p : Option P) (m : List P), Chain next p (m ++ x :: l₂) → ∀ y ∈ m,
      ∃ z, next y = some z ∧ (z ∈ m ∨ z = x) := by
    intro p m hm
    induction m generalizing p with
    | nil => simp
    | cons w m ih =>
      intro y hy
      cases List.mem_cons.mp hy with
      | inl hyw =>
        subst hyw
        cases m with
        | nil => exact ⟨x, hm.2.1, Or.inr rfl⟩
        | cons z m => exact ⟨z, hm.2.1, Or.inl (by simp)⟩
      | inr hym =>
        obtain ⟨z, hz, hzm⟩ := ih _ hm.2 y hym
        exact ⟨z, hz, hzm.imp_left (List.mem_cons_of_mem w)⟩
  refine ⟨fun y => y ∈ l₁ ∨ y = x, ⟨x, rfl, Or.inr rfl⟩, fun y hy => ?_⟩
  by_cases hyx : y = x
  · subst hyx
    rw [Function.update_self]
    exact hstart
  · rw [Function.update_of_ne hyx]
    exact hstep p l₁ h y (hy.resolve_right hyx)

/-- A walk that leads into an endless one is endless. -/
theorem Endless.push (h : Endless next p) : Endless (Function.update next x p) (some x) := by
  obtain ⟨S, hstart, hnext⟩ := h
  refine ⟨fun y => S y ∨ y = x, ⟨x, rfl, Or.inr rfl⟩, fun y hy => ?_⟩
  by_cases hyx : y = x
  · subst hyx
    rw [Function.update_self]
    obtain ⟨z, hz, hs⟩ := hstart
    exact ⟨z, hz, Or.inl hs⟩
  · rw [Function.update_of_ne hyx]
    obtain ⟨z, hz, hs⟩ := hnext y (hy.resolve_right hyx)
    exact ⟨z, hz, Or.inl hs⟩

end Dynamips.Links
