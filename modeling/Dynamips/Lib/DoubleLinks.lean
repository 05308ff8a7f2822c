import Dynamips.Lib.Links

/-! Lists that are linked in both directions, with their two ends. -/
set_option autoImplicit false

namespace Dynamips.DoubleLinks

open Links

structure DoubleList (P : Type) where
  head : Option P
  tail : Option P
  next : P → Option P
  prev : P → Option P

variable {P : Type} {next : P → Option P} {p : Option P} {l l₁ l₂ : List P} {x : P}
  {d : DoubleList P}

/-- The nodes from the head on, and from the tail back. -/
structure Linked (d : DoubleList P) (l : List P) : Prop where
  forward : Chain d.next d.head l
  backward : Chain d.prev d.tail l.reverse

/-- A walk of at most so many nodes. -/
def walk (next : P → Option P) : Nat → Option P → List P
  | 0, _ => []
  | _, none => []
  | fuel + 1, some x => x :: walk next fuel (next x)

theorem walk_chain (h : Chain next p l) {fuel : Nat} (hfuel : l.length ≤ fuel) :
    walk next fuel p = l := by
  induction l generalizing p fuel with
  | nil =>
    obtain rfl : p = none := h
    cases fuel with
    | zero => rfl
    | succ fuel => rfl
  | cons x l ih =>
    obtain ⟨rfl, htail⟩ := h
    cases fuel with
    | zero => simp at hfuel
    | succ fuel => rw [walk, ih htail (Nat.le_of_succ_le_succ hfuel)]

theorem Linked.nodup (h : Linked d l) : l.Nodup := h.forward.nodup

theorem chain_next (h : Chain next p (l₁ ++ x :: l₂)) : next x = l₂.head? := by
  have hrest := h.drop.2
  cases l₂ with
  | nil => exact hrest
  | cons y l₂ => exact hrest.1

theorem Linked.next_eq (h : Linked d (l₁ ++ x :: l₂)) : d.next x = l₂.head? :=
  chain_next h.forward

theorem Linked.prev_eq (h : Linked d (l₁ ++ x :: l₂)) : d.prev x = l₁.getLast? := by
  have hback := h.backward
  rw [List.reverse_append, List.reverse_cons, List.append_assoc, List.singleton_append] at hback
  rw [chain_next hback, List.head?_reverse]

variable [DecidableEq P]

/-- A link of a chain, or its start, that leads to another node. -/
def redirect (next : P → Option P) (start node target : Option P) :
    (P → Option P) × Option P :=
  match node with
  | some y => (Function.update next y target, start)
  | none => (next, target)

/-- A node taken out of a chain -/
theorem chain_bypass (h : Chain next p (l₁ ++ x :: l₂)) :
    Chain (redirect next p l₁.getLast? (next x)).1 (redirect next p l₁.getLast? (next x)).2
      (l₁ ++ l₂) := by
  have hnodup := h.nodup
  cases hl : l₁.getLast? with
  | none =>
    obtain rfl := List.getLast?_eq_none_iff.mp hl
    exact h.2
  | some y =>
    obtain ⟨m, rfl⟩ := List.getLast?_eq_some_iff.mp hl
    clear hl
    simp only [redirect, List.append_assoc, List.singleton_append] at h hnodup ⊢
    induction m generalizing p with
    | nil =>
      obtain ⟨hp, hx, hrest⟩ := h
      refine ⟨hp, ?_⟩
      rw [Function.update_self]
      refine hrest.congr fun z hz => Function.update_of_ne ?_ _ _
      rintro rfl
      exact (List.nodup_cons.mp hnodup).1 (List.mem_cons_of_mem x hz)
    | cons w m ih =>
      obtain ⟨hp, hrest⟩ := h
      obtain ⟨hw, hnodup⟩ := List.nodup_cons.mp hnodup
      refine ⟨hp, ?_⟩
      have hwy : w ≠ y := by
        rintro rfl
        exact hw (by simp)
      rw [Function.update_of_ne hwy]
      exact ih hrest hnodup

/-- A new last node -/
theorem chain_snoc (h : Chain next p l) (hx : x ∉ l) :
    Chain (redirect (Function.update next x none) p l.getLast? (some x)).1
      (redirect (Function.update next x none) p l.getLast? (some x)).2 (l ++ [x]) := by
  have hnodup := h.nodup
  cases hl : l.getLast? with
  | none =>
    obtain rfl := List.getLast?_eq_none_iff.mp hl
    simp [redirect, Chain]
  | some y =>
    obtain ⟨m, rfl⟩ := List.getLast?_eq_some_iff.mp hl
    clear hl
    simp only [redirect, List.append_assoc, List.singleton_append] at h hnodup ⊢
    induction m generalizing p with
    | nil =>
      refine ⟨h.1, ?_⟩
      have hne : x ≠ y := fun hxy => hx (by simp [hxy])
      simp [Chain, hne]
    | cons w m ih =>
      obtain ⟨hp, hrest⟩ := h
      obtain ⟨hw, hnodup⟩ := List.nodup_cons.mp hnodup
      refine ⟨hp, ?_⟩
      have hwx : w ≠ x := fun hwx => hx (by simp [hwx])
      have hwy : w ≠ y := by
        rintro rfl
        exact hw (by simp)
      rw [Function.update_of_ne hwy, Function.update_of_ne hwx]
      exact ih hrest (fun hm => hx (List.mem_cons_of_mem w hm)) hnodup

/-- A node is taken out of the list. -/
def extract (d : DoubleList P) (x : P) : DoubleList P :=
  let forward := redirect d.next d.head (d.prev x) (d.next x)
  let backward := redirect d.prev d.tail (forward.1 x) (d.prev x)
  { head := forward.2, next := forward.1, tail := backward.2, prev := backward.1 }

/-- A node becomes the first one. -/
def insertHead (d : DoubleList P) (x : P) : DoubleList P :=
  let next := Function.update d.next x d.head
  let backward := redirect (Function.update d.prev x none) d.tail (next x) (some x)
  { head := some x, next := next, tail := backward.2, prev := backward.1 }

theorem Linked.extract (h : Linked d (l₁ ++ x :: l₂)) : Linked (extract d x) (l₁ ++ l₂) := by
  have hnodup := h.nodup
  have hprev := h.prev_eq
  have hnext := h.next_eq
  have hback := h.backward
  rw [List.reverse_append, List.reverse_cons, List.append_assoc, List.singleton_append] at hback
  have hsame : (redirect d.next d.head (d.prev x) (d.next x)).1 x = d.next x := by
    rw [hprev]
    cases hl : l₁.getLast? with
    | none => rfl
    | some y =>
      have hne : x ≠ y := by
        rintro rfl
        exact (List.nodup_append.mp hnodup).2.2 x (List.mem_of_getLast? hl) x (by simp) rfl
      exact Function.update_of_ne hne _ _
  constructor
  · have hforward := chain_bypass h.forward
    rwa [← hprev] at hforward
  · have hbackward := chain_bypass hback
    rw [List.getLast?_reverse, ← hnext, ← List.reverse_append] at hbackward
    unfold DoubleLinks.extract
    simp only [hsame]
    exact hbackward

theorem Linked.insertHead (h : Linked d l) (hx : x ∉ l) : Linked (insertHead d x) (x :: l) := by
  have hhead : d.head = l.head? := by
    have hforward := h.forward
    cases l with
    | nil => exact hforward
    | cons y l => exact hforward.1
  constructor
  · exact h.forward.push hx
  · have hbackward := chain_snoc h.backward (fun hm => hx (List.mem_reverse.mp hm))
    rw [List.getLast?_reverse, ← hhead, ← List.reverse_cons] at hbackward
    unfold DoubleLinks.insertHead
    simp only [Function.update_self]
    exact hbackward

end Dynamips.DoubleLinks
