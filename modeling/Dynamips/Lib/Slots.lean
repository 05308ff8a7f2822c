import Mathlib.Data.Finset.Card
import Mathlib.Logic.Function.Basic

/-! Hash tables whose cells are found by a tag. A key has a list of candidate
cells with the tag that it would have in each, an insertion takes the first free
one, and a search takes the first cell that has its tag. -/
set_option autoImplicit false

namespace Dynamips.Slots

/-- The candidate cells of each key. The tag in a cell, together with the place
of the cell, tells whose it is. -/
structure Scheme (Key Addr Tag : Type) where
  slots : Key → List (Addr × Tag)
  valid : Tag → Bool
  valid_of_mem : ∀ k, ∀ s ∈ slots k, valid s.2 = true
  key_of_mem : ∀ k k', ∀ s ∈ slots k, s ∈ slots k' → k = k'

variable {Key Addr Tag Val : Type} (S : Scheme Key Addr Tag)

def insert [DecidableEq Addr] (t : Addr → Tag × Val) (e : Key × Val) : Option (Addr → Tag × Val) :=
  ((S.slots e.1).find? fun s => !S.valid (t s.1).1).map fun s =>
    Function.update t s.1 (s.2, e.2)

def lookup [DecidableEq Tag] (t : Addr → Tag × Val) (k : Key) : Option Val :=
  ((S.slots k).find? fun s => decide ((t s.1).1 = s.2)).map fun s => (t s.1).2

/-- The table holds the entries `l` and, in the cells that some key can have,
nothing else. -/
structure Holds (t : Addr → Tag × Val) (l : List (Key × Val)) : Prop where
  stored : ∀ e ∈ l, ∃ s ∈ S.slots e.1, t s.1 = (s.2, e.2)
  owned : ∀ k, ∀ s ∈ S.slots k, S.valid (t s.1).1 = true →
    ∃ e ∈ l, (s.1, (t s.1).1) ∈ S.slots e.1 ∧ (t s.1).2 = e.2

variable {S} {t t' : Addr → Tag × Val} {l : List (Key × Val)}

theorem holds_nil (h : ∀ k, ∀ s ∈ S.slots k, S.valid (t s.1).1 = false) : Holds S t [] where
  stored := by simp
  owned := by
    intro k s hs hv
    rw [h k s hs] at hv
    cases hv

theorem insert_cases [DecidableEq Addr] {e : Key × Val} (h : insert S t e = some t') :
    ∃ s ∈ S.slots e.1, S.valid (t s.1).1 = false ∧ t' = Function.update t s.1 (s.2, e.2) := by
  obtain ⟨s, hs, ht⟩ := Option.map_eq_some_iff.mp h
  have hfree := List.find?_some hs
  exact ⟨s, List.mem_of_find?_eq_some hs, by simpa using hfree, ht.symm⟩

theorem holds_insert [DecidableEq Addr] {e : Key × Val} (hl : Holds S t l) (h : insert S t e = some t') :
    Holds S t' (l ++ [e]) := by
  obtain ⟨s, hs, hfree, rfl⟩ := insert_cases h
  constructor
  · intro e' he'
    rcases List.mem_append.mp he' with hold | hnew
    · obtain ⟨s', hs', ht'⟩ := hl.stored e' hold
      have hne : s'.1 ≠ s.1 := by
        intro heq
        rw [← heq, ht', S.valid_of_mem _ _ hs'] at hfree
        cases hfree
      exact ⟨s', hs', by rw [Function.update_of_ne hne, ht']⟩
    · rw [List.mem_singleton.mp hnew]
      exact ⟨s, hs, Function.update_self ..⟩
  · intro k s' hs' hv
    by_cases heq : s'.1 = s.1
    · rw [heq, Function.update_self]
      exact ⟨e, by simp, hs, rfl⟩
    · rw [Function.update_of_ne heq] at hv ⊢
      obtain ⟨e', he', hmem⟩ := hl.owned k s' hs' hv
      exact ⟨e', List.mem_append_left _ he', hmem⟩

theorem holds_inserts [DecidableEq Addr] (es : List (Key × Val)) (hl : Holds S t l)
    (h : es.foldlM (insert S) t = some t') : Holds S t' (l ++ es) := by
  induction es generalizing t l with
  | nil =>
    rw [List.foldlM_nil] at h
    cases h
    rwa [List.append_nil]
  | cons e es ih =>
    rw [List.foldlM_cons] at h
    obtain ⟨u, hu, hrest⟩ := Option.bind_eq_some_iff.mp h
    have hall := ih (holds_insert hl hu) hrest
    rwa [List.append_assoc] at hall

/-- A search finds the value of a key that is held and nothing for the others. -/
theorem lookup_of_holds [DecidableEq Key] [DecidableEq Tag] (hl : Holds S t l)
    (hkeys : ∀ e ∈ l, ∀ e' ∈ l, e.1 = e'.1 → e = e') (k : Key) :
    lookup S t k = (l.find? fun e => decide (e.1 = k)).map Prod.snd := by
  unfold lookup
  cases hfind : (S.slots k).find? fun s => decide ((t s.1).1 = s.2) with
  | none =>
    have hnone : (l.find? fun e => decide (e.1 = k)) = none := by
      rw [List.find?_eq_none] at hfind ⊢
      intro e he hk
      obtain ⟨s, hs, ht⟩ := hl.stored e he
      rw [of_decide_eq_true hk] at hs
      exact hfind s hs (by rw [ht]; exact decide_eq_true rfl)
    rw [hnone]
    rfl
  | some s =>
    have hs := List.mem_of_find?_eq_some hfind
    have htag : (t s.1).1 = s.2 := by simpa using List.find?_some hfind
    have hv : S.valid (t s.1).1 = true := by
      rw [htag]
      exact S.valid_of_mem k s hs
    obtain ⟨e, he, hmem, hval⟩ := hl.owned k s hs hv
    rw [htag] at hmem
    have hk : e.1 = k := S.key_of_mem _ _ s hmem hs
    cases hl' : l.find? fun e => decide (e.1 = k) with
    | none =>
      rw [List.find?_eq_none] at hl'
      exact absurd (decide_eq_true hk) (hl' e he)
    | some e' =>
      have he' := List.mem_of_find?_eq_some hl'
      have hk' : e'.1 = k := by simpa using List.find?_some hl'
      rw [hkeys e' he' e he (hk'.trans hk.symm)]
      exact congrArg some hval

/-- The cells of `A` that are still free. -/
def freeSlots (S : Scheme Key Addr Tag) (A : Finset Addr) (t : Addr → Tag × Val) : Finset Addr :=
  A.filter fun a => S.valid (t a).1 = false

theorem card_freeSlots_lt [DecidableEq Addr] {A : Finset Addr} {e : Key × Val}
    (hA : ∀ s ∈ S.slots e.1, s.1 ∈ A) (h : insert S t e = some t') : (freeSlots S A t').card < (freeSlots S A t).card := by
  obtain ⟨s, hs, hfree, rfl⟩ := insert_cases h
  have hv := S.valid_of_mem _ _ hs
  refine Finset.card_lt_card ⟨?_, ?_⟩
  · intro a ha
    obtain ⟨hmem, hval⟩ := Finset.mem_filter.mp ha
    by_cases heq : a = s.1
    · rw [heq, Function.update_self, hv] at hval
      cases hval
    · rw [Function.update_of_ne heq] at hval
      exact Finset.mem_filter.mpr ⟨hmem, hval⟩
  · intro hsub
    have hin := hsub (Finset.mem_filter.mpr ⟨hA s hs, hfree⟩)
    have hval := (Finset.mem_filter.mp hin).2
    rw [Function.update_self, hv] at hval
    cases hval

end Dynamips.Slots
