import Mathlib.Data.List.Nodup
import Mathlib.Logic.Function.Basic

/-! Hash tables with chains: insertion at the head of a chain, and removal of the
first match in one. -/
set_option autoImplicit false

namespace Dynamips.Buckets

variable {m : Nat} {V K : Type}

abbrev Table (m : Nat) (V : Type) := Fin m → List V

def empty (m : Nat) (V : Type) : Table m V := fun _ => []

def push (t : Table m V) (b : Fin m) (v : V) : Table m V := Function.update t b (v :: t b)

def eraseFirst (t : Table m V) (b : Fin m) (p : V → Bool) : Table m V :=
  Function.update t b ((t b).eraseP p)

def Mem (t : Table m V) (v : V) : Prop := ∃ b, v ∈ t b

/-- Every value is in the chain of its key, and no key is in a chain twice. -/
structure Indexed (hash : K → Fin m) (key : V → K) (t : Table m V) : Prop where
  placed : ∀ b, ∀ v ∈ t b, hash (key v) = b
  unique : ∀ b, ((t b).map key).Nodup

variable {hash : K → Fin m} {key : V → K} {t : Table m V} {v w : V} {b : Fin m} {p : V → Bool}

theorem push_of_ne {c : Fin m} (h : c ≠ b) : push t b v c = t c := Function.update_of_ne h _ _

theorem eraseFirst_of_ne {c : Fin m} (h : c ≠ b) : eraseFirst t b p c = t c :=
  Function.update_of_ne h _ _

theorem not_mem_empty : ¬ Mem (empty m V) v := by
  rintro ⟨b, hv⟩
  cases hv

theorem indexed_empty : Indexed hash key (empty m V) where
  placed _ _ hv := absurd hv List.not_mem_nil
  unique _ := List.nodup_nil

theorem Indexed.congr {key' : V → K} (h : Indexed hash key t)
    (hk : ∀ v, Mem t v → key' v = key v) : Indexed hash key' t where
  placed b v hv := by
    rw [hk v ⟨b, hv⟩]
    exact h.placed b v hv
  unique b := by
    rw [List.map_congr_left fun v hv => hk v ⟨b, hv⟩]
    exact h.unique b

theorem Indexed.mem_chain (h : Indexed hash key t) (hv : Mem t v) : v ∈ t (hash (key v)) := by
  obtain ⟨b, hb⟩ := hv
  rw [h.placed b v hb]
  exact hb

theorem Indexed.eq_of_key (h : Indexed hash key t) (hv : Mem t v) (hw : Mem t w)
    (hk : key v = key w) : v = w := by
  have hcv := h.mem_chain hv
  rw [hk] at hcv
  exact List.inj_on_of_nodup_map (h.unique _) hcv (h.mem_chain hw) hk

theorem mem_push : Mem (push t b v) w ↔ w = v ∨ Mem t w := by
  constructor
  · rintro ⟨c, hc⟩
    by_cases hcb : c = b
    · subst hcb
      rw [push, Function.update_self] at hc
      exact (List.mem_cons.mp hc).imp_right fun hw => ⟨c, hw⟩
    · rw [push_of_ne hcb] at hc
      exact Or.inr ⟨c, hc⟩
  · intro hw
    by_cases hwv : w = v
    · subst hwv
      exact ⟨b, by simp [push]⟩
    · obtain ⟨c, hc⟩ := hw.resolve_left hwv
      refine ⟨c, ?_⟩
      by_cases hcb : c = b
      · subst hcb
        simp [push, hc]
      · simpa [push_of_ne hcb] using hc

/-- A value whose key is new goes to the chain of its key. -/
theorem Indexed.push (h : Indexed hash key t) (hb : hash (key v) = b)
    (hnew : ∀ w, Mem t w → key w ≠ key v) : Indexed hash key (push t b v) := by
  constructor
  · intro c w hw
    by_cases hcb : c = b
    · subst hcb
      rw [Buckets.push, Function.update_self] at hw
      cases List.mem_cons.mp hw with
      | inl heq => rw [heq, hb]
      | inr hw => exact h.placed c w hw
    · rw [push_of_ne hcb] at hw
      exact h.placed c w hw
  · intro c
    by_cases hcb : c = b
    · subst hcb
      rw [Buckets.push, Function.update_self, List.map_cons, List.nodup_cons]
      refine ⟨fun hmem => ?_, h.unique c⟩
      obtain ⟨w, hw, hk⟩ := List.mem_map.mp hmem
      exact hnew w ⟨c, hw⟩ hk
    · rw [push_of_ne hcb]
      exact h.unique c

theorem eraseFirst_sublist (t : Table m V) (b c : Fin m) (p : V → Bool) :
    (eraseFirst t b p c).Sublist (t c) := by
  by_cases hcb : c = b
  · subst hcb
    rw [eraseFirst, Function.update_self]
    exact List.eraseP_sublist
  · rw [eraseFirst_of_ne hcb]

theorem mem_of_mem_eraseFirst (h : Mem (eraseFirst t b p) w) : Mem t w := by
  obtain ⟨c, hc⟩ := h
  exact ⟨c, (eraseFirst_sublist t b c p).subset hc⟩

theorem Indexed.eraseFirst (h : Indexed hash key t) (b : Fin m) (p : V → Bool) :
    Indexed hash key (eraseFirst t b p) :=
  ⟨fun c v hv => h.placed c v ((eraseFirst_sublist t b c p).subset hv),
    fun c => (h.unique c).sublist ((eraseFirst_sublist t b c p).map key)⟩

/-- Removing the first match takes that value away and nothing else. -/
theorem Indexed.mem_eraseFirst (h : Indexed hash key t) (hv : (t b).find? p = some v) :
    Mem (Buckets.eraseFirst t b p) w ↔ Mem t w ∧ w ≠ v := by
  obtain ⟨hpv, l₁, l₂, hsplit, hl₁⟩ := List.find?_eq_some_iff_append.mp hv
  have hchain : (t b).eraseP p = l₁ ++ l₂ := by
    rw [hsplit, List.eraseP_append_right _ (by simpa using hl₁), List.eraseP_cons_of_pos hpv]
  have hnodup : (l₁ ++ v :: l₂).Nodup := by
    rw [← hsplit]
    exact (h.unique b).of_map
  have hvb : v ∈ t b := List.mem_of_find?_eq_some hv
  constructor
  · intro hw
    refine ⟨mem_of_mem_eraseFirst hw, ?_⟩
    rintro rfl
    have hplace := (h.eraseFirst b p).mem_chain hw
    rw [h.placed b w hvb, Buckets.eraseFirst, Function.update_self, hchain] at hplace
    have hnot := List.nodup_middle.mp hnodup
    exact (List.nodup_cons.mp hnot).1 hplace
  · rintro ⟨⟨c, hc⟩, hne⟩
    refine ⟨c, ?_⟩
    by_cases hcb : c = b
    · subst hcb
      rw [Buckets.eraseFirst, Function.update_self, hchain]
      rw [hsplit] at hc
      simpa [hne] using hc
    · rw [eraseFirst_of_ne hcb]
      exact hc

/-- What a search in the chain of a key finds. -/
theorem Indexed.find_eq_some [DecidableEq K] (h : Indexed hash key t) (k : K) :
    (t (hash k)).find? (fun w => key w = k) = some v ↔ Mem t v ∧ key v = k := by
  constructor
  · intro hf
    exact ⟨⟨_, List.mem_of_find?_eq_some hf⟩, by simpa using List.find?_some hf⟩
  · rintro ⟨hv, rfl⟩
    cases hf : (t (hash (key v))).find? (fun w => key w = key v) with
    | none =>
      rw [List.find?_eq_none] at hf
      simpa using hf v (h.mem_chain hv)
    | some w =>
      have hk : key w = key v := by simpa using List.find?_some hf
      rw [h.eq_of_key ⟨_, List.mem_of_find?_eq_some hf⟩ hv hk]

theorem Indexed.find_eq_none [DecidableEq K] (h : Indexed hash key t) (k : K) :
    (t (hash k)).find? (fun w => key w = k) = none ↔ ∀ w, Mem t w → key w ≠ k := by
  constructor
  · intro hf w hw hk
    rw [(h.find_eq_some k).mpr ⟨hw, hk⟩] at hf
    cases hf
  · intro hnone
    cases hf : (t (hash k)).find? (fun w => key w = k) with
    | none => rfl
    | some w =>
      obtain ⟨hw, hk⟩ := (h.find_eq_some k).mp hf
      exact absurd hk (hnone w hw)

end Dynamips.Buckets
