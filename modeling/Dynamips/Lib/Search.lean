import Mathlib.Data.List.Basic
import Mathlib.Order.WellFounded

/-! Searches: the least element with a property, by a number that tells the elements
apart, and a window of a sequence in a ring buffer. -/
set_option autoImplicit false

namespace Search

section Least

variable {α : Type} {f : α → Nat} {p q : α → Prop} {a b : α}

/-- The least element with a property. -/
def Least (f : α → Nat) (p : α → Prop) (a : α) : Prop := p a ∧ ∀ b, p b → f a ≤ f b

theorem Least.unique (hf : Function.Injective f) (ha : Least f p a) (hb : Least f p b) : a = b :=
  hf (Nat.le_antisymm (ha.2 b hb.1) (hb.2 a ha.1))

theorem exists_least (h : p a) : ∃ b, Least f p b ∧ f b ≤ f a := by
  induction hn : f a using Nat.strong_induction_on generalizing a with
  | _ n ih =>
    by_cases hleast : ∃ b, p b ∧ f b < f a
    · obtain ⟨b, hb, hlt⟩ := hleast
      obtain ⟨c, hc, hle⟩ := ih (f b) (hn ▸ hlt) hb rfl
      exact ⟨c, hc, by omega⟩
    · refine ⟨a, ⟨h, fun b hb => ?_⟩, by omega⟩
      by_contra hlt
      exact hleast ⟨b, hb, by omega⟩

/-- Two properties have the same least element exactly if the least element with one of
them has both. -/
theorem least_congr_iff (hf : Function.Injective f) :
    (∀ a, Least f p a ↔ Least f q a) ↔ ∀ a, Least f (fun x => p x ∨ q x) a → p a ∧ q a := by
  constructor
  · intro h a ha
    cases ha.1 with
    | inl hp =>
      have hleast : Least f p a := ⟨hp, fun b hb => ha.2 b (Or.inl hb)⟩
      exact ⟨hp, ((h a).mp hleast).1⟩
    | inr hq =>
      have hleast : Least f q a := ⟨hq, fun b hb => ha.2 b (Or.inr hb)⟩
      exact ⟨((h a).mpr hleast).1, hq⟩
  · intro h a
    constructor
    · intro ha
      obtain ⟨c, hc, hle⟩ := @exists_least _ f (fun x => p x ∨ q x) a (Or.inl ha.1)
      obtain ⟨hp, hq⟩ := h c hc
      obtain rfl : a = c := ha.unique hf ⟨hp, fun b hb => hc.2 b (Or.inl hb)⟩
      exact ⟨hq, fun b hb => hc.2 b (Or.inr hb)⟩
    · intro ha
      obtain ⟨c, hc, hle⟩ := @exists_least _ f (fun x => p x ∨ q x) a (Or.inr ha.1)
      obtain ⟨hp, hq⟩ := h c hc
      obtain rfl : a = c := ha.unique hf ⟨hq, fun b hb => hc.2 b (Or.inr hb)⟩
      exact ⟨hp, fun b hb => hc.2 b (Or.inl hb)⟩

end Least

section Ring

variable {α : Type} {buf word : List α} {i : Nat}

/-- What a ring buffer holds from its position on. -/
def rotated (buf : List α) (i : Nat) : List α := buf.drop i ++ buf.take i

@[simp] theorem rotated_zero (buf : List α) : rotated buf 0 = buf := by simp [rotated]

theorem rotated_length (buf : List α) : rotated buf buf.length = buf := by simp [rotated]

@[simp] theorem length_rotated (buf : List α) (i : Nat) :
    (rotated buf i).length = buf.length := by
  simp only [rotated, List.length_append, List.length_drop, List.length_take]
  omega

/-- The comparison of a ring buffer in two pieces. -/
theorem rotated_eq_iff (hi : i ≤ buf.length) (hlen : word.length = buf.length) :
    rotated buf i = word ↔
      (i = 0 ∨ buf.take i = word.drop (buf.length - i)) ∧
        buf.drop i = word.take (buf.length - i) := by
  have hsplit : word.take (buf.length - i) ++ word.drop (buf.length - i) = word :=
    List.take_append_drop _ _
  have hdrop : (buf.drop i).length = (word.take (buf.length - i)).length := by
    rw [List.length_drop, List.length_take, hlen]
    omega
  rw [rotated]
  constructor
  · intro h
    rw [← hsplit] at h
    obtain ⟨hback, hfront⟩ := List.append_inj h hdrop
    exact ⟨Or.inr hfront, hback⟩
  · rintro ⟨hfront, hback⟩
    cases hfront with
    | inl hz =>
      subst hz
      simp only [List.drop_zero, List.take_zero, List.append_nil] at hback ⊢
      rw [hback, ← hlen, Nat.sub_zero, List.take_length]
    | inr hfront => rw [hfront, hback, hsplit]

/-- A ring buffer takes the next element in place of its oldest one. -/
theorem rotated_set (hi : i < buf.length) (b : α) :
    rotated (buf.set i b) (i + 1) = (rotated buf i).tail ++ [b] := by
  have hdrop : (buf.set i b).drop (i + 1) = buf.drop (i + 1) := by
    rw [List.drop_set, if_pos (by omega)]
  have htake : (buf.set i b).take (i + 1) = buf.take i ++ [b] := by
    have hlen : i < (buf.set i b).length := by rwa [List.length_set]
    rw [List.take_succ_eq_append_getElem hlen, List.getElem_set_self,
      List.take_set_of_le (by omega)]
  have htail : (rotated buf i).tail = buf.drop (i + 1) ++ buf.take i := by
    rw [rotated, List.drop_eq_getElem_cons hi, List.cons_append, List.tail_cons]
  rw [htail, rotated, hdrop, htake, List.append_assoc]

end Ring

end Search
