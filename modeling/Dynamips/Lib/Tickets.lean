import Mathlib.Algebra.Order.Ring.Int
import Mathlib.Data.List.Nodup
import Mathlib.Logic.Function.Basic

/-! Numbered tickets: each holder hands them out under growing numbers, so no
ticket is handed out twice and at most one of a holder's tickets carries its latest
number. -/
set_option autoImplicit false

namespace Dynamips.Tickets

variable {κ : Type} {last last' : κ → Nat} {tickets tickets' : List (κ × Nat)} {k : κ} {n : Nat}

/-- The tickets handed out so far, when `last` holds the latest number of each holder -/
structure Issued (last : κ → Nat) (tickets : List (κ × Nat)) : Prop where
  nodup : tickets.Nodup
  le : ∀ t ∈ tickets, t.2 ≤ last t.1

theorem issued_nil (last : κ → Nat) : Issued last [] := ⟨List.nodup_nil, by simp⟩

theorem Issued.perm (h : Issued last tickets) (hp : tickets.Perm tickets') :
    Issued last tickets' :=
  ⟨hp.nodup_iff.mp h.nodup, fun t ht => h.le t (hp.mem_iff.mpr ht)⟩

theorem Issued.sublist (h : Issued last tickets) (hs : tickets'.Sublist tickets) :
    Issued last tickets' :=
  ⟨h.nodup.sublist hs, fun t ht => h.le t (hs.subset ht)⟩

/-- The numbers of the holders of tickets may grow. -/
theorem Issued.raise (h : Issued last tickets)
    (hle : ∀ t ∈ tickets, last t.1 ≤ last' t.1) : Issued last' tickets :=
  ⟨h.nodup, fun t ht => Nat.le_trans (h.le t ht) (hle t ht)⟩

theorem Issued.issue [DecidableEq κ] (h : Issued last tickets) (hn : last k < n) :
    Issued (Function.update last k n) ((k, n) :: tickets) := by
  have hnew : (k, n) ∉ tickets := fun hmem => Nat.not_le_of_lt hn (h.le _ hmem)
  refine ⟨List.nodup_cons.mpr ⟨hnew, h.nodup⟩, ?_⟩
  intro t ht
  cases ht with
  | head => simp
  | tail _ ht =>
    have hle := h.le t ht
    by_cases hk : t.1 = k
    · rw [hk] at hle ⊢
      simp
      omega
    · rwa [Function.update_of_ne hk]

/-- Where all elements that satisfy `p` are the same there is at most one. -/
theorem length_filter_le {α : Type} {l : List α} {p : α → Bool} (h : l.Nodup)
    (hp : ∀ a ∈ l, ∀ b ∈ l, p a → p b → a = b) : (l.filter p).length ≤ 1 := by
  match hf : l.filter p with
  | [] => simp
  | [_] => simp
  | a :: b :: rest =>
    have hmem : ∀ c ∈ a :: b :: rest, c ∈ l ∧ p c := by
      intro c hc
      rw [← hf] at hc
      exact List.mem_filter.mp hc
    have ha := hmem a (by simp)
    have hb := hmem b (by simp)
    have hnodup := h.filter p
    rw [hf, hp a ha.1 b hb.1 ha.2 hb.2] at hnodup
    simp at hnodup

/-- At most one ticket of a holder carries its latest number. -/
theorem Issued.length_latest_le [DecidableEq κ] (h : Issued last tickets) (k : κ) :
    (tickets.filter fun t => t = (k, last k)).length ≤ 1 :=
  length_filter_le h.nodup fun a _ b _ ha hb => by simp_all

end Dynamips.Tickets
