import Mathlib.Data.List.GetD

/-! One pass over an array that closes the gap of each entry it removes and then
goes on with the next place, so that it never looks at what moved into the gap. -/
set_option autoImplicit false

namespace Dynamips.Sweep

variable {α : Type}

/-- The entries behind a place move down by one, and the last place gets a hole. -/
def moveDown (hole : α) (l : List α) (i : Nat) : List α := l.eraseIdx i ++ [hole]

def step (p : α → Bool) (hole : α) (l : List α) (i : Nat) : List α :=
  if p (l.getD i hole) then moveDown hole l i else l

def sweep (p : α → Bool) (hole : α) (l : List α) : List α :=
  (List.range l.length).foldl (step p hole) l

/-- Two entries to remove stand next to each other. -/
def Twins (p : α → Bool) (hole : α) (l : List α) : Prop :=
  ∃ i, p (l.getD i hole) = true ∧ p (l.getD (i + 1) hole) = true

variable {p : α → Bool} {hole x : α} {l : List α} {i j n : Nat}

theorem length_step (hi : i < l.length) : (step p hole l i).length = l.length := by
  simp only [step, moveDown]
  split
  · rw [List.length_append, List.length_eraseIdx_of_lt hi, List.length_singleton]
    omega
  · rfl

theorem getD_moveDown (hi : i < l.length) :
    (moveDown hole l i).getD j hole = if j < i then l.getD j hole else l.getD (j + 1) hole := by
  have hlen := List.length_eraseIdx_of_lt hi
  simp only [moveDown, List.getD_eq_getElem?_getD]
  by_cases hj : j < l.length - 1
  · rw [List.getElem?_append_left (by omega), List.getElem?_eraseIdx]
    split
    · rfl
    · rfl
  · rw [List.getElem?_append_right (by omega), if_neg (by omega),
      List.getElem?_eq_none (l := l) (by omega)]
    cases j - (l.eraseIdx i).length <;> simp

theorem mem_step (hp : p x = false) (hi : i < l.length) (h : x ∈ l) : x ∈ step p hole l i := by
  simp only [step, moveDown]
  split
  · rename_i hx
    refine List.mem_append_left _ (List.mem_eraseIdx_iff_getElem?.mpr ?_)
    obtain ⟨j, hj⟩ := List.mem_iff_getElem?.mp h
    refine ⟨j, ?_, hj⟩
    rintro rfl
    rw [List.getD_eq_getElem?_getD, hj, Option.getD_some, hp] at hx
    cases hx
  · exact h

theorem mem_of_mem_step (h : x ∈ step p hole l i) : x ∈ l ∨ x = hole := by
  simp only [step, moveDown] at h
  split at h
  · rcases List.mem_append.mp h with h | h
    · exact .inl (List.mem_of_mem_eraseIdx h)
    · exact .inr (List.mem_singleton.mp h)
  · exact .inl h

/-- The invariant rule for a sweep. -/
theorem sweep_induction (p : α → Bool) (hole : α) {P : Nat → List α → Prop} (h0 : P 0 l)
    (hstep : ∀ i l', l'.length = l.length → i < l.length → P i l' → P (i + 1) (step p hole l' i)) :
    (sweep p hole l).length = l.length ∧ P l.length (sweep p hole l) := by
  have hall : ∀ n ≤ l.length, ((List.range n).foldl (step p hole) l).length = l.length ∧
      P n ((List.range n).foldl (step p hole) l) := by
    intro n hn
    induction n with
    | zero => exact ⟨rfl, h0⟩
    | succ n ih =>
      obtain ⟨hlen, hp⟩ := ih (by omega)
      rw [List.range_succ, List.foldl_append, List.foldl_cons, List.foldl_nil]
      exact ⟨(length_step (by omega)).trans hlen, hstep n _ hlen (by omega) hp⟩
  exact hall _ (Nat.le_refl _)

theorem length_sweep : (sweep p hole l).length = l.length :=
  (sweep_induction p hole (P := fun _ _ => True) trivial fun _ _ _ _ _ => trivial).1

theorem mem_sweep (hp : p x = false) (h : x ∈ l) : x ∈ sweep p hole l :=
  (sweep_induction p hole (P := fun _ l' => x ∈ l') h fun _ _ hlen hi hmem =>
    mem_step hp (hlen ▸ hi) hmem).2

theorem mem_of_mem_sweep (h : x ∈ sweep p hole l) : x ∈ l ∨ x = hole := by
  have hback := sweep_induction p hole (P := fun _ l' => ∀ x ∈ l', x ∈ l ∨ x = hole) (l := l)
    (fun _ hx => .inl hx) fun i l' _ _ ih y hy => (mem_of_mem_step hy).elim (ih y) .inr
  exact hback.2 x h

theorem getD_step (hi : i < l.length) :
    (step p hole l i).getD j hole =
      if p (l.getD i hole) = true ∧ i ≤ j then l.getD (j + 1) hole else l.getD j hole := by
  cases hx : p (l.getD i hole) with
  | false => simp only [step, hx, Bool.false_eq_true, if_false, false_and]
  | true =>
    simp only [step, hx, if_true, getD_moveDown hi, true_and]
    by_cases hj : j < i
    · rw [if_pos hj, if_neg (by omega)]
    · rw [if_neg hj, if_pos (by omega)]

/-- Without twins the places that were visited are clean, and no twins come up. -/
theorem step_clean (hi : i < l.length) (htwins : ¬ Twins p hole l)
    (hclean : ∀ j < i, p (l.getD j hole) = false) :
    ¬ Twins p hole (step p hole l i) ∧
      ∀ j < i + 1, p ((step p hole l i).getD j hole) = false := by
  have htwins : ∀ j, p (l.getD j hole) = true → p (l.getD (j + 1) hole) = false := by
    intro j hj
    rw [← Bool.not_eq_true]
    exact fun hnext => htwins ⟨j, hj, hnext⟩
  constructor
  · rintro ⟨j, hj, hnext⟩
    rw [getD_step hi] at hj hnext
    split at hj
    · rename_i hx
      rw [if_pos ⟨hx.1, by omega⟩, htwins _ hj] at hnext
      cases hnext
    · rename_i hx
      split at hnext
      · rename_i hx'
        have hji : ¬ i ≤ j := fun hij => hx ⟨hx'.1, hij⟩
        rw [hclean j (by omega)] at hj
        cases hj
      · rw [htwins j hj] at hnext
        cases hnext
  · intro j hj
    rw [getD_step hi]
    split
    · rename_i hx
      obtain rfl : j = i := by omega
      exact htwins j hx.1
    · rename_i hx
      by_cases hji : j < i
      · exact hclean j hji
      · obtain rfl : j = i := by omega
        simpa using hx

/-- Twins ahead, or an entry to remove behind: one of them is always there. -/
theorem step_twins (hi : i < l.length)
    (h : (∃ j, i ≤ j ∧ p (l.getD j hole) = true ∧ p (l.getD (j + 1) hole) = true) ∨
      ∃ j < i, p (l.getD j hole) = true) :
    (∃ j, i + 1 ≤ j ∧ p ((step p hole l i).getD j hole) = true ∧
        p ((step p hole l i).getD (j + 1) hole) = true) ∨
      ∃ j < i + 1, p ((step p hole l i).getD j hole) = true := by
  simp only [getD_step hi]
  rcases h with ⟨j, hij, hj, hnext⟩ | ⟨j, hji, hj⟩
  · cases hx : p (l.getD i hole) with
    | false =>
      have hne : i ≠ j := by
        rintro rfl
        rw [hj] at hx
        cases hx
      exact .inl ⟨j, by omega, by simpa using hj, by simpa using hnext⟩
    | true =>
      by_cases hji : j ≤ i + 1
      · refine .inr ⟨i, by omega, ?_⟩
        rw [if_pos ⟨rfl, Nat.le_refl i⟩]
        rcases Nat.lt_or_ge i j with hlt | hge
        · obtain rfl : j = i + 1 := by omega
          exact hj
        · obtain rfl : j = i := by omega
          exact hnext
      · obtain ⟨k, rfl⟩ : ∃ k, j = k + 1 := ⟨j - 1, by omega⟩
        refine .inl ⟨k, by omega, ?_, ?_⟩
        · rw [if_pos ⟨rfl, by omega⟩]
          exact hj
        · rw [if_pos ⟨rfl, by omega⟩]
          exact hnext
  · refine .inr ⟨j, by omega, ?_⟩
    rw [if_neg (by omega)]
    exact hj

/-- A sweep removes all entries exactly when no two of them are next to each other. -/
theorem sweep_removes_iff (hhole : p hole = false) :
    (∀ x ∈ sweep p hole l, p x = false) ↔ ¬ Twins p hole l := by
  have hbeyond : ∀ l' : List α, l'.length = l.length → ∀ j, l.length ≤ j →
      p (l'.getD j hole) = false := by
    intro l' hlen j hj
    rw [List.getD_eq_getElem?_getD, List.getElem?_eq_none (by omega), Option.getD_none, hhole]
  constructor
  · rintro hclear ⟨i, hi, hnext⟩
    obtain ⟨hlen, hend⟩ := sweep_induction p hole (l := l)
      (P := fun i l' =>
        (∃ j, i ≤ j ∧ p (l'.getD j hole) = true ∧ p (l'.getD (j + 1) hole) = true) ∨
          ∃ j < i, p (l'.getD j hole) = true)
      (.inl ⟨i, Nat.zero_le i, hi, hnext⟩)
      fun _ _ hlen hi h => step_twins (hlen ▸ hi) h
    rcases hend with ⟨j, hj, hbad, -⟩ | ⟨j, hj, hbad⟩
    · rw [hbeyond _ hlen j hj] at hbad
      cases hbad
    · have hmem : (sweep p hole l).getD j hole ∈ sweep p hole l := by
        rw [List.getD_eq_getElem _ _ (hlen ▸ hj)]
        exact List.getElem_mem _
      rw [hclear _ hmem] at hbad
      cases hbad
  · intro htwins x hx
    obtain ⟨hlen, -, hclean⟩ := sweep_induction p hole (l := l)
      (P := fun i l' => ¬ Twins p hole l' ∧ ∀ j < i, p (l'.getD j hole) = false)
      ⟨htwins, by simp⟩ fun _ _ hlen hi h => step_clean (hlen ▸ hi) h.1 h.2
    obtain ⟨j, hj, rfl⟩ := List.getElem_of_mem hx
    rw [← List.getD_eq_getElem _ hole hj]
    exact hclean j (hlen ▸ hj)

end Dynamips.Sweep
