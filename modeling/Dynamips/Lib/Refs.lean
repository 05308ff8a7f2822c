import Mathlib.Algebra.BigOperators.Group.Finset.Basic
import Mathlib.Data.List.Count
import Mathlib.Tactic.SplitIfs

/-! Reference counts: some holders each have a list of the objects they refer
to, and a table has a count for each object that exists. -/
set_option autoImplicit false

namespace Dynamips.Refs

variable {ι ν : Type} [DecidableEq ι] [DecidableEq ν]

/-- The references to an object -/
def total (holders : Finset ι) (held : ι → List ν) (n : ν) : Nat :=
  ∑ i ∈ holders, (held i).count n

variable {holders : Finset ι} {held held' : ι → List ν} {counts : ν → Option Nat} {n : ν} {i : ι}

theorem total_update (hi : i ∈ holders) (l : List ν) (n : ν) :
    total holders (Function.update held i l) n + (held i).count n =
      total holders held n + l.count n := by
  have hsum : ∀ f : ι → List ν, total holders f n =
      (f i).count n + ∑ j ∈ holders.erase i, (f j).count n :=
    fun f => (Finset.add_sum_erase holders (fun j => (f j).count n) hi).symm
  have hrest : ∑ j ∈ holders.erase i, (Function.update held i l j).count n =
      ∑ j ∈ holders.erase i, (held j).count n := by
    apply Finset.sum_congr rfl
    intro j hj
    rw [Function.update_of_ne (Finset.ne_of_mem_erase hj)]
  rw [hsum, hsum held, hrest, Function.update_self]
  omega

/-- A new reference, if the object exists and its count is below the limit -/
def acquire (limit : Nat) (counts : ν → Option Nat) (n : ν) : Option (ν → Option Nat) :=
  match counts n with
  | none => none
  | some k => if k = limit then none else some (Function.update counts n (some (k + 1)))

def release (counts : ν → Option Nat) (n : ν) : ν → Option Nat :=
  Function.update counts n ((counts n).map (· - 1))

/-- The count of each object is the number of references to it, and the objects
that are referred to exist. -/
def Counted (counts : ν → Option Nat) (total : ν → Nat) : Prop :=
  ∀ n, match counts n with
    | none => total n = 0
    | some k => k = total n

theorem Counted.acquire {limit : Nat} {counts' : ν → Option Nat} {t t' : ν → Nat}
    (h : Counted counts t) (ha : acquire limit counts n = some counts')
    (ht : t' n = t n + 1) (hother : ∀ m, m ≠ n → t' m = t m) : Counted counts' t' := by
  unfold Refs.acquire at ha
  have hn := h n
  cases hc : counts n with
  | none => simp [hc] at ha
  | some k =>
    simp only [hc] at ha hn
    split_ifs at ha
    cases ha
    intro m
    by_cases hm : m = n
    · subst hm
      simp only [Function.update_self]
      omega
    · simp only [Function.update_of_ne hm, hother m hm]
      exact h m

theorem Counted.release {t t' : ν → Nat} (h : Counted counts t) (ht : t' n + 1 = t n)
    (hother : ∀ m, m ≠ n → t' m = t m) : Counted (release counts n) t' := by
  have hn := h n
  intro m
  by_cases hm : m = n
  · subst hm
    simp only [Refs.release, Function.update_self]
    cases hc : counts m with
    | none =>
      simp only [hc] at hn
      omega
    | some k =>
      simp only [hc] at hn
      simp only [Option.map_some]
      omega
  · simp only [Refs.release, Function.update_of_ne hm, hother m hm]
    exact h m

/-- All references of a list given up, one after the other -/
def releaseAll (counts : ν → Option Nat) (l : List ν) : ν → Option Nat := l.foldl release counts

theorem Counted.releaseAll {t t' : ν → Nat} {l : List ν} (h : Counted counts t)
    (ht : ∀ m, t' m + l.count m = t m) : Counted (Refs.releaseAll counts l) t' := by
  induction l generalizing counts t with
  | nil =>
    have heq : t' = t := funext fun m => by simpa using ht m
    rw [heq]
    exact h
  | cons n l ih =>
    have hn := ht n
    rw [List.count_cons_self] at hn
    have hfirst : Counted (Refs.release counts n) fun m => t' m + l.count m := by
      apply h.release
      · omega
      · intro m hm
        have hm' := ht m
        rw [List.count_cons_of_ne (Ne.symm hm)] at hm'
        exact hm'
    exact ih hfirst fun _ => rfl

end Dynamips.Refs
