import Mathlib.Data.List.Perm.Lattice
import Mathlib.Data.List.Nodup

/-! A pool of items, each of them free or held by one of some owners. -/
set_option autoImplicit false

namespace Dynamips.Owners

variable {β π : Type}

/-- What the owners of a list hold together. -/
def held (items : β → List π) (owners : List β) : List π := owners.flatMap items

variable {f g : β → List π} {l l' : List β} {b : β} {free free' all : List π}

theorem held_congr (h : ∀ b ∈ l, g b = f b) : held g l = held f l := by
  induction l with
  | nil => rfl
  | cons a l ih =>
    simp only [held, List.flatMap_cons]
    rw [h a List.mem_cons_self]
    exact congrArg _ (ih fun b hb => h b (List.mem_cons_of_mem _ hb))

theorem held_perm (h : l.Perm l') : (held f l).Perm (held f l') :=
  h.flatMap_right f

theorem length_le_held (h : ∀ b ∈ l, f b ≠ []) : l.length ≤ (held f l).length := by
  induction l with
  | nil => simp
  | cons a l ih =>
    have ha := List.length_pos_of_ne_nil (h a List.mem_cons_self)
    have hl := ih fun b hb => h b (List.mem_cons_of_mem _ hb)
    simp only [held, List.flatMap_cons, List.length_append, List.length_cons] at hl ⊢
    omega

/-- Each item is free or held by exactly one owner, once. -/
def Partition (free : List π) (items : β → List π) (owners : List β) (all : List π) : Prop :=
  (free ++ held items owners).Perm all

theorem Partition.perm (h : Partition free f l all) (hl : l.Perm l') :
    Partition free f l' all :=
  ((held_perm hl).symm.append_left free).trans h

theorem Partition.congr (h : Partition free f l all) (hg : ∀ b ∈ l, g b = f b) :
    Partition free g l all := by
  unfold Partition
  rw [held_congr hg]
  exact h

theorem Partition.cons_iff (hb : f b = []) :
    Partition free f (b :: l) all ↔ Partition free f l all := by
  simp only [Partition, held, List.flatMap_cons, hb, List.nil_append]

/-- One owner and the pool exchange items. -/
theorem Partition.exchange (h : Partition free f l all) (hb : b ∈ l) (hl : l.Nodup)
    (hg : ∀ c, c ≠ b → g c = f c) (hx : (free' ++ g b).Perm (free ++ f b)) :
    Partition free' g l all := by
  obtain ⟨l₁, l₂, rfl⟩ := List.append_of_mem hb
  have hfirst : (l₁ ++ b :: l₂).Perm (b :: (l₁ ++ l₂)) := List.perm_middle
  have hnot : b ∉ l₁ ++ l₂ := (List.nodup_cons.mp (hfirst.nodup_iff.mp hl)).1
  have hrest : held g (l₁ ++ l₂) = held f (l₁ ++ l₂) :=
    held_congr fun c hc => hg c fun heq => hnot (heq ▸ hc)
  have hsplit := h.perm hfirst
  refine Partition.perm ?_ hfirst.symm
  simp only [Partition, held, List.flatMap_cons, ← List.append_assoc] at hsplit ⊢
  rw [show List.flatMap g (l₁ ++ l₂) = List.flatMap f (l₁ ++ l₂) from hrest]
  exact (hx.append_right _).trans hsplit

/-- An owner that holds nothing may leave. -/
theorem Partition.erase [BEq β] [LawfulBEq β] (h : Partition free f l all) (hb : b ∈ l)
    (hf : f b = []) : Partition free f (l.erase b) all :=
  (Partition.cons_iff hf).mp (h.perm (List.perm_cons_erase hb))

theorem Partition.length (h : Partition free f l all) :
    free.length + (held f l).length = all.length := by
  rw [← List.length_append]
  exact h.length_eq

end Dynamips.Owners
