import Dynamips.Registry
import Mathlib.Data.List.Nodup

/-! The name index, the type index and the newest-first list of one type of
objects, and what linking and removing an entry keep of them. -/
set_option autoImplicit false

namespace Dynamips.Registry

/-- An entry of type `t` that was added and not removed since. -/
def Live (nodes : NodeId → Node) (t : ObjectType) (n : NodeId) : Prop :=
  (nodes n).linked = true ∧ (nodes n).objectType = t

/-- What the bucket of type `t` says of the nodes. -/
structure BucketOk (b : Bucket) (nodes : NodeId → Node) (t : ObjectType) (clock : Nat)
    (stamp : NodeId → Nat) : Prop where
  listed : ∀ n, n ∈ b.newest ↔ Live nodes t n
  named : ∀ k n, b.names k = some n ↔ Live nodes t n ∧ (nodes n).indexed = k
  name_eq : ∀ n, Live nodes t n → (nodes n).name = (nodes n).indexed
  order : b.newest.Pairwise fun n m => stamp m < stamp n
  stamped : ∀ n, Live nodes t n → stamp n < clock

variable {b : Bucket} {nodes : NodeId → Node} {t : ObjectType} {clock : Nat}
  {stamp : NodeId → Nat} {n : NodeId} {value : Node}

theorem BucketOk.nodup (h : BucketOk b nodes t clock stamp) : b.newest.Nodup := by
  refine List.Pairwise.imp ?_ h.order
  intro n m hlt heq
  subst heq
  exact Nat.lt_irrefl _ hlt

theorem BucketOk.unique (h : BucketOk b nodes t clock stamp) {m : NodeId} (hn : Live nodes t n)
    (hm : Live nodes t m) (heq : (nodes n).indexed = (nodes m).indexed) : n = m := by
  have hfind := ((h.named _ n).mpr ⟨hn, heq⟩).symm.trans ((h.named _ m).mpr ⟨hm, rfl⟩)
  exact Option.some.inj hfind

theorem live_update_of_ne {m : NodeId} (hm : m ≠ n) :
    Live (Function.update nodes n value) t m ↔ Live nodes t m := by
  simp [Live, Function.update_of_ne hm]

theorem bucketOk_congr {nodes' : NodeId → Node} (h : BucketOk b nodes t clock stamp)
    (hlinked : ∀ n, (nodes' n).linked = (nodes n).linked)
    (htype : ∀ n, (nodes' n).objectType = (nodes n).objectType)
    (hindexed : ∀ n, (nodes' n).indexed = (nodes n).indexed)
    (hname : ∀ n, (nodes' n).name = (nodes n).name) : BucketOk b nodes' t clock stamp := by
  have hlive : ∀ n, Live nodes' t n ↔ Live nodes t n := by
    intro n
    simp only [Live, hlinked, htype]
  constructor
  · intro n
    rw [hlive]
    exact h.listed n
  · intro k n
    rw [hlive, hindexed]
    exact h.named k n
  · intro n hn
    rw [hname, hindexed]
    exact h.name_eq n ((hlive n).mp hn)
  · exact h.order
  · intro n hn
    exact h.stamped n ((hlive n).mp hn)

theorem bucketOk_other {stamp' : NodeId → Nat} {clock' : Nat}
    (h : BucketOk b nodes t clock stamp) (hn : ¬ Live nodes t n)
    (hvalue : ¬ Live (Function.update nodes n value) t n)
    (hstamp : ∀ m, m ≠ n → stamp' m = stamp m) (hclock : clock ≤ clock') :
    BucketOk b (Function.update nodes n value) t clock' stamp' := by
  have hne : ∀ m, Live nodes t m → m ≠ n := fun m hm heq => hn (heq ▸ hm)
  have hne' : ∀ m, Live (Function.update nodes n value) t m → m ≠ n :=
    fun m hm heq => hvalue (heq ▸ hm)
  have hlive : ∀ m, Live (Function.update nodes n value) t m ↔ Live nodes t m := by
    intro m
    constructor
    · intro hm
      exact (live_update_of_ne (hne' m hm)).mp hm
    · intro hm
      exact (live_update_of_ne (hne m hm)).mpr hm
  constructor
  · intro m
    rw [hlive]
    exact h.listed m
  · intro k m
    rw [hlive, h.named]
    constructor
    · intro hm
      rw [Function.update_of_ne (hne m hm.1)]
      exact hm
    · intro hm
      rw [Function.update_of_ne (hne m hm.1)] at hm
      exact hm
  · intro m hm
    rw [Function.update_of_ne (hne' m hm)]
    exact h.name_eq m ((hlive m).mp hm)
  · refine h.order.imp_of_mem fun {a c} ha hc hlt => ?_
    rw [hstamp a (hne a ((h.listed a).mp ha)), hstamp c (hne c ((h.listed c).mp hc))]
    exact hlt
  · intro m hm
    rw [hstamp m (hne' m hm)]
    exact Nat.lt_of_lt_of_le (h.stamped m ((hlive m).mp hm)) hclock

theorem bucketOk_emplace (h : BucketOk b nodes t clock stamp) (hn : ¬ Live nodes t n)
    (hfree : b.names value.indexed = none) (hlinked : value.linked = true)
    (htype : value.objectType = t) (hname : value.name = value.indexed) :
    BucketOk { b.emplace value.indexed n with newest := n :: b.newest }
      (Function.update nodes n value) t (clock + 1) (Function.update stamp n clock) := by
  have hne : ∀ m, m ∈ b.newest → m ≠ n := fun m hm heq => hn (heq ▸ (h.listed m).mp hm)
  have hself : Live (Function.update nodes n value) t n := by
    simp [Live, hlinked, htype]
  constructor
  · intro m
    by_cases hm : m = n
    · subst hm
      exact ⟨fun _ => hself, fun _ => List.mem_cons_self⟩
    · rw [live_update_of_ne hm, ← h.listed]
      exact ⟨fun hmem => (List.mem_cons.mp hmem).resolve_left hm, List.mem_cons_of_mem n⟩
  · intro k m
    by_cases hk : k = value.indexed
    · subst hk
      by_cases hm : m = n
      · subst hm
        simp [Bucket.emplace, hself]
      · have hnone : ¬ (Live nodes t m ∧ (nodes m).indexed = value.indexed) := by
          rw [← h.named, hfree]
          exact Option.some_ne_none m ∘ Eq.symm
        rw [live_update_of_ne hm, Function.update_of_ne hm]
        simp [Bucket.emplace, Ne.symm hm, hnone]
    · by_cases hm : m = n
      · subst hm
        have hnone : b.names k ≠ some m := fun hs => hn ((h.named k m).mp hs).1
        simp [Bucket.emplace, Function.update_of_ne hk, hnone, Ne.symm hk]
      · rw [live_update_of_ne hm, Function.update_of_ne hm, ← h.named]
        simp [Bucket.emplace, Function.update_of_ne hk]
  · intro m hm
    by_cases hmn : m = n
    · subst hmn
      rw [Function.update_self]
      exact hname
    · rw [Function.update_of_ne hmn]
      exact h.name_eq m ((live_update_of_ne hmn).mp hm)
  · refine List.pairwise_cons.mpr ⟨fun m hm => ?_, h.order.imp_of_mem fun {a c} ha hc hlt => ?_⟩
    · rw [Function.update_self, Function.update_of_ne (hne m hm)]
      exact h.stamped m ((h.listed m).mp hm)
    · rw [Function.update_of_ne (hne a ha), Function.update_of_ne (hne c hc)]
      exact hlt
  · intro m hm
    by_cases hmn : m = n
    · subst hmn
      rw [Function.update_self]
      exact Nat.lt_succ_self clock
    · rw [Function.update_of_ne hmn]
      exact Nat.lt_succ_of_lt (h.stamped m ((live_update_of_ne hmn).mp hm))

theorem bucketOk_erase (h : BucketOk b nodes t clock stamp) (hn : Live nodes t n)
    (hlinked : value.linked = false) :
    BucketOk { b.erase (nodes n).indexed with newest := b.newest.erase n }
      (Function.update nodes n value) t clock stamp := by
  have hself : ¬ Live (Function.update nodes n value) t n := by
    simp [Live, hlinked]
  have hne : ∀ m, Live (Function.update nodes n value) t m → m ≠ n :=
    fun m hm heq => hself (heq ▸ hm)
  constructor
  · intro m
    by_cases hm : m = n
    · subst hm
      exact ⟨fun hmem => absurd rfl (h.nodup.mem_erase_iff.mp hmem).1, fun hlive => absurd hlive hself⟩
    · rw [live_update_of_ne hm, ← h.listed, h.nodup.mem_erase_iff]
      exact ⟨fun hmem => hmem.2, fun hmem => ⟨hm, hmem⟩⟩
  · intro k m
    by_cases hm : m = n
    · subst hm
      by_cases hk : k = (nodes m).indexed
      · subst hk
        simp [Bucket.erase, hself]
      · have hnone : b.names k ≠ some m := fun hs => hk ((h.named k m).mp hs).2.symm
        simp [Bucket.erase, Function.update_of_ne hk, hnone, hself]
    · rw [live_update_of_ne hm, Function.update_of_ne hm, ← h.named]
      by_cases hk : k = (nodes n).indexed
      · subst hk
        have hfind : b.names (nodes n).indexed = some n := (h.named _ n).mpr ⟨hn, rfl⟩
        simp [Bucket.erase, hfind, Ne.symm hm]
      · simp [Bucket.erase, Function.update_of_ne hk]
  · intro m hm
    rw [Function.update_of_ne (hne m hm)]
    exact h.name_eq m ((live_update_of_ne (hne m hm)).mp hm)
  · exact h.order.sublist List.erase_sublist
  · intro m hm
    exact h.stamped m ((live_update_of_ne (hne m hm)).mp hm)

theorem bucketOk_rename (h : BucketOk b nodes t clock stamp) (hn : Live nodes t n)
    (hfree : b.names value.indexed = none) (hlinked : value.linked = true)
    (htype : value.objectType = t) (hname : value.name = value.indexed) :
    BucketOk { (b.erase (nodes n).indexed).emplace value.indexed n with
        newest := n :: b.newest.erase n }
      (Function.update nodes n value) t (clock + 1) (Function.update stamp n clock) := by
  have herase := @bucketOk_erase _ _ _ _ _ _ { nodes n with linked := false } h hn rfl
  have hout : ¬ Live (Function.update nodes n { nodes n with linked := false }) t n := by
    simp [Live]
  have hold : value.indexed ≠ (nodes n).indexed := by
    intro heq
    rw [heq, (h.named _ n).mpr ⟨hn, rfl⟩] at hfree
    cases hfree
  have hfree' : (b.erase (nodes n).indexed).names value.indexed = none := by
    simpa [Bucket.erase, Function.update_of_ne hold] using hfree
  have hfront := bucketOk_emplace herase hout hfree' hlinked htype hname
  rw [Function.update_idem] at hfront
  exact hfront

end Dynamips.Registry
