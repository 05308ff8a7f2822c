import Dynamips.RegistryRun

/-! What a failed operation leaves behind. `decrement` looks at the count after
it has changed it, so a release of an unreferenced object is not undone. -/
set_option autoImplicit false

namespace Dynamips.Registry

open Runs

def Failed : Reply → Prop
  | some (.error _) => True
  | some (.ok (.action .referenced)) => True
  | _ => False

/-- The object has no reference left. At `INT_MIN` the release is refused. -/
def Unreferenced (r : State) (n : NodeId) : Prop :=
  (r.nodes n).refCount ≤ 0 ∧ (r.nodes n).refCount ≠ INT_MIN

/-- An operation that gives back a reference of an object without one. -/
def OverRelease (c : Config) : Op → Prop
  | .release object => ∃ n, c.registry.entry object = .ok n ∧ Unreferenced c.registry n
  | .reset (some n) => c.registry.initialized = true ∧ (c.registry.nodes n).linked = true ∧
      Unreferenced c.registry n
  | _ => False

variable {r : State} {n : NodeId}

theorem setReferences_ne {x : Int} (h : x ≠ (r.nodes n).refCount) : r.setReferences n x ≠ r := by
  intro heq
  have hcount := congrArg (fun r => (r.nodes n).refCount) heq
  simp only [State.setReferences, State.setNode, Function.update_self] at hcount
  exact h hcount

theorem decrement_unreferenced (h : Unreferenced r n) :
    decrement r n =
      (r.setReferences n ((r.nodes n).refCount - 1), .error .negativeReferences) := by
  have hneg : (r.nodes n).refCount - 1 < 0 := by
    have hcount := h.1
    omega
  simp only [decrement, if_neg h.2, if_pos hneg]

theorem decrement_error {r' : State} {e : Error} (h : ¬ Unreferenced r n)
    (hdec : decrement r n = (r', .error e)) : r' = r := by
  unfold decrement at hdec
  simp only at hdec
  split at hdec
  · cases hdec
    rfl
  · rename_i hmin
    split at hdec
    · rename_i hneg
      exact absurd ⟨by omega, hmin⟩ h
    · cases hdec

theorem increment_error {r' : State} {e : Error} (hinc : increment r n = (r', .error e)) :
    r' = r := by
  unfold increment at hinc
  split at hinc
  · cases hinc
    rfl
  · cases hinc

theorem erase_error {r' : State} {e : Error} (herase : erase r n = (r', .error e)) : r' = r := by
  unfold erase at herase
  simp only at herase
  split at herase
  · cases herase
    rfl
  · split at herase
    · cases herase
      rfl
    · split at herase <;> cases herase

variable {c : Config}

theorem onEntry_failed {object : Key} {answer : NodeId → Answer}
    {operation : State → NodeId → State × Except Error Unit}
    (hanswer : ∀ n, ¬ Failed (some (.ok (answer n))))
    (herror : ∀ n r e, c.registry.entry object = .ok n →
      operation c.registry n = (r, .error e) → r = c.registry)
    (hfail : Failed (c.onEntry object answer operation).2) :
    (c.onEntry object answer operation).1 = c := by
  unfold Config.onEntry at hfail ⊢
  cases hentry : c.registry.entry object with
  | error e => rfl
  | ok n =>
    simp only [hentry] at hfail ⊢
    split at hfail
    · rename_i r e heq
      simp only [herror n r e hentry heq]
      rfl
    · exact absurd hfail (hanswer n)

theorem visit_not_failed (v : Visit) (r : State) (remaining : List NodeId) :
    ¬ Failed (c.visit v r remaining).2 := by
  unfold Config.visit
  split <;> exact fun hfail => hfail

theorem startVisit_failed {kind : VisitKind} {type : Int}
    (hfail : Failed (c.startVisit kind type).2) : (c.startVisit kind type).1 = c := by
  unfold Config.startVisit at hfail ⊢
  split at hfail
  · rfl
  · split at hfail
    · exact absurd hfail (visit_not_failed _ _ _)
    · rename_i hinit
      simp only [hinit]
      rfl

theorem reset_failed (n : NodeId) (h : ¬ OverRelease c (.reset (some n)))
    (hfail : Failed (c.call (.reset (some n))).2) : (c.call (.reset (some n))).1 = c := by
  simp only [Config.call] at hfail ⊢
  by_cases hinit : c.registry.initialized = true
  · rw [if_neg (not_not.mpr hinit)] at hfail ⊢
    by_cases hlinked : (c.registry.nodes n).linked = true
    · rw [if_pos hlinked] at hfail ⊢
      have hreferenced : ¬ Unreferenced c.registry n := fun hun => h ⟨hinit, hlinked, hun⟩
      split at hfail
      · rename_i r e heq
        simp only [decrement_error hreferenced heq]
        rfl
      · exact absurd hfail id
    · rw [if_neg hlinked]
  · rw [if_pos hinit]

theorem execute_failed {object : Key} {maximum : Int} {remove : Bool}
    (hfail : Failed (c.call (.execute object maximum remove)).2) :
    (c.call (.execute object maximum remove)).1 = c := by
  simp only [Config.call] at hfail ⊢
  cases hentry : c.registry.entry object with
  | error e => rfl
  | ok n =>
    simp only [hentry] at hfail ⊢
    cases hstart : startAction c.registry n maximum with
    | reply result => cases result <;> rfl
    | callback r =>
      simp only [hstart] at hfail
      exact absurd hfail id

theorem failed_unchanged (op : Op) (h : ¬ OverRelease c op) (hfail : Failed (c.call op).2) :
    (c.call op).1 = c := by
  cases op with
  | init => exact absurd hfail id
  | add object data memory =>
    simp only [Config.call] at hfail ⊢
    split at hfail
    · rename_i r e heq
      simp only [add_error heq]
      rfl
    · exact absurd hfail id
  | rename object newName =>
    simp only [Config.call] at hfail ⊢
    split at hfail
    · rename_i r e heq
      simp only [rename_error heq]
      rfl
    · exact absurd hfail id
  | acquire object => exact onEntry_failed (fun _ => id) (fun _ _ _ _ => increment_error) hfail
  | lookup object =>
    refine onEntry_failed (fun _ => id) (fun n r e _ heq => ?_) hfail
    cases heq
  | retain object => exact onEntry_failed (fun _ => id) (fun _ _ _ _ => increment_error) hfail
  | reset reference =>
    cases reference with
    | none => exact absurd hfail id
    | some n => exact reset_failed n h hfail
  | release object =>
    refine onEntry_failed (fun _ => id) (fun n r e hentry heq => ?_) hfail
    exact decrement_error (fun hun => h ⟨n, hentry, hun⟩) heq
  | erase object => exact onEntry_failed (fun _ => id) (fun _ _ _ _ => erase_error) hfail
  | execute object maximum remove => exact execute_failed hfail
  | forEach type => exact startVisit_failed hfail
  | eraseType type => exact startVisit_failed hfail

theorem overRelease_changes (op : Op) (h : OverRelease c op) :
    Failed (c.call op).2 ∧ (c.call op).1 ≠ c := by
  cases op with
  | release object =>
    obtain ⟨n, hentry, hun⟩ := h
    simp only [Config.call, Config.onEntry, hentry, decrement_unreferenced hun]
    refine ⟨trivial, fun heq => ?_⟩
    exact setReferences_ne (by omega) (congrArg Config.registry heq)
  | reset reference =>
    cases reference with
    | none => exact absurd h id
    | some n =>
      obtain ⟨hinit, hlinked, hun⟩ := h
      simp only [Config.call, hinit, hlinked, not_true_eq_false, if_false, if_true,
        decrement_unreferenced hun]
      refine ⟨trivial, fun heq => ?_⟩
      exact setReferences_ne (by omega) (congrArg Config.registry heq)
  | _ => exact absurd h id

theorem failed_action {result : ActionResult} (h : Failed (some (.ok (.action result)))) :
    result = .referenced := by
  cases result with
  | referenced => rfl
  | retained => exact absurd h id
  | removed => exact absurd h id
  | executed => exact absurd h id

theorem endAction_ran (remove accepted : Bool) :
    (endAction r n remove accepted).2 ≠ .referenced := by
  cases remove <;> cases accepted <;> exact ActionResult.noConfusion

theorem resume_not_failed {accepted : Bool} {c' : Config} {reply : Reply}
    (h : c.resume accepted = some (c', reply)) : ¬ Failed reply := by
  unfold Config.resume at h
  split at h
  · cases h
  · simp only [Option.some.injEq, Prod.mk.injEq] at h
    obtain ⟨-, rfl⟩ := h
    exact fun hfail => endAction_ran _ _ (failed_action hfail)
  · rename_i v stack _
    simp only [Option.some.injEq] at h
    have hreply : _ = reply := congrArg Prod.snd h
    rw [← hreply]
    exact visit_not_failed _ _ _

theorem failed_unchanged_iff (c : Config) (op : Op) :
    ((Failed (c.call op).2 → (c.call op).1 = c) ↔ ¬ OverRelease c op) ∧
      ∀ accepted c' reply, c.resume accepted = some (c', reply) → ¬ Failed reply := by
  refine ⟨⟨fun hunchanged hover => ?_, failed_unchanged op⟩, fun _ _ _ => resume_not_failed⟩
  obtain ⟨hfail, hchanged⟩ := overRelease_changes op hover
  exact hchanged (hunchanged hfail)

def released : List Op :=
  [.init, .add ⟨some "nio1", 1⟩ 0 .available, .release ⟨some "nio1", 1⟩]

/-- A second release fails and leaves a count of -1. -/
theorem not_failed_unchanged : ¬ ∀ trace c op, Run Step Config.initial trace c →
    Failed (c.call op).2 → (c.call op).1 = c := by
  intro h
  obtain ⟨trace, hrun⟩ := exists_run_calls .initial released
  have hover : OverRelease (afterCalls .initial released) (.release ⟨some "nio1", 1⟩) :=
    ⟨0, rfl, by decide, by decide⟩
  obtain ⟨hfail, hchanged⟩ := overRelease_changes _ hover
  exact hchanged (h trace _ _ hrun hfail)

end Dynamips.Registry
