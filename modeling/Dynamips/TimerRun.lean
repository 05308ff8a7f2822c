import Dynamips.TimerTable

/-! Runs of the timer scheduler: a wait starts a callback once, and none does for a
timer whose removal has returned. -/
set_option autoImplicit false

namespace Dynamips.Timer
open Runs Tickets

def used (log : List Obs) : List Ticket :=
  log.filterMap fun
    | .started _ wait => some wait
    | _ => none

def removed (log : List Obs) : List TimerId :=
  log.filterMap fun
    | .returned (.remove id) (.ok _) => some id
    | _ => none

/-- No callback starts after the removal of its timer; the last entry is first. -/
def Quiet (log : List Obs) : Prop :=
  log.Pairwise fun later earlier => ∀ id reply, earlier = .returned (.remove id) (.ok reply) →
    ∀ wait, later ≠ .started id wait

/-- The waits of an entry that would start its callback: those that are still pending,
and those that have expired, under its present generation -/
def Timers.armed (t : Timers) (r : Ref) : List Ticket :=
  (t.pending ++ (t.completed.filter fun c => c.2 ≠ .aborted).map Prod.fst).filter fun w =>
    w = (r, (t.obj r).generation)

variable {t : Timers} {done : List Ticket} {gone : List TimerId} {env : Env}
  {s s' : Scheduler}

theorem removed_returned (op : Op) (reply : Reply) (log : List Obs) :
    removed (.returned op reply :: log) = match op, reply with
      | .remove id, .ok _ => id :: removed log
      | _, _ => removed log := by
  cases op with
  | add interval offset boundary level callback userArg => rfl
  | remove id => cases reply <;> rfl
  | setInterval id interval => rfl

theorem Timers.Ok.perform {log : List Obs} (op : Op) (h : t.Ok done (removed log)) :
    (perform t env op).1.Ok done (removed (.returned op (perform t env op).2 :: log)) := by
  rw [removed_returned]
  cases op with
  | add interval offset boundary level callback userArg => exact h.add
  | remove id =>
    obtain ⟨e, hreply, hok⟩ | ⟨hreply, hok⟩ := @Timers.Ok.remove t _ id env _ h
    · simp only [Timer.perform, hreply]
      exact hok
    · simp only [Timer.perform, hreply]
      exact hok
  | setInterval id interval => exact h.setInterval

structure Inv (s : Scheduler) : Prop where
  ok : s.timers.Ok (used s.log) (removed s.log)
  frame : ∀ w, s.frame = some w → w ∈ used s.log
  quiet : Quiet s.log

theorem mem_removed {log : List Obs} {id : TimerId} {reply : Option TimerId}
    (h : .returned (.remove id) (.ok reply) ∈ log) : id ∈ removed log :=
  List.mem_filterMap.mpr ⟨_, h, rfl⟩

theorem Quiet.returned {log : List Obs} (h : Quiet log) (op : Op) (reply : Reply) :
    Quiet (.returned op reply :: log) := by
  refine List.pairwise_cons.mpr ⟨?_, h⟩
  intro earlier _ id reply' _ wait hstart
  cases hstart

theorem Inv.replyError {e : Error} (h : Inv s) (op : Op) : Inv (s.reply op (.error e)) := by
  refine ⟨?_, h.frame, h.quiet.returned op _⟩
  have hremoved : removed (.returned op (.error e) :: s.log) = removed s.log := by
    rw [removed_returned]
    cases op <;> rfl
  exact hremoved ▸ h.ok

theorem Inv.perform (h : Inv s) (op : Op) (env : Env) :
    Inv ({ s with timers := (perform s.timers env op).1 }.reply op (perform s.timers env op).2) :=
  ⟨h.ok.perform op, h.frame, h.quiet.returned op _⟩

theorem Inv.start (h : Inv s) (fault : Option StartFault) : Inv (start s fault) := by
  by_cases hskip : s.started ∨ s.joinable ∨ s.generation = UINT64_MAX
  · simp only [Timer.start, if_pos hskip]
    exact h
  · simp only [Timer.start, if_neg hskip]
    split
    · exact h
    · exact ⟨h.ok, h.frame, h.quiet⟩
    · exact ⟨h.ok, h.frame, h.quiet⟩

theorem Inv.call (h : Inv s) (op : Op) (post : Option Thrown) : Inv (call s op post) := by
  by_cases hrefused : refused op
  · simp only [Timer.call, if_pos hrefused]
    exact h.replyError op
  by_cases hstopped : ¬ s.started ∨ s.stopped
  · simp only [Timer.call, if_neg hrefused, if_pos hstopped]
    exact h.replyError op
  simp only [Timer.call, if_neg hrefused, if_neg hstopped]
  cases post with
  | some thrown => exact h.replyError op
  | none => exact ⟨h.ok, h.frame, h.quiet⟩

theorem Inv.callInside (h : Inv s) (op : Op) (env : Env) : Inv (callInside s op env) := by
  rw [Timer.callInside]
  split
  · exact h.replyError op
  split
  · exact h.replyError op
  exact h.perform op env

theorem Inv.runTask (h : Inv s) (cycle : Nat) (op : Op) (env : Env) :
    Inv (runTask s cycle op env) := by
  rw [Timer.runTask]
  split
  · exact h.replyError op
  exact h.perform op env

theorem Inv.onWait {c : Ticket × Completion} {i : Nat} (h : Inv s)
    (hi : s.timers.completed[i]? = some c) :
    Inv (onWait { s with timers := { s.timers with completed := s.timers.completed.eraseIdx i } }
      c.1 c.2) := by
  have htake := h.ok.handler hi
  have hmem : c.1 ∈ used s.log ++ s.timers.waits := by
    obtain ⟨hlt, rfl⟩ := List.getElem?_eq_some_iff.mp hi
    exact List.mem_append_right _ (List.mem_append_right _
      (List.mem_map_of_mem (List.getElem_mem hlt)))
  rw [Timer.onWait]
  split
  · exact ⟨htake.forget, h.frame, h.quiet⟩
  split
  · have hretire := htake.retire (List.mem_append_left _ List.mem_cons_self)
    exact ⟨hretire.forget, h.frame, h.quiet⟩
  rename_i hlive _
  refine ⟨?_, ?_, List.pairwise_cons.mpr ⟨?_, h.quiet⟩⟩
  · exact htake.setObj rfl (Nat.le_refl _) fun hc => hc
  · intro w hw
    cases hw
    exact List.mem_cons_self
  · intro earlier hearlier id reply hremoved wait hstart
    subst hremoved
    cases hstart
    have hin := (h.ok.sound.live c.1 hmem).resolve_left fun hc => hlive (.inr (.inl hc))
    exact (h.ok.sound.gone _ (mem_removed hearlier)).1 _ hin

theorem Inv.finishStop (h : Inv s) (throws : Option Nat) : Inv (finishStop s throws) := by
  have hall := h.ok.cancelAll throws (s.timers.entries.map Prod.snd)
  rw [Timer.finishStop]
  split
  · exact ⟨hall, h.frame, h.quiet⟩
  · rename_i hthrows
    refine ⟨hall.clear fun p hp => ?_, h.frame, h.quiet⟩
    rw [cancelAll_entries] at hp
    exact cancelAll_cancelled (by simpa using hthrows) (List.mem_map_of_mem hp)

theorem inv_step {e : Event} (h : Inv s) (hs : Step s e s') : Inv s' := by
  cases e with
  | start fault =>
    cases hs
    exact h.start fault
  | call op post =>
    cases hs
    exact h.call op post
  | task i env =>
    simp only [Step, step] at hs
    split at hs
    · obtain ⟨task, -, rfl⟩ := Option.map_eq_some_iff.mp hs
      have hrest : Inv { s with tasks := s.tasks.eraseIdx i } := ⟨h.ok, h.frame, h.quiet⟩
      exact hrest.runTask task.1 task.2 env
    · cases hs
  | complete i failed =>
    obtain ⟨w, hw, rfl⟩ := Option.map_eq_some_iff.mp hs
    exact ⟨h.ok.complete hw, h.frame, h.quiet⟩
  | handler i =>
    simp only [Step, step] at hs
    split at hs
    · obtain ⟨c, hc, rfl⟩ := Option.map_eq_some_iff.mp hs
      exact h.onWait hc
    · cases hs
  | callInside op env =>
    obtain ⟨w, -, rfl⟩ := Option.map_eq_some_iff.mp hs
    exact h.callInside op env
  | returns again env =>
    obtain ⟨w, hw, rfl⟩ := Option.map_eq_some_iff.mp hs
    exact ⟨h.ok.afterCallback (h.frame w hw), fun _ hw' => (by cases hw'), h.quiet⟩
  | throws =>
    obtain ⟨w, hw, rfl⟩ := Option.map_eq_some_iff.mp hs
    exact ⟨h.ok.retire (List.mem_append_left _ (h.frame w hw)), fun _ hw' => (by cases hw'),
      h.quiet⟩
  | stopContext =>
    simp only [Step, step] at hs
    split at hs
    · cases hs
      exact ⟨h.ok, h.frame, h.quiet⟩
    · cases hs
  | finishStop throws =>
    simp only [Step, step] at hs
    split at hs
    · cases hs
      exact h.finishStop throws
    · cases hs

theorem inv_initial : Inv initial := by
  refine ⟨⟨⟨issued_nil _, ?_, ?_, ?_, ?_, ?_, by decide⟩, List.nodup_nil⟩, ?_, List.Pairwise.nil⟩
  · exact fun w hw => absurd hw List.not_mem_nil
  · exact fun w hw => absurd hw List.not_mem_nil
  · exact fun p hp => absurd hp List.not_mem_nil
  · exact fun p hp => absurd hp List.not_mem_nil
  · exact fun id hid => absurd hid List.not_mem_nil
  · intro w hw
    cases hw

theorem length_armed_le (h : t.Ok done gone) (r : Ref) : (t.armed r).length ≤ 1 := by
  have hexpired : (t.completed.filter fun c => c.2 ≠ .aborted).Sublist t.completed :=
    List.filter_sublist
  have hwaits : (t.pending ++ (t.completed.filter fun c => c.2 ≠ .aborted).map Prod.fst).Sublist
      (done ++ t.waits) :=
    ((hexpired.map Prod.fst).append_left t.pending).trans (List.sublist_append_right _ _)
  exact (h.sound.issued.sublist hwaits).length_latest_le r

theorem length_pending_le (h : t.Ok done gone) (r : Ref) :
    (t.pending.filter fun w => w.1 = r).length ≤ 1 := by
  refine length_filter_le h.one.of_map fun a ha b hb hra hrb => ?_
  exact List.inj_on_of_nodup_map h.one ha hb (by simp_all)

/-- In every run: no callback starts after its timer's removal has returned, each timer
of the table has at most one wait that the event loop holds and at most one that would
start its callback, and no wait starts a callback twice. -/
theorem timers_fire_once {trace : List (Scheduler × Event)} (hrun : Run Step initial trace s) :
    Always (fun s => Quiet s.log ∧ (used s.log).Nodup ∧ ∀ id r, (id, r) ∈ s.timers.entries →
      (s.timers.armed r).length ≤ 1 ∧ (s.timers.pending.filter fun w => w.1 = r).length ≤ 1)
      trace s := by
  have hinv := hrun.always (fun _ _ _ h hs => inv_step h hs) inv_initial
  have hall : ∀ s, Inv s → Quiet s.log ∧ (used s.log).Nodup ∧
      ∀ id r, (id, r) ∈ s.timers.entries → (s.timers.armed r).length ≤ 1 ∧
        (s.timers.pending.filter fun w => w.1 = r).length ≤ 1 := by
    intro s h
    refine ⟨h.quiet, h.ok.sound.issued.nodup.of_append_left, fun id r _ => ?_⟩
    exact ⟨length_armed_le h.ok r, length_pending_le h.ok r⟩
  exact ⟨hall s hinv.1, fun x hx => hall x.1 (hinv.2 x hx)⟩

/-- A timer of one second that fires once, is armed again from its callback, and is
removed when its second wait has expired -/
def staleWait : List Event :=
  let env : Env := ⟨⟨0, 0, none⟩, none, none, none, none⟩
  [.start none, .call (.add 1000 0 false 0 1 0) none, .task 0 env, .complete 0 false, .handler 0,
    .callInside (.setInterval 1 500) env, .returns 1 env, .complete 0 false,
    .call (.remove 1) none, .task 0 env, .handler 0]

theorem timers_fire_once_stale : ∃ trace s, Run Step initial trace s ∧ used s.log = [(0, 1)] ∧
    removed s.log = [1] ∧ s.timers.waits = [] ∧
    Always (fun s => Quiet s.log ∧ (used s.log).Nodup ∧ ∀ id r, (id, r) ∈ s.timers.entries →
      (s.timers.armed r).length ≤ 1 ∧ (s.timers.pending.filter fun w => w.1 = r).length ≤ 1)
      trace s := by
  have hex : execute step initial staleWait = some (_, _) := rfl
  have hrun := run_of_execute hex
  exact ⟨_, _, hrun, rfl, rfl, rfl, timers_fire_once hrun⟩

end Dynamips.Timer
