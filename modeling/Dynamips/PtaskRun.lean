import Dynamips.Ptask
import Mathlib.Data.List.Perm.Basic
set_option autoImplicit false

namespace Dynamips.Ptask
open Runs Scheduler

variable {s s' : Scheduler} {a : Action} {ev : List Event}

theorem count_pending (s : Scheduler) (c : Nat) :
    s.pending.count c = (s.queue.filterMap Handler.cycle).count c + s.waits.count c +
      s.worker.cycle.toList.count c := by
  simp [pending, Nat.add_assoc]

theorem count_filterMap_eraseIdx {queue : List Handler} {i : Nat} {handler : Handler}
    (h : queue[i]? = some handler) (c : Nat) :
    ((queue.eraseIdx i).filterMap Handler.cycle).count c + handler.cycle.toList.count c =
      (queue.filterMap Handler.cycle).count c := by
  obtain ⟨hi, rfl⟩ := List.getElem?_eq_some_iff.mp h
  have hperm := (List.getElem_cons_eraseIdx_perm hi).filterMap Handler.cycle
  have hcount := hperm.count_eq c
  cases hcycle : queue[i].cycle with
  | none => simpa [hcycle] using hcount
  | some d => simpa [hcycle, List.count_cons] using hcount

theorem count_eraseIdx {waits : List Nat} {i d : Nat} (h : waits[i]? = some d) (c : Nat) :
    (waits.eraseIdx i).count c + [d].count c = waits.count c := by
  obtain ⟨hi, rfl⟩ := List.getElem?_eq_some_iff.mp h
  have hcount := (List.getElem_cons_eraseIdx_perm hi).count_eq c
  simpa [List.count_cons] using hcount

theorem filterMap_aborted (waits : List Nat) :
    (waits.map fun _ => Handler.aborted).filterMap Handler.cycle = [] := by
  induction waits with
  | nil => rfl
  | cons wait waits ih => simp [Handler.cycle]

/-- A step makes no chain, except that a start makes one of a new generation. -/
def Chains (s s' : Scheduler) : Prop :=
  (s'.generation = s.generation ∧ ∀ c, s'.pending.count c ≤ s.pending.count c) ∨
    (s'.generation = s.generation + 1 ∧
      ∀ c, s'.pending.count c ≤ s.pending.count c + [s.generation + 1].count c)

theorem chains_of_le (hgen : s'.generation = s.generation)
    (h : ∀ c, s'.pending.count c ≤ s.pending.count c) : Chains s s' := .inl ⟨hgen, h⟩

theorem count_cancelTimer (s : Scheduler) (c : Nat) :
    s.cancelTimer.pending.count c ≤ s.pending.count c := by
  simp only [count_pending, cancelTimer, List.filterMap_append, filterMap_aborted, List.append_nil,
    List.count_nil]
  omega

theorem chains_start {interval : BitVec 32} {outcome : StartOutcome}
    (h : s.start interval outcome = some (s', ev)) : Chains s s' := by
  simp only [Scheduler.start] at h
  split at h
  · cases h
    exact chains_of_le rfl fun c => le_rfl
  · split at h
    · cases h
      exact chains_of_le rfl fun c => le_rfl
    · cases outcome with
      | postFails =>
        cases h
        exact .inr ⟨rfl, fun c => by simp [count_pending]⟩
      | threadFails =>
        cases h
        refine .inr ⟨rfl, fun c => ?_⟩
        simp [count_pending, Handler.cycle]
        omega
      | ok =>
        simp only [Option.ite_none_right_eq_some] at h
        obtain ⟨hworker, h⟩ := h
        cases h
        refine .inr ⟨rfl, fun c => ?_⟩
        simp [count_pending, Handler.cycle, Worker.cycle, hworker]
        omega

theorem chains_dequeue {i : Nat} (h : s.dequeue i = some s') : Chains s s' := by
  simp only [dequeue, Option.ite_none_right_eq_some] at h
  obtain ⟨⟨hidle, -⟩, h⟩ := h
  split at h
  · cases h
  · rename_i handler hget
    have hcount := count_filterMap_eraseIdx hget
    split at h
    all_goals
      cases h
      refine chains_of_le rfl fun c => ?_
      have hc := hcount c
      simp only [Handler.cycle, Option.toList_some, Option.toList_none, List.count_nil] at hc
      simp only [count_pending, Worker.cycle, hidle, Option.toList_some, Option.toList_none,
        List.count_nil]
      omega

theorem chains_sweepLock (h : s.sweepLock = some (s', ev)) : Chains s s' := by
  simp only [sweepLock] at h
  split at h
  · rename_i cycle hworker
    split at h
    all_goals
      cases h
      exact chains_of_le rfl fun c => by simp [count_pending, Worker.cycle, hworker]
  · cases h

theorem chains_sweepCall (h : s.sweepCall = some (s', ev)) : Chains s s' := by
  simp only [sweepCall] at h
  split at h
  · rename_i cycle position hworker
    simp only [Option.map_eq_some_iff] at h
    obtain ⟨task, -, h⟩ := h
    cases h
    exact chains_of_le rfl fun c => by simp [count_pending, Worker.cycle, hworker]
  · cases h

theorem chains_sweepArm {armed : Bool} (h : s.sweepArm armed = some (s', ev)) : Chains s s' := by
  simp only [sweepArm] at h
  split at h
  · rename_i cycle position hworker
    simp only [Option.ite_none_right_eq_some] at h
    obtain ⟨-, h⟩ := h
    split at h
    all_goals
      cases h
      refine chains_of_le rfl fun c => ?_
      simp only [count_pending, cancelTimer, List.filterMap_append, filterMap_aborted,
        List.append_nil, Worker.cycle, hworker, Option.toList_some, Option.toList_none,
        List.count_nil]
      omega
  · cases h

theorem chains_workerExit (h : s.workerExit = some s') : Chains s s' := by
  simp only [workerExit, Option.ite_none_right_eq_some, Option.some.injEq] at h
  obtain ⟨⟨hidle, -⟩, rfl⟩ := h
  exact chains_of_le rfl fun c => by simp [count_pending, Worker.cycle, hidle]

theorem chains_waitDone {i : Nat} {expired : Bool} (h : s.waitDone i expired = some s') :
    Chains s s' := by
  simp only [waitDone, Option.map_eq_some_iff] at h
  obtain ⟨cycle, hget, rfl⟩ := h
  refine chains_of_le rfl fun c => ?_
  have hc := count_eraseIdx hget c
  have hone : ([if expired then Handler.expired cycle else Handler.failed].filterMap
      Handler.cycle).count c ≤ [cycle].count c := by
    cases expired with
    | false => simp [show [Handler.failed].filterMap Handler.cycle = [] from rfl]
    | true => exact le_rfl
  simp only [count_pending, List.filterMap_append, List.count_append]
  omega

theorem chains_stopNext {tid : Nat} (h : s.stopNext tid = some (s', ev)) : Chains s s' := by
  simp only [stopNext] at h
  split at h
  · cases h
  · cases h
    exact chains_of_le rfl fun c => le_rfl
  · cases h
    exact chains_of_le rfl fun c => le_rfl
  · split at h
    · cases h
      exact chains_of_le rfl fun c => le_rfl
    · rename_i hworker
      cases h
      exact chains_of_le rfl fun c => by simp [count_pending, Worker.cycle, setPhase]
    · cases h
  · cases h
    exact chains_of_le rfl fun c => count_cancelTimer s c
  · simp only [Option.ite_none_right_eq_some] at h
    obtain ⟨-, h⟩ := h
    cases h
    exact chains_of_le rfl fun c => le_rfl

theorem of_silent {o : Option Scheduler} (h : silent o = some (s', ev)) : o = some s' ∧ ev = [] := by
  rw [silent, Option.map_eq_some_iff] at h
  obtain ⟨t, ht, heq⟩ := h
  cases heq
  exact ⟨ht, rfl⟩

theorem chains_step (h : step s a = some (s', ev)) : Chains s s' := by
  cases a with
  | ptaskAdd callback object arg =>
    simp only [step, Option.ite_none_right_eq_some, Option.some.injEq, add] at h
    obtain ⟨-, h⟩ := h
    split at h
    all_goals
      cases h
      exact chains_of_le rfl fun c => le_rfl
  | ptaskRemove id =>
    simp only [step, Option.ite_none_right_eq_some, Option.some.injEq, remove] at h
    obtain ⟨-, h⟩ := h
    split at h
    all_goals
      cases h
      exact chains_of_le rfl fun c => le_rfl
  | ptaskInit interval outcome =>
    simp only [step, Option.ite_none_right_eq_some] at h
    exact chains_start h.2
  | ptaskShutdown tid =>
    simp only [step, Option.ite_none_right_eq_some, stop] at h
    obtain ⟨-, h⟩ := h
    split at h
    · cases h
    · split at h
      all_goals
        cases h
        exact chains_of_le rfl fun c => le_rfl
  | shutdownNext tid => exact chains_stopNext h
  | dequeue i => exact chains_dequeue (of_silent h).1
  | sweepLock => exact chains_sweepLock h
  | sweepCall => exact chains_sweepCall h
  | sweepArm armed => exact chains_sweepArm h
  | workerExit => exact chains_workerExit (of_silent h).1
  | waitDone i expired => exact chains_waitDone (of_silent h).1

/-- Nothing carries a cycle to come, and at most one chain the present one. -/
structure OneChain (s : Scheduler) : Prop where
  none_above : ∀ c, s.generation < c → s.pending.count c = 0
  one : s.pending.count s.generation ≤ 1

theorem oneChain_init : OneChain Scheduler.init := by
  constructor <;> simp [Scheduler.init, pending, Worker.cycle]

theorem OneChain.step (h : OneChain s) (hs : step s a = some (s', ev)) : OneChain s' := by
  rcases chains_step hs with ⟨hgen, hcount⟩ | ⟨hgen, hcount⟩
  · constructor
    · intro c hc
      have hle := hcount c
      have hzero := h.none_above c (by omega)
      omega
    · rw [hgen]
      exact (hcount _).trans h.one
  · constructor
    · intro c hc
      have hle := hcount c
      have hzero := h.none_above c (by omega)
      have hne : [s.generation + 1].count c = 0 := by
        rw [List.count_singleton]
        grind
      omega
    · rw [hgen]
      have hle := hcount (s.generation + 1)
      have hzero := h.none_above (s.generation + 1) (by omega)
      simp only [List.count_singleton_self] at hle
      omega

theorem OneChain.length_live (h : OneChain s) : s.live.length ≤ 1 := by
  have hlive : s.live.length ≤ s.pending.count s.generation := by
    rw [live, List.count_eq_length_filter]
    apply List.Sublist.length_le
    apply List.monotone_filter_right
    intro c hc
    simp only [Bool.decide_and, Bool.and_eq_true, decide_eq_true_eq] at hc
    simpa using hc.2
  exact hlive.trans h.one

def Scheduler.sweepLeft (s : Scheduler) : Option (List Task) :=
  match s.worker with
  | .sweeping _ position => some (s.tasks.drop position)
  | _ => none

theorem sweepLeft_of_mutexFree (h : s.mutexFree) : s.sweepLeft = none := by
  rw [mutexFree] at h
  rw [Scheduler.sweepLeft]
  split
  · rename_i heq
    rw [heq] at h
    cases h
  · rfl

def Scheduler.PastJoin (s : Scheduler) (tid : Nat) : Prop :=
  s.phase tid = .joined ∨ s.phase tid = .timerCancelled

/-- No call of `ptask_init` starts the scheduler while a shutdown is past its
join. -/
def StartOk (s : Scheduler) : Action → Prop
  | .ptaskInit _ _ => s.started = false → ∀ tid, ¬ s.PastJoin tid
  | _ => True

/-- How a state stands to the abstract scheduler. There is no worker where it
was not started, nor once a shutdown has joined it. -/
structure Sim (s : Scheduler) (sp : Spec) : Prop where
  registered_eq : sp.registered = s.tasks
  lastId_eq : sp.lastId = s.nextId
  sweep_eq : sp.sweep = s.sweepLeft
  inactive : sp.active = false → s.worker = .none
  unstarted : s.started = false → s.worker = .none
  past_join : ∀ tid, s.PastJoin tid → s.worker = .none
  ids_nodup : (s.tasks.map Task.id).Nodup
  ids_le : ∀ task ∈ s.tasks, task.id ≤ s.nextId

theorem sim_init : Sim Scheduler.init Spec.init := by
  constructor <;> simp [Scheduler.init, Spec.init, Scheduler.sweepLeft, Scheduler.PastJoin]

namespace Sim

variable {sp : Spec}

theorem keep {active : Bool} {sweep : Option (List Task)} (h : Sim s sp)
    (htasks : s'.tasks = s.tasks) (hid : s'.nextId = s.nextId) (hsweep : sweep = s'.sweepLeft)
    (hactive : active = false → s'.worker = .none)
    (hstarted : s'.started = false → s'.worker = .none)
    (hpast : ∀ tid, s'.PastJoin tid → s'.worker = .none) :
    Sim s' { sp with
      active := active
      sweep := sweep } where
  registered_eq := h.registered_eq.trans htasks.symm
  lastId_eq := h.lastId_eq.trans hid.symm
  sweep_eq := hsweep
  inactive := hactive
  unstarted := hstarted
  past_join := hpast
  ids_nodup := by rw [htasks]; exact h.ids_nodup
  ids_le := by rw [htasks, hid]; exact h.ids_le

theorem unseen (h : Sim s sp) (htasks : s'.tasks = s.tasks) (hid : s'.nextId = s.nextId)
    (hsweep : s'.sweepLeft = s.sweepLeft) (hworker : s.worker = .none → s'.worker = .none)
    (hstarted : s'.started = s.started)
    (hpast : ∀ tid, s'.PastJoin tid → s.PastJoin tid ∨ s'.worker = .none) : Sim s' sp :=
  h.keep htasks hid (h.sweep_eq.trans hsweep.symm) (fun hactive => hworker (h.inactive hactive))
    (fun hs => hworker (h.unstarted (hstarted ▸ hs)))
    (fun tid ht => (hpast tid ht).elim (fun ht => hworker (h.past_join tid ht)) id)

theorem worker_step (h : Sim s sp) (htasks : s'.tasks = s.tasks) (hid : s'.nextId = s.nextId)
    (hsweep : s'.sweepLeft = s.sweepLeft) (hworker : s.worker = .none → s'.worker = .none)
    (hstarted : s'.started = s.started) (hphase : s'.phase = s.phase) : Sim s' sp :=
  h.unseen htasks hid hsweep hworker hstarted fun tid ht =>
    .inl (by simpa [Scheduler.PastJoin, hphase] using ht)

theorem add (h : Sim s sp) (hfree : s.mutexFree) {callback object arg : Pointer}
    (hs : s.add callback object arg = (s', ev)) :
    ∃ sp', ev.foldlM Spec.next sp = some sp' ∧ Sim s' sp' := by
  simp only [Scheduler.add] at hs
  split at hs
  · cases hs
    exact ⟨sp, rfl, h⟩
  · cases hs
    have hnone := h.sweep_eq.trans (sweepLeft_of_mutexFree hfree)
    refine ⟨{ sp with
      registered := ⟨s.nextId + 1, callback, object, arg⟩ :: sp.registered
      lastId := s.nextId + 1 }, ?_, ?_⟩
    · simp [Spec.next, hnone, h.lastId_eq]
    · exact {
        registered_eq := by simp [h.registered_eq]
        lastId_eq := rfl
        sweep_eq := hnone.trans (sweepLeft_of_mutexFree (by exact hfree)).symm
        inactive := h.inactive
        unstarted := h.unstarted
        past_join := h.past_join
        ids_nodup := by
          simp only [List.map_cons, List.nodup_cons, List.mem_map, not_exists, not_and]
          refine ⟨fun task hmem heq => ?_, h.ids_nodup⟩
          have hle := h.ids_le task hmem
          omega
        ids_le := by
          intro task hmem
          rcases List.mem_cons.mp hmem with rfl | hmem
          · exact le_rfl
          · have hle := h.ids_le task hmem
            simp only
            omega }

theorem eraseP_eq_filter {tasks : List Task} {id : Int} (h : (tasks.map Task.id).Nodup) :
    tasks.eraseP (·.id = id) = tasks.filter (·.id ≠ id) := by
  induction tasks with
  | nil => rfl
  | cons task tasks ih =>
    simp only [List.map_cons, List.nodup_cons, List.mem_map, not_exists, not_and] at h
    by_cases heq : task.id = id
    · subst heq
      have hkeep : tasks.filter (·.id ≠ task.id) = tasks :=
        List.filter_eq_self.mpr fun t ht => by simpa using h.1 t ht
      rw [List.eraseP_cons_of_pos (by simp), List.filter_cons_of_neg (by simp), hkeep]
    · simpa [heq] using ih h.2

theorem remove (h : Sim s sp) (hfree : s.mutexFree) {id : Int} (hs : s.remove id = (s', ev)) :
    ∃ sp', ev.foldlM Spec.next sp = some sp' ∧ Sim s' sp' := by
  simp only [Scheduler.remove] at hs
  split at hs
  · rename_i hany
    cases hs
    have hnone := h.sweep_eq.trans (sweepLeft_of_mutexFree hfree)
    have herase := @eraseP_eq_filter s.tasks id h.ids_nodup
    refine ⟨{ sp with registered := sp.registered.filter (·.id ≠ id) }, ?_, ?_⟩
    · have hex : ∃ task ∈ sp.registered, task.id = id := by
        simpa [h.registered_eq] using hany
      simp only [List.foldlM_cons, List.foldlM_nil, Spec.next, if_pos (And.intro hnone hex)]
      rfl
    · exact {
        registered_eq := by rw [herase, ← h.registered_eq]
        lastId_eq := h.lastId_eq
        sweep_eq := hnone.trans (sweepLeft_of_mutexFree (by exact hfree)).symm
        inactive := h.inactive
        unstarted := h.unstarted
        past_join := h.past_join
        ids_nodup := h.ids_nodup.sublist (List.eraseP_sublist.map _)
        ids_le := fun task hmem => h.ids_le task (List.mem_of_mem_eraseP hmem) }
  · cases hs
    exact ⟨sp, rfl, h⟩

theorem start (h : Sim s sp) (hfree : s.mutexFree) {interval : BitVec 32} {outcome : StartOutcome}
    (hok : s.started = false → ∀ tid, ¬ s.PastJoin tid)
    (hs : s.start interval outcome = some (s', ev)) :
    ∃ sp', ev.foldlM Spec.next sp = some sp' ∧ Sim s' sp' := by
  simp only [Scheduler.start] at hs
  split at hs
  · cases hs
    exact ⟨sp, rfl, h⟩
  · split at hs
    · cases hs
      exact ⟨sp, rfl, h⟩
    · rename_i hstarted _
      have hnone := h.sweep_eq.trans (sweepLeft_of_mutexFree hfree)
      cases outcome with
      | postFails =>
        cases hs
        exact ⟨sp, rfl, h.worker_step rfl rfl rfl id rfl rfl⟩
      | threadFails =>
        cases hs
        exact ⟨sp, rfl, h.worker_step rfl rfl rfl id rfl rfl⟩
      | ok =>
        simp only [Option.ite_none_right_eq_some] at hs
        obtain ⟨-, hs⟩ := hs
        cases hs
        refine ⟨{ sp with
          active := true
          sweep := none }, ?_, ?_⟩
        · simp [Spec.next, hnone]
        · refine h.keep rfl rfl rfl (by simp) (by simp) fun tid ht => ?_
          exact absurd ht (hok (by simpa using hstarted) tid)

theorem stop (h : Sim s sp) (hfree : s.mutexFree) {tid : Nat}
    (hs : s.stop tid = some (s', ev)) :
    ∃ sp', ev.foldlM Spec.next sp = some sp' ∧ Sim s' sp' := by
  have hnone := h.sweep_eq.trans (sweepLeft_of_mutexFree hfree)
  simp only [Scheduler.stop] at hs
  split at hs
  · cases hs
  · split at hs
    · rename_i hstarted
      cases hs
      have hworker := h.unstarted hstarted
      refine ⟨{ sp with
        active := false
        sweep := none }, by simp [Spec.next, hnone], ?_⟩
      exact h.keep rfl rfl (sweepLeft_of_mutexFree hfree).symm (fun _ => hworker)
        (fun _ => hworker) (fun _ _ => hworker)
    · cases hs
      refine ⟨sp, rfl, h.unseen rfl rfl rfl id rfl fun t ht => ?_⟩
      simp only [Scheduler.PastJoin, setPhase, Function.update_apply] at ht ⊢
      split at ht
      · simp at ht
      · exact .inl ht

theorem pastJoin_setPhase {phase : StopPhase} {tid t : Nat}
    (ht : (s.setPhase tid phase).PastJoin t) :
    s.PastJoin t ∨ phase = .joined ∨ phase = .timerCancelled := by
  simp only [Scheduler.PastJoin, setPhase, Function.update_apply] at ht ⊢
  split at ht
  · exact .inr ht
  · exact .inl ht

theorem returned (h : Sim s sp) (hworker : s.worker = .none) (htasks : s'.tasks = s.tasks)
    (hid : s'.nextId = s.nextId) (hworker' : s'.worker = .none) :
    ∃ sp', [Event.shutdownReturned].foldlM Spec.next sp = some sp' ∧ Sim s' sp' := by
  have hnone : sp.sweep = none := by rw [h.sweep_eq, Scheduler.sweepLeft, hworker]
  refine ⟨{ sp with
    active := false
    sweep := none }, by simp [Spec.next, hnone], ?_⟩
  exact h.keep htasks hid (by rw [Scheduler.sweepLeft, hworker']) (fun _ => hworker')
    (fun _ => hworker') (fun _ _ => hworker')

theorem stopNext (h : Sim s sp) {tid : Nat} (hs : s.stopNext tid = some (s', ev)) :
    ∃ sp', ev.foldlM Spec.next sp = some sp' ∧ Sim s' sp' := by
  simp only [Scheduler.stopNext] at hs
  split at hs
  · cases hs
  · cases hs
    refine ⟨sp, rfl, h.unseen rfl rfl rfl id rfl fun t ht => ?_⟩
    exact .inl ((pastJoin_setPhase ht).resolve_right (by simp))
  · cases hs
    refine ⟨sp, rfl, h.unseen rfl rfl rfl id rfl fun t ht => ?_⟩
    rcases pastJoin_setPhase ht with ht | ht
    · exact .inl ht
    · by_cases hworker : s.worker = .none
      · exact .inr hworker
      · simp [hworker] at ht
  · split at hs
    · rename_i hworker
      cases hs
      exact h.returned hworker rfl rfl hworker
    · rename_i hworker
      cases hs
      refine ⟨sp, rfl, h.unseen rfl rfl ?_ (fun _ => rfl) rfl fun _ _ => .inr rfl⟩
      simp [Scheduler.sweepLeft, setPhase, hworker]
    · cases hs
  · rename_i hphase
    cases hs
    have hworker := h.past_join tid (.inl hphase)
    exact ⟨sp, rfl, h.unseen rfl rfl rfl id rfl fun _ _ => .inr hworker⟩
  · rename_i hphase
    simp only [Option.ite_none_right_eq_some] at hs
    obtain ⟨-, hs⟩ := hs
    cases hs
    have hworker := h.past_join tid (.inr hphase)
    exact h.returned hworker rfl rfl hworker

theorem dequeue (h : Sim s sp) {i : Nat} (hs : s.dequeue i = some s') : Sim s' sp := by
  simp only [Scheduler.dequeue, Option.ite_none_right_eq_some] at hs
  obtain ⟨⟨hidle, -⟩, hs⟩ := hs
  split at hs
  · cases hs
  · split at hs
    all_goals
      cases hs
      exact h.worker_step rfl rfl (by simp [Scheduler.sweepLeft, hidle]) (by simp [hidle]) rfl rfl

theorem active_of_worker (h : Sim s sp) (hworker : s.worker ≠ .none) : sp.active = true := by
  by_contra hactive
  exact hworker (h.inactive (by simpa using hactive))

theorem started_of_worker (h : Sim s sp) (hworker : s.worker ≠ .none) : s.started = true := by
  by_contra hstarted
  exact hworker (h.unstarted (by simpa using hstarted))

theorem sweeping {sweep : Option (List Task)} (h : Sim s sp) (hworker : s.worker ≠ .none)
    (htasks : s'.tasks = s.tasks) (hid : s'.nextId = s.nextId) (hstarted : s'.started = s.started)
    (hphase : s'.phase = s.phase) (hsweep : sweep = s'.sweepLeft) :
    Sim s' { sp with sweep := sweep } := by
  refine h.keep htasks hid hsweep ?_ ?_ ?_
  · simp [h.active_of_worker hworker]
  · simp [hstarted, h.started_of_worker hworker]
  · intro tid ht
    exact absurd (h.past_join tid (by simpa [Scheduler.PastJoin, hphase] using ht)) hworker

theorem sweepLock (h : Sim s sp) (hs : s.sweepLock = some (s', ev)) :
    ∃ sp', ev.foldlM Spec.next sp = some sp' ∧ Sim s' sp' := by
  simp only [Scheduler.sweepLock] at hs
  split at hs
  · rename_i cycle hworker
    have hnone : sp.sweep = none := by rw [h.sweep_eq, Scheduler.sweepLeft, hworker]
    have hactive := h.active_of_worker (by simp [hworker])
    split at hs
    · cases hs
      exact ⟨sp, rfl, h.worker_step rfl rfl (by simp [Scheduler.sweepLeft, hworker])
        (by simp [hworker]) rfl rfl⟩
    · cases hs
      refine ⟨{ sp with sweep := some sp.registered }, by simp [Spec.next, hnone, hactive], ?_⟩
      refine h.sweeping (by simp [hworker]) rfl rfl rfl rfl ?_
      simp [Scheduler.sweepLeft, h.registered_eq]
  · cases hs

theorem sweepCall (h : Sim s sp) (hs : s.sweepCall = some (s', ev)) :
    ∃ sp', ev.foldlM Spec.next sp = some sp' ∧ Sim s' sp' := by
  simp only [Scheduler.sweepCall] at hs
  split at hs
  · rename_i cycle position hworker
    simp only [Option.map_eq_some_iff] at hs
    obtain ⟨task, htask, hs⟩ := hs
    cases hs
    obtain ⟨hlt, rfl⟩ := List.getElem?_eq_some_iff.mp htask
    have hsweep : sp.sweep = some (s.tasks.drop position) := by
      rw [h.sweep_eq, Scheduler.sweepLeft, hworker]
    rw [List.drop_eq_getElem_cons hlt] at hsweep
    refine ⟨{ sp with sweep := some (s.tasks.drop (position + 1)) }, ?_, ?_⟩
    · simp only [List.foldlM_cons, List.foldlM_nil, Spec.next, hsweep, if_true]
      rfl
    exact h.sweeping (by simp [hworker]) rfl rfl rfl rfl rfl
  · cases hs

theorem sweepArm (h : Sim s sp) {armed : Bool} (hs : s.sweepArm armed = some (s', ev)) :
    ∃ sp', ev.foldlM Spec.next sp = some sp' ∧ Sim s' sp' := by
  simp only [Scheduler.sweepArm] at hs
  split at hs
  · rename_i cycle position hworker
    simp only [Option.ite_none_right_eq_some] at hs
    obtain ⟨rfl, hs⟩ := hs
    have hsweep : sp.sweep = some [] := by
      rw [h.sweep_eq, Scheduler.sweepLeft, hworker]
      simp
    split at hs
    all_goals
      cases hs
      refine ⟨{ sp with sweep := none }, by simp [Spec.next, hsweep], ?_⟩
      exact h.sweeping (by simp [hworker]) rfl rfl rfl rfl rfl
  · cases hs

theorem workerExit (h : Sim s sp) (hs : s.workerExit = some s') : Sim s' sp := by
  simp only [Scheduler.workerExit, Option.ite_none_right_eq_some, Option.some.injEq] at hs
  obtain ⟨⟨hidle, -⟩, rfl⟩ := hs
  exact h.worker_step rfl rfl (by simp [Scheduler.sweepLeft, hidle]) (by simp [hidle]) rfl rfl

theorem waitDone (h : Sim s sp) {i : Nat} {expired : Bool} (hs : s.waitDone i expired = some s') :
    Sim s' sp := by
  simp only [Scheduler.waitDone, Option.map_eq_some_iff] at hs
  obtain ⟨cycle, -, rfl⟩ := hs
  exact h.worker_step rfl rfl rfl id rfl rfl

theorem step (h : Sim s sp) (hok : StartOk s a) (hs : step s a = some (s', ev)) :
    ∃ sp', ev.foldlM Spec.next sp = some sp' ∧ Sim s' sp' := by
  cases a with
  | ptaskAdd callback object arg =>
    simp only [Ptask.step, Option.ite_none_right_eq_some, Option.some.injEq] at hs
    exact h.add hs.1 hs.2
  | ptaskRemove id =>
    simp only [Ptask.step, Option.ite_none_right_eq_some, Option.some.injEq] at hs
    exact h.remove hs.1 hs.2
  | ptaskInit interval outcome =>
    simp only [Ptask.step, Option.ite_none_right_eq_some] at hs
    exact h.start hs.1 hok hs.2
  | ptaskShutdown tid =>
    simp only [Ptask.step, Option.ite_none_right_eq_some] at hs
    exact h.stop hs.1 hs.2
  | shutdownNext tid => exact h.stopNext hs
  | dequeue i =>
    obtain ⟨hmoved, rfl⟩ := of_silent hs
    exact ⟨sp, rfl, h.dequeue hmoved⟩
  | sweepLock => exact h.sweepLock hs
  | sweepCall => exact h.sweepCall hs
  | sweepArm armed => exact h.sweepArm hs
  | workerExit =>
    obtain ⟨hmoved, rfl⟩ := of_silent hs
    exact ⟨sp, rfl, h.workerExit hmoved⟩
  | waitDone i expired =>
    obtain ⟨hmoved, rfl⟩ := of_silent hs
    exact ⟨sp, rfl, h.waitDone hmoved⟩

end Sim

theorem events_snoc {trace : List (Scheduler × Action)} (hs : step s a = some (s', ev)) :
    events (trace ++ [(s, a)]) = events trace ++ ev := by
  simp [events, hs]

theorem run_accepted {trace : List (Scheduler × Action)} (hrun : Run Step Scheduler.init trace s)
    (hok : AllSteps StartOk trace) :
    ∃ sp, (events trace).foldlM Spec.next Spec.init = some sp ∧ Sim s sp := by
  induction hrun with
  | start => exact ⟨Spec.init, rfl, sim_init⟩
  | next hrun hs ih =>
    obtain ⟨htrace, hlast⟩ := allSteps_snoc.mp hok
    obtain ⟨sp, haccepted, hsim⟩ := ih htrace
    obtain ⟨ev, hs⟩ := hs
    obtain ⟨sp', hev, hsim'⟩ := hsim.step hlast hs
    refine ⟨sp', ?_, hsim'⟩
    rw [events_snoc hs, List.foldlM_append, haccepted]
    exact hev

theorem run_oneChain {trace : List (Scheduler × Action)} (hrun : Run Step Scheduler.init trace s) :
    Always (fun s => s.live.length ≤ 1) trace s := by
  have halways := hrun.always (fun _ _ _ h ⟨_, hs⟩ => h.step hs) oneChain_init
  exact ⟨halways.1.length_live, fun x hx => (halways.2 x hx).length_live⟩

/-- Where no start overtakes a shutdown that has joined the worker, every run is
safe. -/
theorem run_safe {trace : List (Scheduler × Action)} (hrun : Run Step Scheduler.init trace s)
    (hok : AllSteps StartOk trace) :
    Always (fun s => s.live.length ≤ 1) trace s ∧ TraceSafe (events trace) := by
  obtain ⟨sp, haccepted, -⟩ := run_accepted hrun hok
  exact ⟨run_oneChain hrun, traceSafe_of_accepted haccepted⟩

def nextState (s : Scheduler) (a : Action) : Option Scheduler := (step s a).map Prod.fst

theorem run_of_nextState {actions : List Action} {trace : List (Scheduler × Action)}
    (h : execute nextState Scheduler.init actions = some (trace, s)) :
    Run Step Scheduler.init trace s := by
  apply (run_of_execute h).mono
  intro t a t' hs
  simp only [nextState, Option.map_eq_some_iff, Prod.exists, exists_and_right,
    exists_eq_right] at hs
  exact hs

theorem startOk_of_labels {trace : List (Scheduler × Action)} {labels : List Action}
    (h : trace.map Prod.snd = labels)
    (hlabels : ∀ a ∈ labels, ∀ interval outcome, a ≠ .ptaskInit interval outcome) :
    AllSteps StartOk trace := by
  intro x hx
  have hne := hlabels x.2 (h ▸ List.mem_map_of_mem hx)
  rw [StartOk.eq_def]
  split
  · rename_i heq
    exact absurd heq (hne _ _)
  · trivial

def sampleTask : Task := ⟨1, 0x1000, 0x2000, 0⟩

def oneCycle : List Action :=
  [.ptaskInit 0 .ok, .ptaskAdd 0x1000 0x2000 0, .dequeue 0, .sweepLock, .sweepCall, .sweepArm true,
    .ptaskShutdown 0, .shutdownNext 0, .shutdownNext 0, .workerExit, .shutdownNext 0,
    .shutdownNext 0, .shutdownNext 0]

theorem run_safe_oneCycle :
    ∃ trace s, Run Step Scheduler.init trace s ∧
      events trace = [.started, .added sampleTask, .sweepBegun, .called sampleTask, .sweepEnded,
        .shutdownReturned] ∧ TraceSafe (events trace) := by
  have hexec : execute nextState Scheduler.init oneCycle = some (_, _) := rfl
  have hrun := run_of_nextState hexec
  refine ⟨_, _, hrun, rfl, (run_safe hrun (allSteps_cons.mpr ⟨?_, ?_⟩)).2⟩
  · exact fun _ tid => by simp [Scheduler.PastJoin, Scheduler.init]
  · exact @startOk_of_labels _ oneCycle.tail rfl (by simp [oneCycle])

/-- Two shutdowns pass the check of `started`; a start comes after the first of
them has cleared it, and the other one clears it again. The scheduler then runs
while every shutdown returns at once. -/
def overtaken : List Action :=
  [.ptaskAdd 0x1000 0x2000 0, .ptaskInit 0 .ok, .ptaskShutdown 0, .ptaskShutdown 1,
    .shutdownNext 0, .shutdownNext 0, .workerExit, .shutdownNext 0, .shutdownNext 0,
    .shutdownNext 1, .shutdownNext 1, .shutdownNext 1, .shutdownNext 1, .ptaskInit 0 .ok,
    .shutdownNext 0, .ptaskShutdown 2, .dequeue 1, .sweepLock, .sweepCall]

theorem not_run_safe :
    ¬ ∀ trace s, Run Step Scheduler.init trace s →
      Always (fun s => s.live.length ≤ 1) trace s ∧ TraceSafe (events trace) := by
  intro h
  have hexec : execute nextState Scheduler.init overtaken = some (_, _) := rfl
  have hsafe := (h _ _ (run_of_nextState hexec)).2
  have hstarted := hsafe.returned_silent
    [.added sampleTask, .started, .shutdownReturned, .started, .shutdownReturned]
    [.sweepBegun] sampleTask [] rfl
  simp at hstarted

end Dynamips.Ptask
