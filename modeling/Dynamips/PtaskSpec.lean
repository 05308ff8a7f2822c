import Mathlib.Algebra.Order.Ring.Int
import Mathlib.Data.List.Induction
import Mathlib.Data.List.Nodup
import Mathlib.Tactic.Common
set_option autoImplicit false

namespace Dynamips.Ptask

abbrev Pointer := BitVec 64

structure Task where
  id : Int
  callback : Pointer
  object : Pointer
  arg : Pointer
  deriving DecidableEq

inductive Event
  | added (task : Task)
  | removed (id : Int)
  | started
  | shutdownReturned
  | sweepBegun
  | called (task : Task)
  | sweepEnded
  deriving DecidableEq

/-- What the scheduler is for: the registered tasks, the last id given out,
whether it was started since a shutdown returned, and the tasks that the sweep
under way still has to call. -/
structure Spec where
  registered : List Task
  lastId : Int
  active : Bool
  sweep : Option (List Task)
  deriving DecidableEq

namespace Spec

def init : Spec :=
  { registered := []
    lastId := 0
    active := false
    sweep := none }

def next (sp : Spec) : Event → Option Spec
  | .added task =>
    if sp.sweep = none ∧ sp.lastId < task.id then
      some { sp with registered := task :: sp.registered, lastId := task.id }
    else none
  | .removed id =>
    if sp.sweep = none ∧ ∃ task ∈ sp.registered, task.id = id then
      some { sp with registered := sp.registered.filter (·.id ≠ id) }
    else none
  | .started => if sp.sweep = none then some { sp with active := true } else none
  | .shutdownReturned => if sp.sweep = none then some { sp with active := false } else none
  | .sweepBegun =>
    if sp.sweep = none ∧ sp.active then some { sp with sweep := some sp.registered } else none
  | .called task =>
    match sp.sweep with
    | some (head :: rest) => if task = head then some { sp with sweep := some rest } else none
    | _ => none
  | .sweepEnded => if sp.sweep = some [] then some { sp with sweep := none } else none

end Spec

def Event.addedId : Event → Option Int
  | .added task => some task.id
  | _ => none

def addedIds (events : List Event) : List Int := events.filterMap Event.addedId

theorem addedIds_snoc (events : List Event) (e : Event) :
    addedIds (events ++ [e]) = addedIds events ++ e.addedId.toList := by
  cases e <;> simp [addedIds, Event.addedId]

def register (tasks : List Task) : Event → List Task
  | .added task => task :: tasks
  | .removed id => tasks.filter (·.id ≠ id)
  | _ => tasks

def registered (events : List Event) : List Task := events.foldl register []

/-- No id is given out twice; every callback stands in a sweep that has called
the tasks before it, and a sweep that ends has called every registered task
once and nothing else; no callback follows the removal of its task, or the
return of a shutdown with no start in between. -/
structure TraceSafe (events : List Event) : Prop where
  ids_fresh : (addedIds events).Nodup
  call_in_sweep : ∀ pre task post, events = pre ++ .called task :: post →
    ∃ before done, pre = before ++ .sweepBegun :: done.map .called ∧
      done ++ [task] <+: registered before
  sweep_complete : ∀ pre post, events = pre ++ .sweepEnded :: post →
    ∃ before, pre = before ++ .sweepBegun :: (registered before).map .called
  removed_silent : ∀ pre id post, events = pre ++ .removed id :: post →
    ∀ task, .called task ∈ post → task.id ≠ id
  returned_silent : ∀ pre mid task post,
    events = pre ++ .shutdownReturned :: mid ++ .called task :: post → .started ∈ mid

theorem snoc_eq_iff {α : Type} {l pre post : List α} {a x : α} :
    l ++ [a] = pre ++ x :: post ↔
      (l = pre ∧ a = x ∧ post = []) ∨ ∃ init, post = init ++ [a] ∧ l = pre ++ x :: init := by
  constructor
  · intro h
    cases post using List.reverseRecOn with
    | nil =>
      obtain ⟨hl, ha⟩ := List.append_inj' h rfl
      cases ha
      exact .inl ⟨hl, rfl, rfl⟩
    | append_singleton init b =>
      rw [← List.cons_append, ← List.append_assoc] at h
      obtain ⟨hl, ha⟩ := List.append_inj' h rfl
      cases ha
      exact .inr ⟨init, rfl, hl⟩
  · rintro (⟨rfl, rfl, rfl⟩ | ⟨init, rfl, rfl⟩)
    · rfl
    · simp

theorem registered_snoc (events : List Event) (e : Event) :
    registered (events ++ [e]) = register (registered events) e := by
  simp [registered]

structure Allowed (events : List Event) (e : Event) : Prop where
  fresh : ∀ task, e = .added task → task.id ∉ addedIds events
  sweeping : ∀ task, e = .called task →
    ∃ before done, events = before ++ .sweepBegun :: done.map .called ∧
      done ++ [task] <+: registered before
  complete : e = .sweepEnded →
    ∃ before, events = before ++ .sweepBegun :: (registered before).map .called
  kept : ∀ task, e = .called task → ∀ id, .removed id ∈ events → task.id ≠ id
  active : ∀ task, e = .called task →
    ∀ pre mid, events = pre ++ .shutdownReturned :: mid → .started ∈ mid

theorem TraceSafe.snoc {events : List Event} {e : Event} (h : TraceSafe events)
    (ha : Allowed events e) : TraceSafe (events ++ [e]) where
  ids_fresh := by
    rw [addedIds_snoc]
    cases e with
    | added task =>
      have hfresh := ha.fresh task rfl
      simp only [Event.addedId, Option.toList_some]
      exact List.nodup_append.mpr ⟨h.ids_fresh, List.nodup_singleton _, by grind⟩
    | removed | started | shutdownReturned | sweepBegun | called | sweepEnded =>
      simpa [Event.addedId] using h.ids_fresh
  call_in_sweep := by
    intro pre task post heq
    rcases snoc_eq_iff.mp heq with ⟨rfl, he, -⟩ | ⟨init, -, rfl⟩
    · exact ha.sweeping task he
    · exact h.call_in_sweep pre task init rfl
  sweep_complete := by
    intro pre post heq
    rcases snoc_eq_iff.mp heq with ⟨rfl, he, -⟩ | ⟨init, -, rfl⟩
    · exact ha.complete he
    · exact h.sweep_complete pre init rfl
  removed_silent := by
    intro pre id post heq task hmem
    rcases snoc_eq_iff.mp heq with ⟨rfl, -, rfl⟩ | ⟨init, rfl, rfl⟩
    · simp at hmem
    · rcases List.mem_append.mp hmem with hmem | hmem
      · exact h.removed_silent pre id init rfl task hmem
      · rw [List.mem_singleton] at hmem
        exact ha.kept task hmem.symm id (by simp)
  returned_silent := by
    intro pre mid task post heq
    rcases snoc_eq_iff.mp heq with ⟨rfl, he, -⟩ | ⟨init, -, rfl⟩
    · exact ha.active task he pre mid rfl
    · exact h.returned_silent pre mid task init rfl

structure Follows (events : List Event) (sp : Spec) : Prop where
  safe : TraceSafe events
  registered_eq : sp.registered = registered events
  ids_le : ∀ id ∈ addedIds events, id ≤ sp.lastId
  registered_le : ∀ task ∈ sp.registered, task.id ≤ sp.lastId
  removed_le : ∀ id, .removed id ∈ events →
    id ≤ sp.lastId ∧ ∀ task ∈ sp.registered, task.id ≠ id
  active : sp.active → ∀ pre mid, events = pre ++ .shutdownReturned :: mid → .started ∈ mid
  sweep : ∀ rest, sp.sweep = some rest → sp.active ∧
    ∃ before done, events = before ++ .sweepBegun :: done.map .called ∧
      registered before = done ++ rest ∧ sp.registered = done ++ rest

theorem follows_init : Follows [] Spec.init where
  safe := by constructor <;> simp [addedIds]
  registered_eq := rfl
  ids_le := by simp [addedIds]
  registered_le := by simp [Spec.init]
  removed_le := by simp
  active := by simp
  sweep := by simp [Spec.init]

namespace Follows

variable {events : List Event} {sp sp' : Spec}

theorem started_snoc {e : Event} (he : e ≠ .shutdownReturned)
    (h : ∀ pre mid, events = pre ++ .shutdownReturned :: mid → .started ∈ mid) :
    ∀ pre mid, events ++ [e] = pre ++ .shutdownReturned :: mid → .started ∈ mid := by
  intro pre mid heq
  rcases snoc_eq_iff.mp heq with ⟨-, heq, -⟩ | ⟨init, rfl, hinit⟩
  · exact absurd heq he
  · exact List.mem_append_left _ (h pre init hinit)

theorem added {task : Task} (h : Follows events sp) (hs : sp.next (.added task) = some sp') :
    Follows (events ++ [.added task]) sp' := by
  simp only [Spec.next, Option.ite_none_right_eq_some, Option.some.injEq] at hs
  obtain ⟨⟨hsweep, hlt⟩, rfl⟩ := hs
  exact {
    safe := h.safe.snoc {
      fresh := by
        intro t ht hmem
        cases ht
        have hle := h.ids_le _ hmem
        omega
      sweeping := by simp
      complete := by simp
      kept := by simp
      active := by simp }
    registered_eq := by simp [registered_snoc, register, h.registered_eq]
    ids_le := by
      intro id hid
      simp only [addedIds_snoc, Event.addedId, Option.toList_some, List.mem_append,
        List.mem_singleton] at hid
      rcases hid with hid | rfl
      · exact (h.ids_le id hid).trans hlt.le
      · exact le_rfl
    registered_le := by
      intro t ht
      rcases List.mem_cons.mp ht with rfl | ht
      · exact le_rfl
      · exact (h.registered_le t ht).trans hlt.le
    removed_le := by
      intro id hid
      simp only [List.mem_append, List.mem_singleton, reduceCtorEq, or_false] at hid
      obtain ⟨hle, hne⟩ := h.removed_le id hid
      refine ⟨hle.trans hlt.le, fun t ht => ?_⟩
      rcases List.mem_cons.mp ht with rfl | ht
      · omega
      · exact hne t ht
    active := fun hactive => started_snoc (by simp) (h.active hactive)
    sweep := by
      intro rest hrest
      rw [hsweep] at hrest
      cases hrest }

theorem removed {id : Int} (h : Follows events sp) (hs : sp.next (.removed id) = some sp') :
    Follows (events ++ [.removed id]) sp' := by
  simp only [Spec.next, Option.ite_none_right_eq_some, Option.some.injEq] at hs
  obtain ⟨⟨hsweep, task, hmem, rfl⟩, rfl⟩ := hs
  exact {
    safe := h.safe.snoc (by constructor <;> simp)
    registered_eq := by simp [registered_snoc, register, h.registered_eq]
    ids_le := by
      intro id hid
      simp only [addedIds_snoc, Event.addedId, Option.toList_none, List.append_nil] at hid
      exact h.ids_le id hid
    registered_le := fun t ht => h.registered_le t (List.mem_of_mem_filter ht)
    removed_le := by
      intro id hid
      simp only [List.mem_append, List.mem_singleton, Event.removed.injEq] at hid
      rcases hid with hid | rfl
      · obtain ⟨hle, hne⟩ := h.removed_le id hid
        exact ⟨hle, fun t ht => hne t (List.mem_of_mem_filter ht)⟩
      · exact ⟨h.registered_le task hmem, fun t ht => by simpa using List.of_mem_filter ht⟩
    active := fun hactive => started_snoc (by simp) (h.active hactive)
    sweep := by
      intro rest hrest
      rw [hsweep] at hrest
      cases hrest }

theorem keep {e : Event} {active : Bool} {sweep : Option (List Task)} (h : Follows events sp)
    (hadd : e.addedId = none) (hreg : ∀ tasks, register tasks e = tasks)
    (hrem : ∀ id, e ≠ .removed id) (hallowed : Allowed events e)
    (hactive : active → ∀ pre mid, events ++ [e] = pre ++ .shutdownReturned :: mid →
      .started ∈ mid)
    (hsweep : ∀ rest, sweep = some rest → active ∧
      ∃ before done, events ++ [e] = before ++ .sweepBegun :: done.map .called ∧
        registered before = done ++ rest ∧ sp.registered = done ++ rest) :
    Follows (events ++ [e]) { sp with active := active, sweep := sweep } where
  safe := h.safe.snoc hallowed
  registered_eq := by rw [registered_snoc, hreg]; exact h.registered_eq
  ids_le := by
    intro id hid
    simp only [addedIds_snoc, hadd, Option.toList_none, List.append_nil] at hid
    exact h.ids_le id hid
  registered_le := h.registered_le
  removed_le := by
    intro id hid
    rcases List.mem_append.mp hid with hid | hid
    · exact h.removed_le id hid
    · exact absurd (List.mem_singleton.mp hid).symm (hrem id)
  active := hactive
  sweep := hsweep

theorem step {e : Event} (h : Follows events sp) (hs : sp.next e = some sp') :
    Follows (events ++ [e]) sp' := by
  cases e with
  | added task => exact h.added hs
  | removed id => exact h.removed hs
  | started =>
    simp only [Spec.next, Option.ite_none_right_eq_some, Option.some.injEq] at hs
    obtain ⟨hsweep, rfl⟩ := hs
    apply h.keep rfl (fun _ => rfl) (by simp) (by constructor <;> simp)
    · intro _ pre mid heq
      rcases snoc_eq_iff.mp heq with ⟨-, heq, -⟩ | ⟨init, rfl, -⟩
      · cases heq
      · simp
    · simp [hsweep]
  | shutdownReturned =>
    simp only [Spec.next, Option.ite_none_right_eq_some, Option.some.injEq] at hs
    obtain ⟨hsweep, rfl⟩ := hs
    exact h.keep rfl (fun _ => rfl) (by simp) (by constructor <;> simp) (by simp) (by simp [hsweep])
  | sweepBegun =>
    simp only [Spec.next, Option.ite_none_right_eq_some, Option.some.injEq] at hs
    obtain ⟨⟨-, hactive⟩, rfl⟩ := hs
    apply h.keep rfl (fun _ => rfl) (by simp) (by constructor <;> simp)
    · exact fun _ => started_snoc (by simp) (h.active hactive)
    · intro rest hrest
      cases hrest
      exact ⟨hactive, events, [], rfl, h.registered_eq.symm, rfl⟩
  | called task =>
    simp only [Spec.next] at hs
    split at hs
    · rename_i head rest hsweep
      simp only [Option.ite_none_right_eq_some, Option.some.injEq] at hs
      obtain ⟨rfl, rfl⟩ := hs
      obtain ⟨hactive, before, done, hevents, hbefore, hreg⟩ := h.sweep _ hsweep
      have hmem : task ∈ sp.registered := by simp [hreg]
      apply h.keep rfl (fun _ => rfl) (by simp)
      · exact {
          fresh := by simp
          sweeping := by
            intro t ht
            cases ht
            exact ⟨before, done, hevents, by simp [hbefore]⟩
          complete := by simp
          kept := by
            intro t ht id hid
            cases ht
            exact (h.removed_le id hid).2 task hmem
          active := fun _ _ => h.active hactive }
      · exact fun _ => started_snoc (by simp) (h.active hactive)
      · intro rest' hrest
        cases hrest
        exact ⟨hactive, before, done ++ [task], by simp [hevents], by simp [hbefore],
          by simp [hreg]⟩
    · cases hs
  | sweepEnded =>
    simp only [Spec.next, Option.ite_none_right_eq_some, Option.some.injEq] at hs
    obtain ⟨hsweep, rfl⟩ := hs
    obtain ⟨hactive, before, done, hevents, hbefore, -⟩ := h.sweep _ hsweep
    apply h.keep rfl (fun _ => rfl) (by simp)
    · exact {
        fresh := by simp
        sweeping := by simp
        complete := fun _ => ⟨before, by simpa [hbefore] using hevents⟩
        kept := by simp
        active := by simp }
    · exact fun _ => started_snoc (by simp) (h.active hactive)
    · simp

end Follows

theorem traceSafe_of_accepted {events : List Event} {sp : Spec}
    (h : events.foldlM Spec.next Spec.init = some sp) : TraceSafe events := by
  suffices hfollows : Follows events sp from hfollows.safe
  induction events using List.reverseRecOn generalizing sp with
  | nil =>
    cases h
    exact follows_init
  | append_singleton events e ih =>
    simp only [List.foldlM_append, List.foldlM_cons, List.foldlM_nil, Option.bind_eq_bind,
      Option.bind_eq_some_iff] at h
    obtain ⟨mid, hmid, sp', hsp', hpure⟩ := h
    cases hpure
    exact (ih hmid).step hsp'

end Dynamips.Ptask
