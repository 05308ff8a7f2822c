import Dynamips.Lib.Runs
import Dynamips.PtaskSpec
import Mathlib.Logic.Function.Basic
set_option autoImplicit false

namespace Dynamips.Ptask
open Runs

/-- A handler in the queue of the `io_context`: the first sweep of a start, or
the completion of a timer wait. -/
inductive Handler
  | initial (cycle : Nat)
  | expired (cycle : Nat)
  | aborted
  | failed
  deriving DecidableEq

def Handler.cycle : Handler → Option Nat
  | .initial cycle => some cycle
  | .expired cycle => some cycle
  | .aborted => none
  | .failed => none

/-- The `worker` thread. A handler holds the mutex in its sweep only. -/
inductive Worker
  | none
  | idle
  | handling (cycle : Nat)
  | sweeping (cycle position : Nat)
  | finished
  deriving DecidableEq

def Worker.cycle : Worker → Option Nat
  | .handling cycle => some cycle
  | .sweeping cycle _ => some cycle
  | .none | .idle | .finished => Option.none

/-- How far a call of `stop` has come. -/
inductive StopPhase
  | outside
  | unlocked
  | contextStopped
  | joining
  | joined
  | timerCancelled
  deriving DecidableEq

/-- `scheduler`, its `io_context` and timer, and the calls of `stop` under way,
by thread. -/
structure Scheduler where
  queue : List Handler
  waits : List Nat
  contextStopped : Bool
  worker : Worker
  tasks : List Task
  nextId : Int
  generation : Nat
  running : Bool
  started : Bool
  ptaskSleepTime : BitVec 32
  phase : Nat → StopPhase

namespace Scheduler

def init : Scheduler :=
  { queue := []
    waits := []
    contextStopped := false
    worker := .none
    tasks := []
    nextId := 0
    generation := 0
    running := false
    started := false
    ptaskSleepTime := 10
    phase := fun _ => .outside }

def mutexFree (s : Scheduler) : Bool :=
  match s.worker with
  | .sweeping _ _ => false
  | _ => true

def add (s : Scheduler) (callback object arg : Pointer) : Scheduler × List Event :=
  if s.nextId = 2 ^ 63 - 1 then (s, [])
  else
    let task : Task := ⟨s.nextId + 1, callback, object, arg⟩
    ({ s with
      tasks := task :: s.tasks
      nextId := s.nextId + 1 }, [.added task])

def remove (s : Scheduler) (id : Int) : Scheduler × List Event :=
  if s.tasks.any (·.id = id) then
    ({ s with tasks := s.tasks.eraseP (·.id = id) }, [.removed id])
  else (s, [])

/-- What throws in `start`, if anything. -/
inductive StartOutcome
  | ok
  | postFails
  | threadFails
  deriving DecidableEq

/-- `start`; the assignment to a joinable `worker` ends the process. -/
def start (s : Scheduler) (interval : BitVec 32) (outcome : StartOutcome) :
    Option (Scheduler × List Event) :=
  if s.started then some (s, [])
  else if s.generation = 2 ^ 64 - 1 then some (s, [])
  else
    let cycle := s.generation + 1
    let s := { s with
      ptaskSleepTime := if interval ≠ 0 then interval else s.ptaskSleepTime
      contextStopped := false
      generation := cycle
      running := true }
    match outcome with
    | .postFails =>
      some ({ s with
        running := false
        contextStopped := true }, [])
    | .threadFails =>
      some ({ s with
        queue := s.queue ++ [.initial cycle]
        running := false
        contextStopped := true }, [])
    | .ok =>
      if s.worker = .none then
        some ({ s with
          queue := s.queue ++ [.initial cycle]
          worker := .idle
          started := true }, [.started])
      else none

/-- `cancel` and `expires_after` of the timer. -/
def cancelTimer (s : Scheduler) : Scheduler :=
  { s with
    queue := s.queue ++ s.waits.map fun _ => .aborted
    waits := [] }

/-- `context.run` takes a handler; the handlers of a timer wait look at its
result first. -/
def dequeue (s : Scheduler) (i : Nat) : Option Scheduler :=
  if s.worker = .idle ∧ s.contextStopped = false then
    match s.queue[i]? with
    | none => none
    | some handler =>
      let s := { s with queue := s.queue.eraseIdx i }
      match handler with
      | .initial cycle => some { s with worker := .handling cycle }
      | .expired cycle => some { s with worker := .handling cycle }
      | .aborted => some s
      | .failed => some { s with contextStopped := true }
  else none

/-- The check at the start of `sweep`. -/
def sweepLock (s : Scheduler) : Option (Scheduler × List Event) :=
  match s.worker with
  | .handling cycle =>
    if s.running = false ∨ cycle ≠ s.generation then some ({ s with worker := .idle }, [])
    else some ({ s with worker := .sweeping cycle 0 }, [.sweepBegun])
  | _ => none

/-- A turn of the loop of `sweep`. -/
def sweepCall (s : Scheduler) : Option (Scheduler × List Event) :=
  match s.worker with
  | .sweeping cycle position =>
    (s.tasks[position]?).map fun task =>
      ({ s with worker := .sweeping cycle (position + 1) }, [.called task])
  | _ => none

/-- The end of `sweep`; where the wait cannot be armed, the handler stops the
context. -/
def sweepArm (s : Scheduler) (armed : Bool) : Option (Scheduler × List Event) :=
  match s.worker with
  | .sweeping cycle position =>
    if position = s.tasks.length then
      let s := { s.cancelTimer with worker := .idle }
      if armed then some ({ s with waits := [cycle] }, [.sweepEnded])
      else some ({ s with contextStopped := true }, [.sweepEnded])
    else none
  | _ => none

/-- `context.run` returns when the context is stopped or out of work. -/
def workerExit (s : Scheduler) : Option Scheduler :=
  if s.worker = .idle ∧ (s.contextStopped ∨ s.queue = [] ∧ s.waits = []) then
    some { s with
      worker := .finished
      contextStopped := true }
  else none

def waitDone (s : Scheduler) (i : Nat) (expired : Bool) : Option Scheduler :=
  (s.waits[i]?).map fun cycle =>
    { s with
      queue := s.queue ++ [if expired then .expired cycle else .failed]
      waits := s.waits.eraseIdx i }

def setPhase (s : Scheduler) (tid : Nat) (phase : StopPhase) : Scheduler :=
  { s with phase := Function.update s.phase tid phase }

/-- The first section of `stop`. -/
def stop (s : Scheduler) (tid : Nat) : Option (Scheduler × List Event) :=
  if s.phase tid ≠ .outside then none
  else if s.started = false then some (s, [.shutdownReturned])
  else some ({ s with running := false }.setPhase tid .unlocked, [])

/-- The rest of `stop`, up to the next point where another thread matters.
A thread that was joined meanwhile makes `join` throw. -/
def stopNext (s : Scheduler) (tid : Nat) : Option (Scheduler × List Event) :=
  match s.phase tid with
  | .outside => none
  | .unlocked => some ({ s with contextStopped := true }.setPhase tid .contextStopped, [])
  | .contextStopped =>
    some (s.setPhase tid (if s.worker = .none then .joined else .joining), [])
  | .joining =>
    match s.worker with
    | .none => some (s.setPhase tid .outside, [.shutdownReturned])
    | .finished => some ({ s with worker := .none }.setPhase tid .joined, [])
    | _ => none
  | .joined => some (s.cancelTimer.setPhase tid .timerCancelled, [])
  | .timerCancelled =>
    if s.mutexFree then
      some ({ s with started := false }.setPhase tid .outside, [.shutdownReturned])
    else none

end Scheduler

open Scheduler (StartOutcome)

inductive Action
  | ptaskAdd (callback object arg : Pointer)
  | ptaskRemove (id : Int)
  | ptaskInit (interval : BitVec 32) (outcome : StartOutcome)
  | ptaskShutdown (tid : Nat)
  | shutdownNext (tid : Nat)
  | dequeue (i : Nat)
  | sweepLock
  | sweepCall
  | sweepArm (armed : Bool)
  | workerExit
  | waitDone (i : Nat) (expired : Bool)
  deriving DecidableEq

def silent (s : Option Scheduler) : Option (Scheduler × List Event) := s.map fun s => (s, [])

/-- One step of a caller, of the worker or of the timer. The sections under the
mutex wait for a sweep to end. -/
def step (s : Scheduler) : Action → Option (Scheduler × List Event)
  | .ptaskAdd callback object arg =>
    if s.mutexFree then some (s.add callback object arg) else none
  | .ptaskRemove id => if s.mutexFree then some (s.remove id) else none
  | .ptaskInit interval outcome => if s.mutexFree then s.start interval outcome else none
  | .ptaskShutdown tid => if s.mutexFree then s.stop tid else none
  | .shutdownNext tid => s.stopNext tid
  | .dequeue i => silent (s.dequeue i)
  | .sweepLock => s.sweepLock
  | .sweepCall => s.sweepCall
  | .sweepArm armed => s.sweepArm armed
  | .workerExit => silent s.workerExit
  | .waitDone i expired => silent (s.waitDone i expired)

def Step (s : Scheduler) (a : Action) (s' : Scheduler) : Prop := ∃ events, step s a = some (s', events)

def events (trace : List (Scheduler × Action)) : List Event :=
  trace.flatMap fun x => ((step x.1 x.2).map Prod.snd).getD []

def Scheduler.pending (s : Scheduler) : List Nat :=
  s.queue.filterMap Handler.cycle ++ s.waits ++ s.worker.cycle.toList

/-- The sweep chains that the check of `sweep` lets through. -/
def Scheduler.live (s : Scheduler) : List Nat :=
  s.pending.filter fun cycle => s.running ∧ cycle = s.generation

end Dynamips.Ptask
