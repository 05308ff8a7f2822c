import Dynamips.Lib.Runs
import Mathlib.Logic.Function.Basic

/-! The timer scheduler of timer.cpp: the worker thread, the waits it has given to
the event loop, and the calls of other threads and of the callback that runs. Clock
readings and whatever may throw are inputs of a step. -/
set_option autoImplicit false

namespace Dynamips.Timer
open Runs

abbrev TimerId := Nat

/-- An `entry_ptr` -/
abbrev Ref := Nat

abbrev Ticket := Ref × Nat

inductive Error where
  | invalidArgument
  | outOfMemory
  | idExhausted
  | notFound
  | systemFailure
  | internal
deriving DecidableEq, Repr

inductive Thrown where
  | badAlloc
  | systemError
  | other
deriving DecidableEq, Repr

/-- The `catch` clauses -/
def Thrown.error : Thrown → Error
  | .badAlloc => .outOfMemory
  | .systemError => .systemFailure
  | .other => .internal

def UINT64_MAX : Nat := 2 ^ 64 - 1

def LONG_MAX : Nat := 2 ^ 63 - 1

/-- `clock::time_point::max()`, in nanoseconds -/
def CLOCK_MAX : Int := 2 ^ 63 - 1

def TIMER_RUNNING : BitVec 32 := 2

def TIMER_BOUNDARY : BitVec 32 := 4

structure Entry where
  interval : Int
  expire : Nat
  offset : Nat
  callback : Nat
  userArg : Nat
  flags : BitVec 32
  id : TimerId
  level : Int
  deadline : Int
  generation : Nat
  cancelled : Bool

namespace Entry

def setRunning (value : Entry) : Entry := { value with flags := value.flags ||| TIMER_RUNNING }

def clearRunning (value : Entry) : Entry :=
  { value with flags := value.flags &&& ~~~TIMER_RUNNING }

def cancel (value : Entry) : Entry := { value with cancelled := true }

/-- `++value->generation` -/
def nextCycle (value : Entry) : Entry := { value with generation := value.generation + 1 }

end Entry

/-- Both clocks in nanoseconds, and what `localtime_r` finds -/
structure Readings where
  steady : Int
  wall : Int
  gmtoff : Option Int

def phase (localMs interval : Int) : Int :=
  let phase := localMs.tmod interval
  if phase < 0 then phase + interval else phase

def advance (value : Entry) (fromNow : Bool) (clock : Readings) : Except Error Entry :=
  let interval := value.interval
  if interval ≤ 0 then
    .error .invalidArgument
  else
    let boundary := value.flags &&& TIMER_BOUNDARY ≠ 0
    let base := if fromNow ∨ boundary then clock.steady else value.deadline
    let available := (CLOCK_MAX - base).tdiv 1000000
    let wallMs := clock.wall.tdiv 1000000
    let delay :=
      if boundary then
        clock.gmtoff.map fun gmtoff => interval - phase (wallMs + gmtoff * 1000) interval
      else
        some interval
    match delay with
    | none => .error .systemFailure
    | some delay =>
      if available < 0 ∨ delay > available then
        .error .invalidArgument
      else if boundary ∧ (value.offset : Int) > available - delay then
        .error .invalidArgument
      else
        let delay := if boundary then delay + value.offset else delay
        let expire := if fromNow ∨ boundary then wallMs + delay else value.expire + delay
        .ok { value with
          deadline := base + delay * 1000000
          expire := (expire % 2 ^ 64).toNat }

inductive Completion where
  | expired
  | aborted
  | failed
deriving DecidableEq, Repr

/-- What only the worker reads and writes. A wait is pending until the event loop
completes it, and completed until its handler runs. -/
structure Timers where
  obj : Ref → Entry
  objCount : Nat
  entries : List (TimerId × Ref)
  nextId : TimerId
  pending : List Ticket
  completed : List (Ticket × Completion)

namespace Timers

def find (t : Timers) (id : TimerId) : Option Ref :=
  (t.entries.find? fun p => p.1 = id).map Prod.snd

def setObj (t : Timers) (r : Ref) (value : Entry) : Timers :=
  { t with obj := Function.update t.obj r value }

def erase (t : Timers) (id : TimerId) : Timers :=
  { t with entries := t.entries.filter fun p => p.1 ≠ id }

/-- `timer.cancel()`, which `expires_at` does as well: the pending waits of the
entry complete as aborted -/
def cancelWaits (t : Timers) (r : Ref) : Timers :=
  { t with
    pending := t.pending.filter fun w => w.1 ≠ r
    completed := t.completed ++
      (t.pending.filter fun w => w.1 = r).map fun w => (w, Completion.aborted) }

end Timers

/-- Where `arm` can throw -/
inductive ArmFault where
  | expiresAt (thrown : Thrown)
  | asyncWait (thrown : Thrown)

/-- `arm`, on the worker thread -/
def arm (t : Timers) (r : Ref) (fault : Option ArmFault) : Timers × Except Error Unit :=
  let value := t.obj r
  if value.cancelled then
    (t, .error .notFound)
  else if value.generation = UINT64_MAX then
    (t, .error .idExhausted)
  else
    let cycle := value.generation + 1
    let t := t.setObj r value.nextCycle
    match fault with
    | some (.expiresAt thrown) => (t, .error thrown.error)
    | some (.asyncWait thrown) => (t.cancelWaits r, .error thrown.error)
    | none =>
      let t := t.cancelWaits r
      ({ t with pending := t.pending ++ [(r, cycle)] }, .ok ())

structure Env where
  clock : Readings
  makeShared : Option Thrown
  emplace : Option Thrown
  arm : Option ArmFault
  cancel : Option Thrown

inductive Op where
  | add (interval offset : Nat) (boundary : Bool) (level : Int) (callback userArg : Nat)
  | remove (id : TimerId)
  | setInterval (id : TimerId) (interval : Int)
deriving DecidableEq, Repr

abbrev Reply := Except Error (Option TimerId)

def add (t : Timers) (env : Env) (interval offset : Nat) (boundary : Bool) (level : Int)
    (callback userArg : Nat) : Timers × Reply :=
  if t.nextId = 0 then
    (t, .error .idExhausted)
  else
    match env.makeShared with
    | some thrown => (t, .error thrown.error)
    | none =>
      let value : Entry :=
        { interval := interval, expire := 0, offset := offset, callback := callback,
          userArg := userArg, flags := if boundary then TIMER_BOUNDARY else 0, id := t.nextId,
          level := level, deadline := 0, generation := 0, cancelled := false }
      match advance value true env.clock with
      | .error e => (t, .error e)
      | .ok value =>
        let id := t.nextId
        match env.emplace with
        | some thrown => (t, .error thrown.error)
        | none =>
          if (t.find id).isSome then
            (t, .error .idExhausted)
          else
            let r := t.objCount
            let t := { t.setObj r value with objCount := r + 1, entries := (id, r) :: t.entries }
            match arm t r env.arm with
            | (t, .error e) => (t.erase id, .error e)
            | (t, .ok ()) => ({ t with nextId := (t.nextId + 1) % 2 ^ 64 }, .ok (some id))

def remove (t : Timers) (env : Env) (id : TimerId) : Timers × Reply :=
  match t.find id with
  | none => (t, .error .notFound)
  | some r =>
    let t := t.setObj r (t.obj r).cancel
    match env.cancel with
    | some thrown => (t, .error thrown.error)
    | none => ((t.cancelWaits r).erase id, .ok none)

def setInterval (t : Timers) (env : Env) (id : TimerId) (interval : Int) : Timers × Reply :=
  match t.find id with
  | none => (t, .error .notFound)
  | some r =>
    match advance { t.obj r with interval := interval } true env.clock with
    | .error e => (t, .error e)
    | .ok value =>
      match arm (t.setObj r value) r env.arm with
      | (t, .error e) => ((t.setObj r (t.obj r).cancel).erase id, .error e)
      | (t, .ok ()) => (t, .ok none)

/-- The operation that `invoke` runs on the worker -/
def perform (t : Timers) (env : Env) : Op → Timers × Reply
  | .add interval offset boundary level callback userArg =>
    add t env interval offset boundary level callback userArg
  | .remove id => remove t env id
  | .setInterval id interval => setInterval t env id interval

/-- The arguments that are refused before `invoke` -/
def refused : Op → Bool
  | .add interval _ _ _ callback _ => interval = 0 ∨ interval > LONG_MAX ∨ callback = 0
  | .remove _ => false
  | .setInterval _ interval => interval ≤ 0

def retire (t : Timers) (r : Ref) : Timers :=
  (t.setObj r (t.obj r).clearRunning.cancel).erase (t.obj r).id

/-- What callers and callbacks see: the reply of an operation, and the start of the
callback of a timer for one of its waits -/
inductive Obs where
  | returned (op : Op) (reply : Reply)
  | started (id : TimerId) (wait : Ticket)

/-- The scheduler. `tasks` are the operations posted to the worker with the generation
they were posted under, `frame` is the wait whose callback runs, and the log has its
last entry first. -/
structure Scheduler where
  timers : Timers
  generation : Nat
  started : Bool
  stopped : Bool
  joinable : Bool
  tasks : List (Nat × Op)
  frame : Option Ticket
  log : List Obs

def Scheduler.reply (s : Scheduler) (op : Op) (reply : Reply) : Scheduler :=
  { s with log := .returned op reply :: s.log }

inductive StartFault where
  | atexit
  | thrown (thrown : Thrown)

def start (s : Scheduler) (fault : Option StartFault) : Scheduler :=
  if s.started ∨ s.joinable ∨ s.generation = UINT64_MAX then
    s
  else
    match fault with
    | some .atexit => s
    | some (.thrown _) => { s with generation := s.generation + 1, stopped := true }
    | none =>
      { s with generation := s.generation + 1, stopped := false, joinable := true, started := true }

/-- `invoke` on another thread -/
def call (s : Scheduler) (op : Op) (post : Option Thrown) : Scheduler :=
  if refused op then
    s.reply op (.error .invalidArgument)
  else if ¬ s.started ∨ s.stopped then
    s.reply op (.error .systemFailure)
  else
    match post with
    | some thrown => s.reply op (.error thrown.error)
    | none => { s with tasks := s.tasks ++ [(s.generation, op)] }

/-- `invoke` on the worker, in a callback -/
def callInside (s : Scheduler) (op : Op) (env : Env) : Scheduler :=
  if refused op then
    s.reply op (.error .invalidArgument)
  else if ¬ s.started ∨ s.stopped then
    s.reply op (.error .systemFailure)
  else
    let (timers, reply) := perform s.timers env op
    { s with timers := timers }.reply op reply

def runTask (s : Scheduler) (cycle : Nat) (op : Op) (env : Env) : Scheduler :=
  if cycle ≠ s.generation then
    s.reply op (.error .systemFailure)
  else
    let (timers, reply) := perform s.timers env op
    { s with timers := timers }.reply op reply

def onWait (s : Scheduler) (wait : Ticket) (how : Completion) : Scheduler :=
  let value := s.timers.obj wait.1
  if how = .aborted ∨ value.cancelled ∨ wait.2 ≠ value.generation then
    s
  else if how = .failed then
    { s with timers := retire s.timers wait.1 }
  else
    { s with
      timers := s.timers.setObj wait.1 value.setRunning
      frame := some wait
      log := .started value.id wait :: s.log }

def afterCallback (t : Timers) (wait : Ticket) (again : Int) (env : Env) : Timers :=
  let value := (t.obj wait.1).clearRunning
  let t := t.setObj wait.1 value
  if value.cancelled ∨ wait.2 ≠ value.generation then
    t
  else if again = 0 then
    (t.setObj wait.1 value.cancel).erase value.id
  else
    match advance value false env.clock with
    | .error _ => retire t wait.1
    | .ok value =>
      match arm (t.setObj wait.1 value) wait.1 env.arm with
      | (t, .error _) => retire t wait.1
      | (t, .ok ()) => t

/-- The loop of `stop` over the entries, which `cancel` may leave with an exception
after some of them -/
def cancelAll (t : Timers) : Option Nat → List Ref → Timers
  | _, [] => t
  | none, r :: rest => cancelAll ((t.setObj r (t.obj r).cancel).cancelWaits r) none rest
  | some 0, r :: _ => t.setObj r (t.obj r).cancel
  | some (n + 1), r :: rest =>
    cancelAll ((t.setObj r (t.obj r).cancel).cancelWaits r) (some n) rest

/-- `stop` once the worker has left its loop -/
def finishStop (s : Scheduler) (throws : Option Nat) : Scheduler :=
  let refs := s.timers.entries.map Prod.snd
  let s := { s with timers := cancelAll s.timers throws refs, joinable := false }
  if throws.any (· < refs.length) then
    s
  else
    { s with timers := { s.timers with entries := [] }, started := false }

inductive Event where
  | start (fault : Option StartFault)
  | call (op : Op) (post : Option Thrown)
  | task (i : Nat) (env : Env)
  | complete (i : Nat) (failed : Bool)
  | handler (i : Nat)
  | callInside (op : Op) (env : Env)
  | returns (again : Int) (env : Env)
  | throws
  | stopContext
  | finishStop (throws : Option Nat)

def Scheduler.idle (s : Scheduler) : Bool := s.started ∧ ¬ s.stopped ∧ s.frame = none

/-- One step of a thread or of the event loop. The event loop runs posted tasks and
handlers in any order, each once, and completes a pending wait at any time. `stop` has two
steps, the first of which a failure of the worker takes as well. -/
def step (s : Scheduler) : Event → Option Scheduler
  | .start fault => some (start s fault)
  | .call op post => some (call s op post)
  | .task i env =>
    if s.idle then
      s.tasks[i]?.map fun task =>
        runTask { s with tasks := s.tasks.eraseIdx i } task.1 task.2 env
    else
      none
  | .complete i failed =>
    s.timers.pending[i]?.map fun wait =>
      { s with timers := { s.timers with
          pending := s.timers.pending.eraseIdx i
          completed := s.timers.completed ++ [(wait, if failed then .failed else .expired)] } }
  | .handler i =>
    if s.idle then
      s.timers.completed[i]?.map fun done =>
        onWait { s with timers := { s.timers with completed := s.timers.completed.eraseIdx i } }
          done.1 done.2
    else
      none
  | .callInside op env => s.frame.map fun _ => callInside s op env
  | .returns again env =>
    s.frame.map fun wait =>
      { s with timers := afterCallback s.timers wait again env, frame := none }
  | .throws =>
    s.frame.map fun wait => { s with timers := retire s.timers wait.1, frame := none }
  | .stopContext => if s.started then some { s with stopped := true } else none
  | .finishStop throws =>
    if s.started ∧ s.stopped ∧ s.frame = none then some (finishStop s throws) else none

def Step (s : Scheduler) (e : Event) (s' : Scheduler) : Prop := step s e = some s'

def initial : Scheduler where
  timers :=
    { obj := fun _ => ⟨0, 0, 0, 0, 0, 0, 0, 0, 0, 0, false⟩, objCount := 0, entries := [], nextId := 1,
      pending := [], completed := [] }
  generation := 0
  started := false
  stopped := false
  joinable := false
  tasks := []
  frame := none
  log := []

end Dynamips.Timer
