import Dynamips.Utils
import Mathlib.Logic.Function.Basic

/-! The object registry of registry.cppm. Callbacks run with the lock held and
may call the registry again, so a configuration has the stack of the operations
that wait for a callback. Allocations are taken to succeed except in `add`. -/
set_option autoImplicit false

namespace Dynamips.Registry

def REGISTRY_MAX_TYPES : Nat := 256

abbrev ObjectType := Fin REGISTRY_MAX_TYPES

inductive Error where
  | invalidArgument
  | notInitialized
  | notFound
  | duplicate
  | referenceOverflow
  | negativeReferences
  | actionInProgress
  | outOfMemory
deriving DecidableEq, Repr

inductive ActionResult where
  | referenced
  | retained
  | removed
  | executed
deriving DecidableEq, Repr

structure Key where
  name : Option String
  type : Int

abbrev NodeId := Nat

/-- `indexed` is the key that the iterator into the name index points to. -/
structure Node where
  name : String
  data : Nat
  objectType : ObjectType
  refCount : Int
  indexed : String
  linked : Bool
  acting : Bool

structure Bucket where
  names : String → Option NodeId
  newest : List NodeId

/-- `next` is the node that the next allocation returns. -/
structure State where
  initialized : Bool
  types : ObjectType → Bucket
  nodes : NodeId → Node
  next : NodeId

def State.setNode (r : State) (n : NodeId) (value : Node) : State :=
  { r with nodes := Function.update r.nodes n value }

def State.setBucket (r : State) (t : ObjectType) (b : Bucket) : State :=
  { r with types := Function.update r.types t b }

def State.setReferences (r : State) (n : NodeId) (refCount : Int) : State :=
  r.setNode n { r.nodes n with refCount }

def State.setActing (r : State) (n : NodeId) (acting : Bool) : State :=
  r.setNode n { r.nodes n with acting }

def Bucket.erase (b : Bucket) (name : String) : Bucket :=
  { b with names := Function.update b.names name none }

def Bucket.emplace (b : Bucket) (name : String) (n : NodeId) : Bucket :=
  { b with names := Function.update b.names name (some n) }

def State.remove (r : State) (n : NodeId) : State :=
  let value := r.nodes n
  let b := (r.types value.objectType).erase value.indexed
  (r.setNode n { value with linked := false }).setBucket value.objectType
    { b with newest := b.newest.erase n }

/-- `valid`, with the type that it makes sure of. -/
def objectType (type : Int) : Option ObjectType :=
  if h : 0 ≤ type ∧ type < 256 then some ⟨type.toNat, (Int.toNat_lt h.1).mpr h.2⟩ else none

def State.find (r : State) (t : ObjectType) (name : String) : Option NodeId :=
  (r.types t).names name

/-- The checks of `with_entry`. -/
def State.entry (r : State) (object : Key) : Except Error NodeId :=
  match object.name, objectType object.type with
  | some name, some t =>
    if r.initialized then
      match r.find t name with
      | none => .error .notFound
      | some n => .ok n
    else
      .error .notInitialized
  | _, _ => .error .invalidArgument

def decrement (r : State) (n : NodeId) : State × Except Error Unit :=
  let refCount := (r.nodes n).refCount
  if refCount = INT_MIN then
    (r, .error .referenceOverflow)
  else
    let r := r.setReferences n (refCount - 1)
    if refCount - 1 < 0 then (r, .error .negativeReferences) else (r, .ok ())

def increment (r : State) (n : NodeId) : State × Except Error Unit :=
  if (r.nodes n).refCount = INT_MAX then
    (r, .error .referenceOverflow)
  else
    (r.setReferences n ((r.nodes n).refCount + 1), .ok ())

/-- Where an allocation of `add` fails, if one does. -/
inductive AddMemory where
  | available
  | noNode
  | noListNode
deriving DecidableEq, Repr

def Node.make (t : ObjectType) (name : String) (data : Nat) : Node :=
  { name, data, objectType := t, refCount := 1, indexed := name, linked := true, acting := false }

def add (r : State) (object : Key) (data : Nat) (memory : AddMemory) :
    State × Except Error NodeId :=
  match object.name, objectType object.type with
  | some name, some t =>
    if ¬ r.initialized then
      (r, .error .notInitialized)
    else if memory = .noNode then
      (r, .error .outOfMemory)
    else
      match r.find t name with
      | some _ => (r, .error .duplicate)
      | none =>
        let b := (r.types t).emplace name r.next
        if memory = .noListNode then
          (r.setBucket t (b.erase name), .error .outOfMemory)
        else
          let r' := r.setNode r.next (.make t name data)
          ({ r'.setBucket t { b with newest := r.next :: b.newest } with next := r.next + 1 },
            .ok r.next)
  | _, _ => (r, .error .invalidArgument)

def rename (r : State) (object : Key) (newName : Option String) : State × Except Error NodeId :=
  match newName with
  | none => (r, .error .invalidArgument)
  | some newName =>
    match r.entry object with
    | .error e => (r, .error e)
    | .ok n =>
      let value := r.nodes n
      if value.acting then
        (r, .error .actionInProgress)
      else if (r.find value.objectType newName).isSome then
        (r, .error .duplicate)
      else
        let b := ((r.types value.objectType).erase value.indexed).emplace newName n
        ((r.setNode n { value with indexed := newName, name := newName }).setBucket
          value.objectType { b with newest := n :: b.newest.erase n }, .ok n)

def erase (r : State) (n : NodeId) : State × Except Error Unit :=
  let value := r.nodes n
  if value.acting then
    (r, .error .actionInProgress)
  else if value.refCount = INT_MIN then
    (r, .error .referenceOverflow)
  else
    let r := r.setReferences n (value.refCount - 1)
    if value.refCount - 1 ≤ 0 then (r.remove n, .ok ()) else (r, .ok ())

/-- What `run_action` does before its callback. -/
inductive ActionStart where
  | reply (result : Except Error ActionResult)
  | callback (r : State)

def startAction (r : State) (n : NodeId) (maximum : Int) : ActionStart :=
  if (r.nodes n).acting then .reply (.error .actionInProgress)
  else if (r.nodes n).refCount > maximum then .reply (.ok .referenced)
  else .callback (r.setActing n true)

/-- What `run_action` does after its callback. -/
def endAction (r : State) (n : NodeId) (remove accepted : Bool) : State × ActionResult :=
  if remove && accepted then
    ((r.remove n).setActing n false, .removed)
  else
    (r.setActing n false, if accepted then .executed else .retained)

inductive VisitKind where
  | forEach
  | eraseType
deriving DecidableEq, Repr

/-- A `visit` that waits for the callback of `current`. `snapshot`, `visited`
and `stamps` record for the proofs what it started from and went through. -/
structure Visit where
  kind : VisitKind
  current : NodeId
  remaining : List NodeId
  count : Int
  snapshot : List NodeId
  visited : List NodeId
  stamps : NodeId → Nat

inductive Frame where
  | action (n : NodeId) (remove : Bool)
  | visit (v : Visit)

/-- The loop of `visit`, up to the next callback. -/
def visitNext (v : Visit) (r : State) : List NodeId → State × (Visit ⊕ Int)
  | [] => (r, .inr v.count)
  | n :: remaining =>
    if (r.nodes n).linked then
      let v := { v with visited := v.visited ++ [n] }
      match v.kind with
      | .forEach => (r, .inl { v with current := n, remaining })
      | .eraseType =>
        if (r.nodes n).refCount ≠ 0 then
          visitNext v r remaining
        else
          match startAction r n 0 with
          | .reply _ => visitNext v r remaining
          | .callback r => (r, .inl { v with current := n, remaining })
    else
      visitNext v r remaining

def endVisit (r : State) (v : Visit) (accepted : Bool) : State × Visit :=
  match v.kind with
  | .forEach => (r, { v with count := v.count + 1 })
  | .eraseType =>
    let (r, result) := endAction r v.current true accepted
    (r, { v with count := if result = .removed then v.count + 1 else v.count })

inductive Op where
  | init
  | add (object : Key) (data : Nat) (memory : AddMemory)
  | rename (object : Key) (newName : Option String)
  | acquire (object : Key)
  | lookup (object : Key)
  | retain (object : Key)
  | reset (reference : Option NodeId)
  | release (object : Key)
  | erase (object : Key)
  | execute (object : Key) (maximum : Int) (remove : Bool)
  | forEach (type : Int)
  | eraseType (type : Int)

inductive Answer where
  | void
  | data (data : Nat)
  | reference (n : NodeId)
  | action (result : ActionResult)
  | count (count : Int)

/-- `clock` and `stamp` record for the proofs when each node was last put in
front of its list. -/
structure Config where
  registry : State
  stack : List Frame
  clock : Nat
  stamp : NodeId → Nat

def Config.set (c : Config) (registry : State) : Config := { c with registry }

/-- The registry after node `n` was put in front of its list. -/
def Config.linkFirst (c : Config) (registry : State) (n : NodeId) : Config :=
  { c with registry, clock := c.clock + 1, stamp := Function.update c.stamp n c.clock }

def Config.push (c : Config) (registry : State) (f : Frame) : Config :=
  { c with registry, stack := f :: c.stack }

abbrev Reply := Option (Except Error Answer)

/-- A step of an operation on one entry that answers nothing. -/
def Config.onEntry (c : Config) (object : Key) (answer : NodeId → Answer)
    (operation : State → NodeId → State × Except Error Unit) : Config × Reply :=
  match c.registry.entry object with
  | .error e => (c, some (.error e))
  | .ok n =>
    match operation c.registry n with
    | (r, .error e) => (c.set r, some (.error e))
    | (r, .ok ()) => (c.set r, some (.ok (answer n)))

def Config.visit (c : Config) (v : Visit) (r : State) (remaining : List NodeId) : Config × Reply :=
  match visitNext v r remaining with
  | (r, .inl v) => (c.push r (.visit v), none)
  | (r, .inr count) => (c.set r, some (.ok (.count count)))

def Config.startVisit (c : Config) (kind : VisitKind) (type : Int) : Config × Reply :=
  match objectType type with
  | none => (c, some (.error .invalidArgument))
  | some t =>
    if c.registry.initialized then
      let newest := (c.registry.types t).newest
      let snapshot := newest.filterMap fun n => c.registry.find t (c.registry.nodes n).indexed
      c.visit { kind, current := 0, remaining := snapshot, count := 0, snapshot, visited := [],
                stamps := c.stamp } c.registry snapshot
    else
      (c, some (.error .notInitialized))

/-- A call of an operation, up to its reply or to its first callback. -/
def Config.call (c : Config) : Op → Config × Reply
  | .init => (c.set { c.registry with initialized := true }, some (.ok .void))
  | .add object data memory =>
    match add c.registry object data memory with
    | (r, .error e) => (c.set r, some (.error e))
    | (r, .ok n) => (c.linkFirst r n, some (.ok .void))
  | .rename object newName =>
    match rename c.registry object newName with
    | (r, .error e) => (c.set r, some (.error e))
    | (r, .ok n) => (c.linkFirst r n, some (.ok .void))
  | .acquire object => c.onEntry object (fun n => .data (c.registry.nodes n).data) increment
  | .lookup object =>
    c.onEntry object (fun n => .data (c.registry.nodes n).data) fun r _ => (r, .ok ())
  | .retain object => c.onEntry object .reference increment
  | .reset none => (c, some (.ok .void))
  | .reset (some n) =>
    if ¬ c.registry.initialized then
      (c, some (.error .notInitialized))
    else if (c.registry.nodes n).linked then
      match decrement c.registry n with
      | (r, .error e) => (c.set r, some (.error e))
      | (r, .ok ()) => (c.set r, some (.ok .void))
    else
      (c, some (.ok .void))
  | .release object => c.onEntry object (fun _ => .void) decrement
  | .erase object => c.onEntry object (fun _ => .void) erase
  | .execute object maximum remove =>
    match c.registry.entry object with
    | .error e => (c, some (.error e))
    | .ok n =>
      match startAction c.registry n maximum with
      | .reply (.error e) => (c, some (.error e))
      | .reply (.ok result) => (c, some (.ok (.action result)))
      | .callback r => (c.push r (.action n remove), none)
  | .forEach type => c.startVisit .forEach type
  | .eraseType type => c.startVisit .eraseType type

/-- The return of the callback that runs last, up to the reply of its operation
or to its next callback. -/
def Config.resume (c : Config) (accepted : Bool) : Option (Config × Reply) :=
  match c.stack with
  | [] => none
  | .action n remove :: stack =>
    let (r, result) := endAction c.registry n remove accepted
    some ({ c with registry := r, stack }, some (.ok (.action result)))
  | .visit v :: stack =>
    let (r, v) := endVisit c.registry v accepted
    some (({ c with stack } : Config).visit v r v.remaining)

/-- What a client does: it calls an operation, or its callback returns. -/
inductive Action where
  | call (op : Op)
  | resume (accepted : Bool)

def Step (c : Config) (a : Action) (c' : Config) : Prop :=
  match a with
  | .call op => c' = (c.call op).1
  | .resume accepted => ∃ reply, c.resume accepted = some (c', reply)

def Config.initial : Config where
  registry :=
    { initialized := false
      types := fun _ => ⟨fun _ => none, []⟩
      nodes := fun _ => { Node.make ⟨0, by decide⟩ "" 0 with linked := false }
      next := 0 }
  stack := []
  clock := 0
  stamp := fun _ => 0

end Dynamips.Registry
