import Dynamips.Lib.Runs
import Mathlib.Logic.Function.Basic

/-! The asynchronous input and output of the virtual terminals (vtty_io.cpp)
and the thread that handles its events (`vtty_thread_main` of dev_vtty.c).

A step is what one thread does under the lock of `terminals`, a part of a
message that the socket takes, or the call of one completion handler. Objects
behind a `shared_ptr` are named by numbers. An endpoint that was destroyed is
inactive, so the weak reference of a channel to its owner always resolves. -/
set_option autoImplicit false

namespace Dynamips.VttyIo

abbrev Byte := BitVec 8

def queue_limit : Nat := 1024 * 1024

/-- The size a buffer of `enqueue` is filled up to -/
def BUFFER_SIZE : Nat := 4096

/-- A call of `async_write` that has not completed: the buffer that its handler
holds, the size it was given, and how much the socket has taken. -/
structure Write where
  buffer : Nat
  size : Nat
  offset : Nat
deriving DecidableEq, Repr

/-- `struct channel`. `buffers` are the vectors made for it, of which `output`
names those in the queue; `failing` is a call of `failed` that waits for the
lock. `wire` is what the socket has taken and `accepted` what `enqueue` has
taken, neither read by any step. -/
structure Channel where
  owner : Nat
  fd : Int
  active : Bool
  ready : Bool
  reading : Bool
  failing : Bool
  pending : Nat
  output : List Nat
  buffers : Nat → List Byte
  allocated : Nat
  writing : List Write
  wire : List Byte
  accepted : List Byte

def Channel.new (owner : Nat) (fd : Int) : Channel where
  owner := owner
  fd := fd
  active := true
  ready := false
  reading := false
  failing := false
  pending := 0
  output := []
  buffers := fun _ => []
  allocated := 0
  writing := []
  wire := []
  accepted := []

/-- What `cancel` does to the channel itself -/
def Channel.cancel (ch : Channel) : Channel :=
  { ch with active := false, output := [], pending := 0 }

/-- The call of `async_write` in `send` -/
def Channel.send (ch : Channel) : Channel :=
  match ch.output with
  | [] => ch
  | b :: _ => { ch with writing := ch.writing ++ [⟨b, (ch.buffers b).length, 0⟩] }

/-- A new buffer at the end of the queue, where `enqueue` makes one -/
def Channel.make (ch : Channel) : Channel :=
  match ch.output.getLast? with
  | none => { ch with output := [ch.allocated], allocated := ch.allocated + 1 }
  | some b =>
    if ch.output.length < 2 ∨ (ch.buffers b).length = BUFFER_SIZE then
      { ch with output := ch.output ++ [ch.allocated], allocated := ch.allocated + 1 }
    else ch

/-- `buffer.insert` of the last buffer -/
def Channel.insert (ch : Channel) (data : List Byte) : Channel :=
  match ch.output.getLast? with
  | none => ch
  | some b =>
    { ch with
      buffers := Function.update ch.buffers b (ch.buffers b ++ data)
      pending := ch.pending + data.length }

def Channel.room (ch : Channel) : Nat :=
  match ch.output.getLast? with
  | none => 0
  | some b => BUFFER_SIZE - (ch.buffers b).length

/-- The loop of `enqueue` -/
def Channel.append : Nat → Channel → List Byte → Channel
  | 0, ch, _ => ch
  | _ + 1, ch, [] => ch
  | n + 1, ch, data =>
    let ch := ch.make
    let size := min data.length ch.room
    append n (ch.insert (data.take size)) (data.drop size)

/-- `enqueue` up to the `cancel` at its end; `none` is a failure. `fault` is an
allocation or an `async_write` that throws. -/
def Channel.enqueue (ch : Channel) (data : List Byte) (fault : Bool) : Option Channel :=
  if ch.active = false then none
  else if queue_limit - ch.pending < data.length then none
  else if fault then none
  else
    let idle := ch.output.isEmpty
    let ch := { ch.append data.length data with accepted := ch.accepted ++ data }
    some (if idle && !ch.output.isEmpty then ch.send else ch)

/-- The socket takes `n` more bytes of the message of the `k`th write. -/
def Channel.transfer (ch : Channel) (k n : Nat) : Option Channel :=
  match ch.writing[k]? with
  | none => none
  | some w =>
    if w.size < w.offset + n then none
    else
      some { ch with
        wire := ch.wire ++ ((ch.buffers w.buffer).drop w.offset).take n
        writing := ch.writing.set k { w with offset := w.offset + n } }

structure Endpoint where
  native : Nat
  active : Bool
  closing : Bool
  channels : List (Int × Nat)
deriving DecidableEq, Repr

/-- `struct input`, the entry of `events` -/
structure Input where
  owner : Nat
  source : Nat
  connected : Bool
  size : Nat
deriving DecidableEq, Repr

/-- Where the thread of the terminals is. It holds the lock of the list from
the check of an event, `handling`, to the end of its turn, `handled`. -/
inductive Phase where
  | ended | idle
  | taken (e : Input)
  | handling (e : Input)
  | handled (e : Input)
deriving DecidableEq, Repr

/-- A `write` that found no room and waits for it: its endpoint, the clients
still to be served, what is left for the first of them, and the data. -/
structure Writer where
  owner : Nat
  clients : List Nat
  remaining : List Byte
  data : List Byte
deriving DecidableEq, Repr

/-- `struct terminals`, with the state of the threads that use it. `removing` is
the `remove` that holds the lock of the list. -/
structure Terminals where
  started : Bool
  running : Bool
  endpoint : Nat → Endpoint
  endpointCount : Nat
  endpoints : List (Nat × Nat)
  channel : Nat → Channel
  channelCount : Nat
  descriptors : Int → Option Nat
  events : List Input
  phase : Phase
  removing : Option (Nat × Nat)
  writers : List Writer

def Terminals.new : Terminals where
  started := false
  running := false
  endpoint := fun _ => ⟨0, false, false, []⟩
  endpointCount := 0
  endpoints := []
  channel := fun _ => Channel.new 0 (-1)
  channelCount := 0
  descriptors := fun _ => none
  events := []
  phase := Phase.ended
  removing := none
  writers := []

/-- `std::map::emplace` -/
def emplace {κ : Type} [LT κ] [DecidableEq κ] [DecidableLT κ] (key : κ) (x : Nat) :
    List (κ × Nat) → List (κ × Nat)
  | [] => [(key, x)]
  | (k, y) :: rest =>
    if key = k then (k, y) :: rest
    else if key < k then (key, x) :: (k, y) :: rest
    else (k, y) :: emplace key x rest

/-- `std::map::erase` -/
def erase {κ : Type} [DecidableEq κ] (key : κ) (m : List (κ × Nat)) : List (κ × Nat) :=
  m.filter fun x => x.1 ≠ key

namespace Terminals

variable (s : Terminals)

def setChannel (c : Nat) (ch : Channel) : Terminals :=
  { s with channel := Function.update s.channel c ch }

def setEndpoint (e : Nat) (x : Endpoint) : Terminals :=
  { s with endpoint := Function.update s.endpoint e x }

/-- `cancel` of a channel -/
def cancel (c : Nat) : Terminals :=
  let ch := s.channel c
  let owner := s.endpoint ch.owner
  { s with
    channel := Function.update s.channel c ch.cancel
    descriptors := Function.update s.descriptors ch.fd none
    endpoint := Function.update s.endpoint ch.owner
      { owner with channels := erase ch.fd owner.channels } }

/-- The loop of `cancel` of an endpoint, for as many channels as it has -/
def cancelChannels (e : Nat) : Nat → Terminals → Terminals
  | 0, s => s
  | n + 1, s =>
    match (s.endpoint e).channels with
    | [] => s
    | x :: _ => cancelChannels e n (s.cancel x.2)

/-- `cancel` of an endpoint -/
def cancelOwner (e : Nat) : Terminals :=
  let owner := s.endpoint e
  cancelChannels e owner.channels.length
    (s.setEndpoint e { owner with active := false, closing := true })

/-- `enqueue`: whether it succeeds, and the state after it -/
def enqueue (c : Nat) (data : List Byte) (fault : Bool) : Bool × Terminals :=
  match (s.channel c).enqueue data fault with
  | some ch => (true, s.setChannel c ch)
  | none => (false, s.cancel c)

def connect (e : Nat) (fd : Int) (ch : Channel) : Terminals :=
  let owner := s.endpoint e
  { s with
    channel := Function.update s.channel s.channelCount ch
    channelCount := s.channelCount + 1
    endpoint := Function.update s.endpoint e
      { owner with channels := emplace fd s.channelCount owner.channels }
    descriptors := Function.update s.descriptors fd (some s.channelCount) }

/-- The channels that `add` makes of descriptors which are no listeners -/
def opened (e : Nat) : List Int → Terminals → Terminals
  | [], s => s
  | fd :: fds, s =>
    opened e fds (s.connect e fd { Channel.new e fd with ready := true, reading := true })

/-- `add`. `fds` are the descriptors it makes channels of before it fails, or
all of them where `configured`; a TCP terminal has none. -/
def add (native : Nat) (fds : List Int) (configured : Bool) : Terminals :=
  if s.started = false ∨ (s.endpoints.lookup native).isSome then s
  else
    let e := s.endpointCount
    let s := opened e fds
      { s.setEndpoint e ⟨native, true, false, []⟩ with
        endpointCount := e + 1, endpoints := emplace native e s.endpoints }
    if configured then s
    else
      let s := s.cancelOwner e
      { s with endpoints := erase native s.endpoints }

/-- The handler of `accept`; `connection` is the new descriptor, and `armed`
whether the next `accept` could be started. -/
def accepted (e : Nat) (connection : Option Int) (armed : Bool) : Terminals :=
  let owner := s.endpoint e
  if owner.active = false ∨ owner.closing then s
  else
    match connection with
    | none => s
    | some fd =>
      let c := s.channelCount
      let s := s.connect e fd { Channel.new e fd with failing := !armed }
      { s with events := s.events ++ [⟨e, c, true, 0⟩] }

/-- The handler of `read`; `size` is `none` for an error. -/
def readDone (c : Nat) (size : Option Nat) : Terminals :=
  let ch := s.channel c
  let owner := s.endpoint ch.owner
  let s := s.setChannel c { ch with reading := false }
  if ch.active = false ∨ owner.active = false ∨ owner.closing then s
  else
    match size with
    | none => s.cancel c
    | some 0 => s.cancel c
    | some size => { s with events := s.events ++ [⟨ch.owner, c, false, size⟩] }

/-- The handler of `send`. `ok` is a write without an error, and `fault` a next
`async_write` that throws. -/
def written (c k : Nat) (ok fault : Bool) : Option Terminals :=
  let ch := s.channel c
  match ch.writing[k]? with
  | none => none
  | some w =>
    let size := (ch.buffers w.buffer).length
    if ok ∧ w.offset ≠ w.size then none
    else
      let ch := { ch with writing := ch.writing.eraseIdx k }
      let s := s.setChannel c ch
      if ch.active = false then some s
      else if ok = false then some (s.cancel c)
      else
        let ch := { ch with pending := ch.pending - size, output := ch.output.tail }
        if ch.output.isEmpty then some (s.setChannel c ch)
        else if fault then some (s.setChannel c { ch with failing := true })
        else some (s.setChannel c ch.send)

def clients (e : Nat) : List Nat :=
  ((s.endpoint e).channels.map Prod.snd).filter fun c => (s.channel c).ready

/-- The loop of `write` where there is room: each client gets the data. -/
def writeAll (data : List Byte) (faults : Nat → Bool) : List Nat → Terminals → Terminals
  | [], s => s
  | c :: cs, s => writeAll data faults cs (s.enqueue c data (faults c)).2

def pressure (data : List Byte) (clients : List Nat) : Bool :=
  queue_limit < data.length ||
    clients.any fun c => queue_limit - (s.channel c).pending < data.length

/-- `write` up to the point where it waits -/
def write (native : Nat) (data : List Byte) (faults : Nat → Bool) : Terminals :=
  match s.endpoints.lookup native with
  | none => s
  | some e =>
    if (s.endpoint e).closing then s
    else if s.pressure data (s.clients e) then
      { s with writers := s.writers ++ [⟨e, s.clients e, data, data⟩] }
    else writeAll data faults (s.clients e) s

def setWriter (i : Nat) (w : Writer) : Terminals :=
  { s with writers := s.writers.set i w }

/-- The next turn of the loops of a `write` that waits: it is enabled where the
first client has room for the next part, or needs no more. -/
def advance (i : Nat) (fault : Bool) : Option Terminals :=
  match s.writers[i]? with
  | none => none
  | some w =>
    match w.clients with
    | [] => some { s with writers := s.writers.eraseIdx i }
    | c :: rest =>
      let next : Writer := { w with clients := rest, remaining := w.data }
      if w.remaining = [] ∨ (s.channel c).active = false ∨ (s.endpoint w.owner).closing then
        some (s.setWriter i next)
      else
        let size := min w.remaining.length BUFFER_SIZE
        if queue_limit - (s.channel c).pending < size then none
        else
          match s.enqueue c (w.remaining.take size) fault with
          | (true, s) => some (s.setWriter i { w with remaining := w.remaining.drop size })
          | (false, s) => some (s.setWriter i next)

/-- A `write` gives its first client up after its time is over. -/
def timeout (i : Nat) : Option Terminals :=
  match s.writers[i]? with
  | none => none
  | some w =>
    match w.clients with
    | [] => none
    | c :: rest =>
      if (s.channel c).active = false ∨ (s.endpoint w.owner).closing ∨
          min w.remaining.length BUFFER_SIZE ≤ queue_limit - (s.channel c).pending then none
      else some ((s.cancel c).setWriter i { w with clients := rest, remaining := w.data })

def write_fd (fd : Int) (data : List Byte) (fault : Bool) : Terminals :=
  match s.descriptors fd with
  | none => s
  | some c => (s.enqueue c data fault).2

def listFree : Bool :=
  s.removing.isNone &&
    match s.phase with
    | Phase.handling _ => false
    | Phase.handled _ => false
    | _ => true

/-- `remove` up to the point where it waits for the output -/
def remove (native : Nat) : Terminals :=
  match s.endpoints.lookup native with
  | none => s
  | some e =>
    { s.setEndpoint e { s.endpoint e with closing := true } with removing := some (native, e) }

/-- The rest of `remove` -/
def removed : Option Terminals :=
  match s.removing with
  | none => none
  | some (native, e) =>
    let s := s.cancelOwner e
    some { s with endpoints := erase native s.endpoints, removing := none }

def stopEndpoints : List (Nat × Nat) → Terminals → Terminals
  | [], s => s
  | x :: rest, s => stopEndpoints rest (s.cancelOwner x.2)

def stop : Terminals :=
  if s.started = false then s
  else { stopEndpoints s.endpoints s with endpoints := [], events := [], started := false }

def io_active (e : Input) : Bool :=
  (s.endpoint e.owner).active && !(s.endpoint e.owner).closing && (s.channel e.source).active

/-- `vtty_io_complete`; `armed` is whether the next read could be started. -/
def complete (e : Input) (armed : Bool) : Terminals :=
  if s.io_active e = false then s
  else
    let ch := s.channel e.source
    let s := s.setChannel e.source { ch with ready := ch.ready || e.connected, reading := armed }
    if armed then s else s.cancel e.source

end Terminals

/-- The steps: of the threads of the emulator, of the event loop, and of the
thread of the terminals. -/
inductive Action where
  | init
  | quit
  | stop
  | add (native : Nat) (fds : List Int) (configured : Bool)
  | remove (native : Nat)
  | removed
  | write (native : Nat) (data : List Byte) (faults : Nat → Bool)
  | advance (i : Nat) (fault : Bool)
  | timeout (i : Nat)
  | write_fd (fd : Int) (data : List Byte) (fault : Bool)
  | accepted (e : Nat) (connection : Option Int) (armed : Bool)
  | readDone (c : Nat) (size : Option Nat)
  | transfer (c k n : Nat)
  | written (c k : Nat) (ok fault : Bool)
  | failed (c : Nat)
  | take
  | check (listed armed : Bool)
  | process
  | complete (armed : Bool)

/-- One step; `none` where it is not possible. -/
def step (s : Terminals) : Action → Option Terminals
  | Action.init =>
    if s.phase = Phase.ended ∧ s.listFree then
      some { s with started := true, running := true, phase := Phase.idle }
    else none
  | Action.quit => if s.listFree then some { s with running := false } else none
  | Action.stop => if s.running then none else some s.stop
  | Action.add native fds configured => some (s.add native fds configured)
  | Action.remove native => if s.listFree then some (s.remove native) else none
  | Action.removed => s.removed
  | Action.write native data faults => some (s.write native data faults)
  | Action.advance i fault => s.advance i fault
  | Action.timeout i => s.timeout i
  | Action.write_fd fd data fault => some (s.write_fd fd data fault)
  | Action.accepted e connection armed =>
    if e < s.endpointCount then some (s.accepted e connection armed) else none
  | Action.readDone c size =>
    if c < s.channelCount ∧ (s.channel c).reading then some (s.readDone c size) else none
  | Action.transfer c k n => ((s.channel c).transfer k n).map (s.setChannel c)
  | Action.written c k ok fault => s.written c k ok fault
  | Action.failed c =>
    if (s.channel c).failing then
      some ((s.setChannel c { s.channel c with failing := false }).cancel c)
    else none
  | Action.take =>
    match s.phase, s.events with
    | Phase.idle, e :: events =>
      if s.started then some { s with events := events, phase := Phase.taken e }
      else some { s with phase := Phase.ended }
    | Phase.idle, [] => if s.started then none else some { s with phase := Phase.ended }
    | _, _ => none
  | Action.check listed armed =>
    match s.phase with
    | Phase.idle =>
      if s.listFree ∧ s.running = false then some { s with phase := Phase.ended } else none
    | Phase.taken e =>
      if s.listFree = false then none
      else if s.running = false then some { s.complete e armed with phase := Phase.ended }
      else if s.io_active e && listed then some { s with phase := Phase.handling e }
      else some { s with phase := Phase.handled e }
    | _ => none
  | Action.process =>
    match s.phase with
    | Phase.handling e => some { s with phase := Phase.handled e }
    | _ => none
  | Action.complete armed =>
    match s.phase with
    | Phase.handled e => some { s.complete e armed with phase := Phase.idle }
    | _ => none

def Reachable (s : Terminals) : Prop :=
  ∃ trace, Runs.Run (fun s a s' => step s a = some s') Terminals.new trace s

end Dynamips.VttyIo
