import Dynamips.Lib.GuestRam
import Dynamips.Lib.Runs
import Dynamips.Bcm5600Forward

/-! The rings of the BCM5600 and what its frames are copied to
(dev_nm_16esw.c). -/
set_option autoImplicit false

namespace Dynamips.Bcm5600

open GuestRam Runs
export GuestRam (Ram physmemCopyToVm physmemCopyFromVm)

def BCM5600_MAX_PKT_SIZE : Nat := 2048

def BCM5600_MAX_TRUNKS : Nat := 6

def BCM5600_MAX_PORTS_PER_TRUNK : Nat := 8

def BCM5600_TXD_SIZE : BitVec 32 := 32

def BCM5600_TXD_RING_CONT : BitVec 32 := 0x80000000

def BCM5600_TXD_NEOP : BitVec 32 := 0x00040000

def BCM5600_RXD_SIZE : BitVec 32 := 32

def BCM5600_RXD_RING_CONT : BitVec 32 := 0x80000000

/-- A copy of `len` bytes from or to a place of a buffer, or an access to the tables of
a trunk. -/
inductive Use where
  | copy (size offset : Nat) (len : Int)
  | trunk (trunkId nrLinks last : BitVec 32)

def Use.Inside : Use → Prop
  | .copy size offset len => 0 ≤ len ∧ offset + len ≤ size
  | .trunk trunkId nrLinks last => trunkId.toNat < BCM5600_MAX_TRUNKS ∧ nrLinks ≠ 0 ∧
    ((last + 1) % nrLinks).toNat < BCM5600_MAX_PORTS_PER_TRUNK

/-- What is done with a frame: it is sent as it is, goes to the CPU, is rewritten with
a tag pushed or popped, is sent rewritten, or selects a port of a trunk. -/
inductive Act where
  | send
  | cpu (untagged : Bool)
  | rewrite (push : Bool)
  | sendRewritten (push : Bool)
  | trunk (trunkId nrLinks last : BitVec 32)

/-- The copies of `netio_send`, `bcm5600_send_pkt_to_cpu`, `bcm5600_send_pkt_push_dot1q` and
`bcm5600_send_pkt_pop_dot1q`, for `len` bytes in a buffer of `size`. -/
def Act.uses (size len : Nat) : Act → List Use
  | .send => [.copy size 0 len]
  | .cpu false => [.copy size 0 len]
  | .cpu true => [.copy size 0 12, .copy size 12 (len - 12)]
  | .rewrite true => [.copy size 0 12, .copy BCM5600_MAX_PKT_SIZE 0 12, .copy size 12 (len - 12),
      .copy BCM5600_MAX_PKT_SIZE 16 (len - 12)]
  | .rewrite false => [.copy size 0 12, .copy BCM5600_MAX_PKT_SIZE 0 12,
      .copy size 16 (len - 16), .copy BCM5600_MAX_PKT_SIZE 12 (len - 16)]
  | .sendRewritten true => [.copy BCM5600_MAX_PKT_SIZE 0 (len + 4)]
  | .sendRewritten false => [.copy BCM5600_MAX_PKT_SIZE 0 (len - 4)]
  | .trunk trunkId nrLinks last => [.trunk trunkId nrLinks last]

def Act.isCpu : Act → Bool
  | .cpu _ => true
  | _ => false

/-- What is done for the places that a frame is given out to; it is rewritten for the
first port that needs it. -/
def sentActs (p : Pkt) : Bool → List Sent → List Act
  | _, [] => []
  | rewriteDone, .mirror _ _ :: l => .send :: sentActs p rewriteDone l
  | rewriteDone, .cpu _ _ :: l => .cpu p.origVlan.isNone :: sentActs p rewriteDone l
  | rewriteDone, .port i _ :: l =>
    match sendVector p i with
    | .direct => .send :: sentActs p rewriteDone l
    | .pushDot1q => (if rewriteDone then [] else [.rewrite true]) ++
        .sendRewritten true :: sentActs p true l
    | .popDot1q => (if rewriteDone then [] else [.rewrite false]) ++
        .sendRewritten false :: sentActs p true l

def TtrEntry.nrLinks (e : TtrEntry) : BitVec 32 :=
  (e.word1 &&& BCM5600_TTR_TG_SIZE_MASK) >>> BCM5600_TTR_TG_SIZE_SHIFT

/-- The trunk that `bcm5600_dst_mac_lookup` selects a port of, if it is in the table. -/
def trunkActs (d : Nm16esw) (p : Pkt) : List Act :=
  if ethAddrIsMcast p.daddr then []
  else
    match arlLookup d (lookupKey p.daddr p.realVlan) with
    | none => []
    | some i =>
      if (d.arl i).word2 &&& BCM5600_ARL_TRUNK_FLAG = 0 then []
      else
        let trunkId := ((d.arl i).word2 &&& BCM5600_ARL_TGID_MASK) >>> BCM5600_ARL_TGID_SHIFT
        match d.ttrEntry trunkId with
        | none => []
        | some e => [.trunk trunkId e.nrLinks (d.trunkLastEgressPort trunkId.toNat)]

/-- What the forwarding of a frame by its destination does with it. -/
def lookupActs (d : Nm16esw) (p : Pkt) (vlanEntry : VtableEntry) : List Act :=
  trunkActs d p ++
    match dstMacLookup d p vlanEntry with
    | none => []
    | some r => sentActs r.p false (r.sent ++ if r.forward then forwardPkt r.d r.p else [])

/-- What `bcm5600_handle_rx_pkt` does with a frame. -/
def rxActs (d : Nm16esw) (p : Pkt) : List Act :=
  match d.ptableEntry p.ingressPort with
  | none => []
  | some portEntry =>
    let p := p.received portEntry
    match vtableGetEntryByVlan d p.realVlan with
    | none => []
    | some vlanEntry =>
      if isBpdu p.daddr then
        sentActs p false (forwardPkt d { p with egressBitmap := portBit cpuPort })
      else if vlanEntry.word1.getLsbD p.ingressPort.toNat = false then []
      else if p.origVlan = none ∧ portEntry.word0 &&& BCM5600_PTABLE_PRT_DIS_MASK ≠ 0 then []
      else
        (if portEntry.word1 &&& BCM5600_PTABLE_MI_FLAG ≠ 0 then
          sentActs p false (mirrorPkt d p) else []) ++
          match srcMacLearning d p with
          | none => []
          | some (d, p) => lookupActs d p vlanEntry

/-- `bcm5600_handle_tx_pkt`, with what it does with the packet; no state where it does
not return. -/
def handleTxPkt (d : Nm16esw) (p : Pkt) (egressBitmap : BitVec 32) :
    Option Nm16esw × List Act :=
  let p := { p with egressFilterBitmap := portBit p.ingressPort.toNat }
  if egressBitmap.getLsbD 23 then
    if p.etherType ≠ N_ETH_PROTO_DOT1Q then (some d, [])
    else
      let vlan := p.vlanId.setWidth 12
      let p := { p with egressBitmap := 0, origVlan := some vlan, realVlan := vlan }
      match vtableGetEntryByVlan d p.realVlan with
      | none => (some d, [])
      | some vlanEntry =>
        ((dstMacLookup d p vlanEntry).map Decision.d, lookupActs d p vlanEntry)
  else
    let p := { p with origVlan := some 0, egressBitmap := egressBitmap }
    (some d, sentActs p false (forwardPkt d p))

/-- `struct nm_16esw_data`, as far as the rings go. -/
structure RingState where
  sw : Nm16esw
  txCurrent : BitVec 32
  txEndScan : Bool
  txBuffer : Ram
  txBufsize : BitVec 32
  rxCurrent : BitVec 32
  rxEndScan : Bool

def RingState.init : RingState where
  sw := Nm16esw.init
  txCurrent := 0
  txEndScan := false
  txBuffer := fun _ => 0
  txBufsize := 0
  rxCurrent := 0
  rxEndScan := false

/-- What a step leaves and does: the state if it returns, the copies to the transmit
buffer, and what is done with the first `len` bytes of the packet in a buffer. -/
structure Outcome where
  s : Option RingState
  copies : List Use
  acts : List Act
  pkt : List Byte
  len : Nat

def Outcome.idle (s : RingState) : Outcome := ⟨some s, [], [], [], 0⟩

def Outcome.uses (o : Outcome) : List Use :=
  o.copies ++ o.acts.flatMap (Act.uses o.pkt.length o.len)

def RingState.txActive (s : RingState) : Bool := decide (s.txCurrent ≠ 0) && !s.txEndScan

def RingState.tdes (s : RingState) (m : Ram) (i : Nat) : BitVec 32 :=
  physmemCopyU32FromVm m (s.txCurrent.toNat + 4 * i)

def RingState.txdLen (s : RingState) (m : Ram) : BitVec 32 := s.tdes m 1 &&& 0x7FF

def RingState.txdData (s : RingState) (m : Ram) : List Byte :=
  physmemCopyFromVm m (s.tdes m 0).toNat (s.txdLen m).toNat

/-- The end of `dev_bcm5600_handle_txring`. -/
def RingState.nextTxd (s : RingState) (m : Ram) : RingState :=
  if hasFlag (s.tdes m 1) BCM5600_TXD_RING_CONT then
    { s with txCurrent := s.txCurrent + BCM5600_TXD_SIZE }
  else { s with txEndScan := true }

/-- The data of the current TX descriptor is in the transmit buffer. -/
def RingState.bufferTxd (s : RingState) (m : Ram) : RingState :=
  { s with
    txBuffer := physmemCopyToVm s.txBuffer (s.txdData m) s.txBufsize.toNat
    txBufsize := s.txBufsize + s.txdLen m }

def RingState.txPkt (s : RingState) : Pkt where
  pkt := physmemCopyFromVm s.txBuffer 0 BCM5600_MAX_PKT_SIZE
  origVlan := none
  realVlan := 0
  ingressPort := BitVec.ofNat 32 cpuPort
  egressBitmap := 0
  egressUtBitmap := 0
  egressFilterBitmap := 0
  sentToCpu := true

def handleTxring (s : RingState) (m : Ram) : Outcome :=
  if s.txActive = false then .idle s
  else if BCM5600_MAX_PKT_SIZE ≤ (s.txBufsize + s.txdLen m).toNat then .idle (s.nextTxd m)
  else
    let copies := [Use.copy BCM5600_MAX_PKT_SIZE s.txBufsize.toNat (s.txdLen m).toNat]
    let s' := s.bufferTxd m
    if hasFlag (s.tdes m 1) BCM5600_TXD_NEOP then ⟨some (s'.nextTxd m), copies, [], [], 0⟩
    else
      let out := handleTxPkt s'.sw s'.txPkt (s.tdes m 2)
      { s := out.1.map fun sw => { s' with sw := sw, txBufsize := 0 }.nextTxd m
        copies := copies
        acts := out.2
        pkt := s'.txPkt.pkt
        len := (s'.txBufsize - 4).toNat }

def RingState.nextRxd (s : RingState) (rdes1 : BitVec 32) : RingState :=
  if hasFlag rdes1 BCM5600_RXD_RING_CONT then
    { s with rxCurrent := s.rxCurrent + BCM5600_RXD_SIZE }
  else { s with rxEndScan := true }

/-- `dev_bcm5600_handle_rxring`; `stale` is what the receive buffer holds behind the frame. -/
def handleRxring (s : RingState) (m : Ram) (port : Fin nrPort) (frame stale : List Byte) :
    Outcome :=
  if s.rxCurrent = 0 ∨ s.rxEndScan then .idle s
  else
    let rdes1 := physmemCopyU32FromVm m (s.rxCurrent.toNat + 4)
    if (rdes1 &&& 0x7FF).toNat < frame.length then .idle s
    else
      let p : Pkt :=
        { pkt := frame ++ stale
          origVlan := none
          realVlan := 0
          ingressPort := BitVec.ofNat 32 port.val
          egressBitmap := 0
          egressUtBitmap := 0
          egressFilterBitmap := 0
          sentToCpu := false }
      let acts := rxActs s.sw p
      { s := (handleRxPkt s.sw p).1.map fun sw =>
          if acts.any Act.isCpu then { s with sw := sw }.nextRxd rdes1 else { s with sw := sw }
        copies := []
        acts := acts
        pkt := p.pkt
        len := frame.length }

/-- What happens to the rings: the guest puts something in the tables or a ring
somewhere, the transmit ring is scanned, a frame comes in. The guest's memory is
what it is then. -/
inductive RingEvent where
  | tables (sw : Nm16esw)
  | txRing (addr : BitVec 32)
  | rxRing (addr : BitVec 32)
  | scan (m : Ram)
  | frame (m : Ram) (port : Fin nrPort) (frame stale : List Byte)

def ringOutcome (s : RingState) : RingEvent → Outcome
  | .tables sw =>
    .idle { s with sw := { sw with trunkLastEgressPort := s.sw.trunkLastEgressPort } }
  | .txRing addr => .idle { s with txCurrent := addr, txEndScan := false }
  | .rxRing addr => .idle { s with rxCurrent := addr, rxEndScan := false }
  | .scan m => handleTxring s m
  | .frame m port frame stale => handleRxring s m port frame stale

/-- The rings with the bytes of the packet that the guest has begun to give. -/
structure Watched where
  s : RingState
  pending : List Byte

def Watched.collected (w : Watched) (m : Ram) : List Byte := w.pending ++ w.s.txdData m

/-- What is pending after an event. A ring that is put somewhere starts with a packet. -/
def Watched.pendingAfter (w : Watched) : RingEvent → List Byte
  | .txRing _ => []
  | .scan m =>
    if w.s.txActive = false then w.pending
    else if hasFlag (w.s.tdes m 1) BCM5600_TXD_NEOP then w.collected m
    else []
  | _ => w.pending

def ringStep (w : Watched) (e : RingEvent) (w' : Watched) : Prop :=
  (ringOutcome w.s e).s = some w'.s ∧ w'.pending = w.pendingAfter e

/-- The bounds on a frame of `len` bytes for what is done with it; a trunk has links, and
its next one is one of the table. -/
def Act.Fits (size len : Nat) : Act → Prop
  | .send => len ≤ size
  | .cpu untagged => (untagged = true → 12 ≤ len) ∧ len ≤ size
  | .rewrite true => 12 ≤ len ∧ len ≤ 2044 ∧ len ≤ size
  | .rewrite false => 16 ≤ len ∧ len ≤ 2052 ∧ len ≤ size
  | .sendRewritten true => len ≤ 2044
  | .sendRewritten false => 4 ≤ len ∧ len ≤ 2052
  | .trunk _ nrLinks last => nrLinks ≠ 0 ∧
    ((last + 1) % nrLinks).toNat < BCM5600_MAX_PORTS_PER_TRUNK

/-- A ring is put somewhere between two packets, a descriptor fits in the transmit buffer
behind what is there, and a frame has the length for what is done with it. -/
def RingFits (w : Watched) : RingEvent → Prop
  | .tables _ => True
  | .txRing _ => w.s.txBufsize = 0
  | .rxRing _ => True
  | .scan m => w.s.txActive = true →
      (w.s.txBufsize + w.s.txdLen m).toNat < BCM5600_MAX_PKT_SIZE ∧
        (hasFlag (w.s.tdes m 1) BCM5600_TXD_NEOP = false →
          ∀ a ∈ (handleTxPkt w.s.sw (w.s.bufferTxd m).txPkt (w.s.tdes m 2)).2,
            a.Fits BCM5600_MAX_PKT_SIZE (w.s.txBufsize + w.s.txdLen m - 4).toNat)
  | .frame m port frame stale => ∀ a ∈ (handleRxring w.s m port frame stale).acts,
      a.Fits (frame.length + stale.length) frame.length

variable {d : Nm16esw} {p : Pkt} {a : Act} {w : Watched} {e : RingEvent} {m : Ram}
  {size len : Nat}

/-! Trunks are in the tables. -/

/-- Nothing is done with a trunk that is not in the tables. -/
def Act.Known : Act → Prop
  | .trunk trunkId _ _ => trunkId.toNat < BCM5600_MAX_TRUNKS
  | _ => True

theorem inside_iff_fits (h : a.Known) : (∀ u ∈ a.uses size len, u.Inside) ↔ a.Fits size len := by
  cases a with
  | send => simp [Act.uses, Use.Inside, Act.Fits]
  | cpu untagged =>
    cases untagged with
    | true =>
      simp [Act.uses, Use.Inside, Act.Fits]
      omega
    | false => simp [Act.uses, Use.Inside, Act.Fits]
  | rewrite push =>
    cases push
    all_goals
      simp [Act.uses, Use.Inside, Act.Fits, BCM5600_MAX_PKT_SIZE]
      omega
  | sendRewritten push =>
    cases push with
    | true =>
      simp [Act.uses, Use.Inside, Act.Fits, BCM5600_MAX_PKT_SIZE]
      omega
    | false => simp [Act.uses, Use.Inside, Act.Fits, BCM5600_MAX_PKT_SIZE]
  | trunk trunkId nrLinks last =>
    simp only [Act.Known] at h
    simp [Act.uses, Use.Inside, Act.Fits, h]

structure Buffered (w : Watched) : Prop where
  pending : w.pending = physmemCopyFromVm w.s.txBuffer 0 w.s.txBufsize.toNat
  bound : w.s.txBufsize.toNat < BCM5600_MAX_PKT_SIZE

theorem txdLen_le (s : RingState) (m : Ram) : (s.txdLen m).toNat ≤ 0x7FF := by
  rw [RingState.txdLen, BitVec.toNat_and]
  exact Nat.and_le_right

theorem length_txdData (s : RingState) (m : Ram) : (s.txdData m).length = (s.txdLen m).toNat :=
  length_physmemCopyFromVm _ _

theorem Buffered.toNat_add (h : Buffered w) (m : Ram) :
    (w.s.txBufsize + w.s.txdLen m).toNat = w.s.txBufsize.toNat + (w.s.txdLen m).toNat := by
  have hlen := txdLen_le w.s m
  have hbound := h.bound
  simp only [BCM5600_MAX_PKT_SIZE] at hbound
  rw [BitVec.toNat_add]
  omega

theorem Buffered.collect (h : Buffered w) (m : Ram) : w.collected m =
    physmemCopyFromVm (w.s.bufferTxd m).txBuffer 0 (w.s.txBufsize + w.s.txdLen m).toNat := by
  have hold : physmemCopyFromVm (w.s.bufferTxd m).txBuffer 0 w.s.txBufsize.toNat =
      physmemCopyFromVm w.s.txBuffer 0 w.s.txBufsize.toNat :=
    copyFromVm_disjoint (.inl (by omega))
  have hnew : physmemCopyFromVm (w.s.bufferTxd m).txBuffer w.s.txBufsize.toNat
      (w.s.txdLen m).toNat = w.s.txdData m := by
    rw [← length_txdData]
    exact copyFromVm_copyToVm _ _
  rw [h.toNat_add, copyFromVm_append, Nat.zero_add, hold, hnew, Watched.collected, h.pending]

theorem nextTxd_buffer (s : RingState) (m : Ram) :
    (s.nextTxd m).txBuffer = s.txBuffer ∧ (s.nextTxd m).txBufsize = s.txBufsize := by
  rw [RingState.nextTxd]
  split
  · exact ⟨rfl, rfl⟩
  · exact ⟨rfl, rfl⟩

theorem nextRxd_buffer (s : RingState) (rdes1 : BitVec 32) :
    (s.nextRxd rdes1).txBuffer = s.txBuffer ∧ (s.nextRxd rdes1).txBufsize = s.txBufsize := by
  rw [RingState.nextRxd]
  split
  · exact ⟨rfl, rfl⟩
  · exact ⟨rfl, rfl⟩

theorem handleRxring_buffer {s s' : RingState} {port : Fin nrPort} {frame stale : List Byte}
    (h : (handleRxring s m port frame stale).s = some s') :
    s'.txBuffer = s.txBuffer ∧ s'.txBufsize = s.txBufsize := by
  simp only [handleRxring] at h
  split at h
  · cases h
    exact ⟨rfl, rfl⟩
  · split at h
    · cases h
      exact ⟨rfl, rfl⟩
    · obtain ⟨sw, -, hs⟩ := Option.map_eq_some_iff.mp h
      split at hs
      · subst hs
        exact nextRxd_buffer _ _
      · subst hs
        exact ⟨rfl, rfl⟩

theorem Buffered.of_eq {w' : Watched} (h : Buffered w)
    (hs : w'.s.txBuffer = w.s.txBuffer ∧ w'.s.txBufsize = w.s.txBufsize)
    (hp : w'.pending = w.pending) : Buffered w' := by
  constructor
  · rw [hp, hs.1, hs.2, h.pending]
  · rw [hs.2]
    exact h.bound

theorem Buffered.scan {w' : Watched} (h : Buffered w) (hfits : RingFits w (.scan m))
    (hs : (handleTxring w.s m).s = some w'.s) (hp : w'.pending = w.pendingAfter (.scan m)) :
    Buffered w' := by
  obtain ⟨s', pending'⟩ := w'
  simp only [Watched.pendingAfter] at hp
  cases hactive : w.s.txActive with
  | false =>
    rw [handleTxring, if_pos hactive] at hs
    rw [if_pos hactive] at hp
    cases hs
    exact h.of_eq ⟨rfl, rfl⟩ hp
  | true =>
    obtain ⟨hroom, -⟩ := hfits hactive
    rw [handleTxring, if_neg (by rw [hactive]; decide), if_neg (by omega)] at hs
    rw [if_neg (by rw [hactive]; decide)] at hp
    by_cases hneop : hasFlag (w.s.tdes m 1) BCM5600_TXD_NEOP = true
    · simp only [hneop, if_true, Option.some.injEq] at hs hp
      obtain ⟨hbuffer, hsize⟩ := nextTxd_buffer (w.s.bufferTxd m) m
      constructor
      · rw [hp, ← hs, hbuffer, hsize]
        exact h.collect m
      · rw [← hs, hsize]
        exact hroom
    · simp only [hneop] at hs hp
      obtain ⟨sw, -, hsome⟩ := Option.map_eq_some_iff.mp hs
      have hsize := (nextTxd_buffer { w.s.bufferTxd m with sw := sw, txBufsize := 0 } m).2
      rw [hsome] at hsize
      constructor
      · rw [hp, hsize]
        rfl
      · rw [hsize]
        exact Nat.zero_lt_succ _

theorem Buffered.step {w' : Watched} (h : Buffered w) (hfits : RingFits w e)
    (hstep : ringStep w e w') : Buffered w' := by
  obtain ⟨s', pending'⟩ := w'
  obtain ⟨hs, hp⟩ := hstep
  cases e with
  | tables sw =>
    cases hs
    exact h.of_eq ⟨rfl, rfl⟩ hp
  | txRing addr =>
    have hzero : s'.txBufsize = 0 := by
      cases hs
      exact hfits
    constructor
    · rw [hp, hzero]
      rfl
    · rw [hzero]
      decide
  | rxRing addr =>
    cases hs
    exact h.of_eq ⟨rfl, rfl⟩ hp
  | scan m => exact h.scan hfits hs hp
  | frame m port frame stale => exact h.of_eq (handleRxring_buffer hs) hp

/-! What a step does. -/

theorem Outcome.inside {o : Outcome} (hcopies : ∀ u ∈ o.copies, u.Inside)
    (hknown : ∀ a ∈ o.acts, a.Known) (hfits : ∀ a ∈ o.acts, a.Fits o.pkt.length o.len) :
    ∀ u ∈ o.uses, u.Inside := by
  intro u hu
  rw [Outcome.uses, List.mem_append] at hu
  cases hu with
  | inl hu => exact hcopies u hu
  | inr hu =>
    obtain ⟨a, ha, hu⟩ := List.mem_flatMap.mp hu
    exact (inside_iff_fits (hknown a ha)).mpr (hfits a ha) u hu

end Dynamips.Bcm5600
