import Dynamips.Bcm5600

/-! The forwarding of a received frame by the BCM5600 (dev_nm_16esw.c). -/
set_option autoImplicit false

namespace Dynamips.Bcm5600

def BCM5600_TTR_TG_SIZE_MASK : BitVec 32 := 0x003C0000

def BCM5600_TTR_TG_SIZE_SHIFT : Nat := 18

def BCM5600_MIRROR_ENABLE : BitVec 32 := 0x40

def BCM5600_MIRROR_PORT_MASK : BitVec 32 := 0x3F

def N_ETH_PROTO_DOT1Q : BitVec 16 := 0x8100

/-- `nr_port`, as `dev_nm_16esw_init` sets it. -/
def nrPort : Nat := 16

/-- `cpu_port`, as `dev_nm_16esw_init` sets it. -/
def cpuPort : Nat := 27

abbrev Frame := List (BitVec 8)

def portBit (i : Nat) : BitVec 32 := (1 : BitVec 32) <<< i

/-- What the switch gives out: to a port, to the mirror port or to the CPU. -/
inductive Sent where
  | port (i : Nat) (frame : Frame)
  | mirror (i : Nat) (frame : Frame)
  | cpu (ingressPort : BitVec 32) (frame : Frame)
deriving DecidableEq

def Pkt.half (p : Pkt) (offset : Nat) : BitVec 16 :=
  (p.pkt.getD offset 0).append (p.pkt.getD (offset + 1) 0)

def Pkt.etherType (p : Pkt) : BitVec 16 := p.half 12

def Pkt.vlanId (p : Pkt) : BitVec 16 := p.half 14

def dot1qTag (vlan : BitVec 12) : Frame :=
  [0x81, 0x00, (vlan >>> 8).setWidth 8, vlan.setWidth 8]

def Pkt.pushDot1q (p : Pkt) : Frame := p.pkt.take 12 ++ dot1qTag p.realVlan ++ p.pkt.drop 12

def Pkt.popDot1q (p : Pkt) : Frame := p.pkt.take 12 ++ p.pkt.drop 16

def mirrorPkt (d : Nm16esw) (p : Pkt) : List Sent :=
  if d.mirrorDstPort &&& BCM5600_MIRROR_ENABLE = 0 then []
  else
    let mport := d.mirrorDstPort &&& BCM5600_MIRROR_PORT_MASK
    if mport.toNat < 32 then [.mirror mport.toNat p.pkt] else []

def sendPktToCpu (p : Pkt) : Pkt × List Sent :=
  if p.sentToCpu then (p, [])
  else
    let frame := if p.origVlan = none then p.pushDot1q else p.pkt
    ({ p with sentToCpu := true }, [.cpu p.ingressPort frame])

structure TgInfo where
  index : Nat
  mask : BitVec 32
  shift : Nat

def tgInfo : List TgInfo :=
  [⟨0, 0x0000003F, 0⟩, ⟨0, 0x00000FC0, 6⟩, ⟨0, 0x0003F000, 12⟩, ⟨0, 0x00FC0000, 18⟩,
    ⟨0, 0x3F000000, 24⟩, ⟨1, 0x0000003F, 0⟩, ⟨1, 0x00000FC0, 6⟩, ⟨1, 0x0003F000, 12⟩]

def TgInfo.port (tgi : TgInfo) (e : TtrEntry) : BitVec 32 :=
  ((if tgi.index = 0 then e.word0 else e.word1) &&& tgi.mask) >>> tgi.shift

def Nm16esw.ttrEntry (d : Nm16esw) (index : BitVec 32) : Option TtrEntry :=
  tableGetEntry 0 5 d.ttr index

/-- `bcm5600_trunk_egress_port`; none where the assertion fails, for a trunk
without links, and past the end of `tg_info`. -/
def trunkEgressPort (d : Nm16esw) (trunkId : BitVec 32) : Option (Nm16esw × BitVec 32) :=
  (d.ttrEntry trunkId).bind fun ttrEntry =>
    let nrLinks := (ttrEntry.word1 &&& BCM5600_TTR_TG_SIZE_MASK) >>> BCM5600_TTR_TG_SIZE_SHIFT
    if nrLinks = 0 then none
    else
      let portId := (d.trunkLastEgressPort trunkId.toNat + 1) % nrLinks
      tgInfo[portId.toNat]?.map fun tgi =>
        ({ d with
            trunkLastEgressPort := Function.update d.trunkLastEgressPort trunkId.toNat portId },
          tgi.port ttrEntry)

/-- What `bcm5600_dst_mac_lookup` leaves and returns. -/
structure Decision where
  d : Nm16esw
  p : Pkt
  sent : List Sent
  forward : Bool

def flood (d : Nm16esw) (p : Pkt) (vlanEntry : VtableEntry) : Decision where
  d := d
  p := { p with
    egressBitmap := (vlanEntry.word1 &&& BCM5600_VTABLE_PORT_BMAP_MASK) ||| portBit cpuPort
    egressUtBitmap := vlanEntry.word2 &&& BCM5600_VTABLE_UT_PORT_BMAP_MASK }
  sent := []
  forward := true

def cpuCopy (p : Pkt) (word1 : BitVec 32) : Pkt × List Sent :=
  if word1 &&& BCM5600_ARL_CPU_FLAG ≠ 0 then sendPktToCpu p else (p, [])

def arlEgressPort (d : Nm16esw) (e : ArlEntry) : Option (Nm16esw × BitVec 32) :=
  if e.word2 &&& BCM5600_ARL_TRUNK_FLAG ≠ 0 then
    trunkEgressPort d ((e.word2 &&& BCM5600_ARL_TGID_MASK) >>> BCM5600_ARL_TGID_SHIFT)
  else some (d, e.port)

/-- A unicast destination that was found. The shift of `1 << egress_port` is
that of a 32-bit processor word. -/
def unicast (d : Nm16esw) (p : Pkt) (vlanEntry : VtableEntry) (e : ArlEntry) : Option Decision :=
  (arlEgressPort d e).map fun r =>
    let egressBitmap := portBit (r.2.toNat % 32)
    { d := r.1
      p := { (cpuCopy p e.word1).1 with
        egressBitmap := egressBitmap
        egressUtBitmap := vlanEntry.word2 &&& BCM5600_VTABLE_UT_PORT_BMAP_MASK }
      sent := (cpuCopy p e.word1).2
      forward := decide (egressBitmap ≠ 0) }

def multicast (d : Nm16esw) (p : Pkt) (e : MarlEntry) : Decision where
  d := d
  p := { (cpuCopy p e.word1).1 with
    egressBitmap := e.word2 &&& BCM5600_MARL_PORT_BMAP_MASK
    egressUtBitmap := e.word3 &&& BCM5600_MARL_UT_PORT_BMAP_MASK }
  sent := (cpuCopy p e.word1).2
  forward := decide (e.word2 &&& BCM5600_MARL_PORT_BMAP_MASK ≠ 0)

/-- `bcm5600_dst_mac_lookup`; none where it does not return. -/
def dstMacLookup (d : Nm16esw) (p : Pkt) (vlanEntry : VtableEntry) : Option Decision :=
  if ethAddrIsMcast p.daddr then
    match marlLookup d (lookupKey p.daddr p.realVlan) with
    | none => some (flood d p vlanEntry)
    | some i => some (multicast d p (d.marl i))
  else
    match arlLookup d (lookupKey p.daddr p.realVlan) with
    | none => some (flood d p vlanEntry)
    | some i => unicast d p vlanEntry (d.arl i)

inductive SendPkt where
  | direct
  | pushDot1q
  | popDot1q

def sendVector (p : Pkt) (i : Nat) : SendPkt :=
  match p.origVlan with
  | none => if p.egressUtBitmap.getLsbD i then .direct else .pushDot1q
  | some vlan =>
    if vlan = 0 then .direct else if p.egressUtBitmap.getLsbD i then .popDot1q else .direct

/-- The frame that is sent, and the packet that was rewritten before if any. -/
def SendPkt.send (p : Pkt) (rewrPkt : Option Frame) : SendPkt → Frame × Option Frame
  | .direct => (p.pkt, rewrPkt)
  | .pushDot1q => (rewrPkt.getD p.pushDot1q, some (rewrPkt.getD p.pushDot1q))
  | .popDot1q => (rewrPkt.getD p.popDot1q, some (rewrPkt.getD p.popDot1q))

/-- The members of the trunk of a port; none where an assertion fails. -/
def portTrunk (d : Nm16esw) (i : Nat) : Option (BitVec 32) :=
  (d.ptableEntry (BitVec.ofNat 32 i)).bind fun dstPort =>
    match dstPort.trunkId with
    | none => some 0
    | some trunkId => d.tbmapEntry trunkId

/-- The loop of `bcm5600_forward_pkt`, which ends where an assertion fails. -/
def forwardLoop (d : Nm16esw) (p : Pkt) :
    List Nat → BitVec 32 → Option Frame → List (Nat × Frame)
  | [], _, _ => []
  | i :: rest, egressBitmap, rewrPkt =>
    if egressBitmap.getLsbD i = false then forwardLoop d p rest egressBitmap rewrPkt
    else
      match portTrunk d i with
      | none => []
      | some trunk =>
        let out := (sendVector p i).send p rewrPkt
        (i, out.1) :: forwardLoop d p rest (egressBitmap &&& ~~~trunk) out.2

def forwardPkt (d : Nm16esw) (p : Pkt) : List Sent :=
  let egressBitmap := p.egressBitmap &&& ~~~p.egressFilterBitmap
  if egressBitmap = 0 then []
  else
    (if egressBitmap &&& d.mirrorEgressPorts ≠ 0 then mirrorPkt d p else []) ++
      (if egressBitmap.getLsbD cpuPort then (sendPktToCpu p).2 else []) ++
        (forwardLoop d p (List.range nrPort) egressBitmap none).map fun x => .port x.1 x.2

def isBpdu (m : EthAddr) : Bool :=
  let addr := List.ofFn m
  addr == [0x01, 0x00, 0x0c, 0xcc, 0xcc, 0xcd] ||
    (addr.take 5 == [0x01, 0x80, 0xc2, 0x00, 0x00] && (m (Fin.last 5) &&& 0xF0) == 0) ||
      addr == [0x01, 0x00, 0x0c, 0xcc, 0xcc, 0xcc]

def vtableGetEntryByVlan (d : Nm16esw) (vlan : BitVec 12) : Option VtableEntry :=
  ((List.range' 1 255).find? fun i =>
    ((d.vtable i).word0 &&& BCM5600_VTABLE_VLAN_TAG_MASK) == vlan.setWidth 32).map d.vtable

def Pkt.received (p : Pkt) (portEntry : PtableEntry) : Pkt :=
  let vlan := p.vlanId.setWidth 12
  { p with
    egressBitmap := 0
    egressFilterBitmap := portBit p.ingressPort.toNat
    origVlan := if p.etherType = N_ETH_PROTO_DOT1Q then some vlan else none
    realVlan := if p.etherType = N_ETH_PROTO_DOT1Q then vlan
      else (portEntry.word0 &&& BCM5600_PTABLE_VLAN_TAG_MASK).setWidth 12 }

/-- The part of `bcm5600_handle_rx_pkt` after the checks of the frame. -/
def switchPkt (d : Nm16esw) (p : Pkt) (vlanEntry : VtableEntry) : Option Nm16esw × List Sent :=
  match srcMacLearning d p with
  | none => (none, [])
  | some (d, p) =>
    match dstMacLookup d p vlanEntry with
    | none => (none, [])
    | some r => (some r.d, r.sent ++ if r.forward then forwardPkt r.d r.p else [])

/-- `bcm5600_handle_rx_pkt`; no state where it does not return. -/
def handleRxPkt (d : Nm16esw) (p : Pkt) : Option Nm16esw × List Sent :=
  match d.ptableEntry p.ingressPort with
  | none => (some d, [])
  | some portEntry =>
    let p := p.received portEntry
    match vtableGetEntryByVlan d p.realVlan with
    | none => (some d, [])
    | some vlanEntry =>
      if isBpdu p.daddr then (some d, forwardPkt d { p with egressBitmap := portBit cpuPort })
      else if vlanEntry.word1.getLsbD p.ingressPort.toNat = false then (some d, [])
      else if p.origVlan = none ∧ portEntry.word0 &&& BCM5600_PTABLE_PRT_DIS_MASK ≠ 0 then
        (some d, [])
      else
        let out := switchPkt d p vlanEntry
        (out.1, (if portEntry.word1 &&& BCM5600_PTABLE_MI_FLAG ≠ 0 then mirrorPkt d p else []) ++
          out.2)

end Dynamips.Bcm5600
