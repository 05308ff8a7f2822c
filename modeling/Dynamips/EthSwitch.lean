import Dynamips.Utils
import Mathlib.Data.Fintype.Basic

/-! The virtual Ethernet switch of eth_switch.c: the tagging rules, the packet
path and the control operations. Memory is taken to be available. -/
set_option autoImplicit false

namespace Dynamips.Ethsw

def ETHSW_MAX_NIO : Nat := 64

def nEthHlen : Nat := 14

def nEthProtoDot1q : BitVec 16 := 0x8100

def nEthProtoDot1q2 : BitVec 16 := 0x9100

def nEthProtoDot1q3 : BitVec 16 := 0x9200

def nEthProtoDot1q4 : BitVec 16 := 0x88A8

/-- `vlan_port_type`; `unset` is the zero of a fresh descriptor. -/
inductive PortType where
  | unset
  | access
  | dot1q
  | qinq
  | isl
deriving DecidableEq, Repr

/-- The three functions that `vlan_input_vector` can point to. -/
inductive InputVector where
  | access
  | dot1q
  | qinq
deriving DecidableEq, Repr

def PortType.vector : PortType → Option InputVector
  | .access => some .access
  | .dot1q => some .dot1q
  | .qinq => some .qinq
  | _ => none

/-- The address of a `netio_desc_t`. -/
abbrev NioPtr := Nat

/-- Only `netio_create` and the three `set_*_port` write the port fields: the
vector always goes with the type, and no port is ever made an ISL port. -/
structure NetioDesc where
  name : String
  vlanPortType : PortType
  vlanId : BitVec 16
  vlanInputVector : Option InputVector
  ethertype : BitVec 16
  vector_eq : vlanInputVector = vlanPortType.vector
  not_isl : vlanPortType ≠ .isl

abbrev EthAddr := List Byte

structure EthswMacEntry where
  nio : Option NioPtr
  macAddr : EthAddr
  vlanId : BitVec 16
  live : vlanId ≠ 0 → nio ≠ none

structure EthswTable where
  nio : Fin ETHSW_MAX_NIO → Option NioPtr
  macAddrTable : BitVec 12 → EthswMacEntry

/-- `pkt` is the receive buffer, of which the frame is the first `pktLen` bytes. -/
structure EthswPacket where
  pkt : List Byte
  pktLen : Nat
  inputPort : NioPtr
  inputVlan : BitVec 16
  inputTag : Bool

/-- One call of `netio_send`. There is no frame when the length given to the
copy that builds it wraps below zero. -/
structure NetioSend where
  port : NioPtr
  frame : Option (List Byte)
deriving DecidableEq, Repr

abbrev Netios := NioPtr → NetioDesc

def EthswPacket.daddr (sp : EthswPacket) : EthAddr := sp.pkt.take 6

def EthswPacket.saddr (sp : EthswPacket) : EthAddr := (sp.pkt.drop 6).take 6

def EthswPacket.frame (sp : EthswPacket) : List Byte := sp.pkt.take sp.pktLen

def ethswHashIndex (addr : EthAddr) (vlanId : BitVec 16) : BitVec 12 :=
  (mNtoh16 addr ^^^ mNtoh16 (addr.drop 2) ^^^ mNtoh16 (addr.drop 4) ^^^ vlanId).setWidth 12

def EthswMacEntry.zero : EthswMacEntry :=
  { nio := none, macAddr := List.replicate 6 0, vlanId := 0, live := fun h => absurd rfl h }

def ethswInvalidate (t : EthswTable) : EthswTable :=
  { t with macAddrTable := fun _ => .zero }

def ethswInvalidatePort (t : EthswTable) (nio : NioPtr) : EthswTable :=
  { t with macAddrTable := fun i =>
      let entry := t.macAddrTable i
      if entry.nio = some nio then
        { nio := none, macAddr := entry.macAddr, vlanId := 0, live := fun h => absurd rfl h }
      else
        entry }

/-- The tag carries the input VLAN: the source never reads `vlan`. -/
def dot1qPushTag (sp : EthswPacket) (_vlan : BitVec 16) (ethertype : BitVec 16) : List Byte :=
  sp.pkt.take 12 ++ mHton16 ethertype ++ mHton16 sp.inputVlan ++ sp.frame.drop 12

def dot1qPopTag (sp : EthswPacket) : Option (List Byte) :=
  if 16 ≤ sp.pktLen then some (sp.pkt.take 12 ++ sp.frame.drop 16) else none

def ethswIvAccess (m : Netios) (sp : EthswPacket) (op : NioPtr) : List NetioSend :=
  match (m op).vlanPortType with
  | .access => [⟨op, some sp.frame⟩]
  | .dot1q =>
    if (m op).vlanId = sp.inputVlan then
      [⟨op, some sp.frame⟩]
    else
      [⟨op, some (dot1qPushTag sp (m op).vlanId (m sp.inputPort).ethertype)⟩]
  | _ => []

def ethswIvDot1q (m : Netios) (sp : EthswPacket) (op : NioPtr) : List NetioSend :=
  if !sp.inputTag then
    ethswIvAccess m sp op
  else
    match (m op).vlanPortType with
    | .access => [⟨op, dot1qPopTag sp⟩]
    | .dot1q =>
      if (m op).vlanId = sp.inputVlan then [⟨op, dot1qPopTag sp⟩] else [⟨op, some sp.frame⟩]
    | .qinq => if (m op).vlanId = sp.inputVlan then [⟨op, dot1qPopTag sp⟩] else []
    | _ => []

def ethswIvQinq (m : Netios) (sp : EthswPacket) (op : NioPtr) : List NetioSend :=
  match (m op).vlanPortType with
  | .dot1q =>
    [⟨op, some (dot1qPushTag sp (m sp.inputPort).vlanId (m sp.inputPort).ethertype)⟩]
  | .qinq =>
    if (m sp.inputPort).vlanId = (m op).vlanId then [⟨op, dot1qPopTag sp⟩] else []
  | _ => []

def InputVector.run : InputVector → Netios → EthswPacket → NioPtr → List NetioSend
  | .access => ethswIvAccess
  | .dot1q => ethswIvDot1q
  | .qinq => ethswIvQinq

def ethswFloodPort (m : Netios) (sp : EthswPacket) (iv : InputVector) :
    Option NioPtr → List NetioSend
  | none => []
  | some op =>
    if op = sp.inputPort then []
    else if (m op).vlanPortType = .access ∧ (m op).vlanId ≠ sp.inputVlan then []
    else iv.run m sp op

/-- No result when the assertion on the input vector fails. -/
def ethswFlood (m : Netios) (t : EthswTable) (sp : EthswPacket) : Option (List NetioSend) :=
  match (m sp.inputPort).vlanInputVector with
  | none => none
  | some iv =>
    some ((List.finRange ETHSW_MAX_NIO).flatMap fun i => ethswFloodPort m sp iv (t.nio i))

def ethswLearn (t : EthswTable) (sp : EthswPacket) : EthswTable :=
  let hIndex := ethswHashIndex sp.saddr sp.inputVlan
  let entry : EthswMacEntry :=
    { nio := some sp.inputPort, vlanId := sp.inputVlan, macAddr := sp.saddr,
      live := fun _ => Option.some_ne_none _ }
  { t with macAddrTable := Function.update t.macAddrTable hIndex entry }

def ethAddrIsMcast (addr : EthAddr) : Bool := (addr.getD 0 0).getLsbD 0

/-- What is sent once the source address is learned. No result when an
assertion fails or the port of a matching entry is NULL. -/
def ethswForwardTo (m : Netios) (t : EthswTable) (sp : EthswPacket) : Option (List NetioSend) :=
  let entry := t.macAddrTable (ethswHashIndex sp.daddr sp.inputVlan)
  if ethAddrIsMcast sp.daddr then
    ethswFlood m t sp
  else if entry.macAddr ≠ sp.daddr ∨ entry.vlanId ≠ sp.inputVlan then
    ethswFlood m t sp
  else if entry.nio ≠ some sp.inputPort then
    match (m sp.inputPort).vlanInputVector, entry.nio with
    | some iv, some op => some (iv.run m sp op)
    | _, _ => none
  else
    some []

def ethswForward (m : Netios) (t : EthswTable) (sp : EthswPacket) :
    Option (EthswTable × List NetioSend) :=
  (ethswForwardTo m (ethswLearn t sp) sp).map fun out => (ethswLearn t sp, out)

def isDot1qEthertype (ethertype : BitVec 16) : Bool :=
  ethertype = nEthProtoDot1q ∨ ethertype = nEthProtoDot1q2 ∨ ethertype = nEthProtoDot1q3 ∨
    ethertype = nEthProtoDot1q4

def ethAddrIsCiscoIsl (addr : List Byte) : Bool := addr.take 5 = [0x01, 0x00, 0x0c, 0x00, 0x00]

def ethLlcCheckSnap (llc : List Byte) : Bool := llc.take 3 = [0xAA, 0xAA, 0x03]

/-- The input VLAN and tag flag of a frame; `none` when it is dropped with an error. -/
def ethswInputVlan (nio : NetioDesc) (pkt : List Byte) (pktLen : Nat) :
    Option (BitVec 16 × Bool) :=
  if pktLen < nEthHlen then
    none
  else
    match nio.vlanPortType with
    | .access => some (nio.vlanId, false)
    | .dot1q =>
      if isDot1qEthertype (mNtoh16 (pkt.drop 12)) then
        some (mNtoh16 (pkt.drop 14) &&& 0xFFF, true)
      else
        some (nio.vlanId, false)
    | .qinq =>
      if isDot1qEthertype (mNtoh16 (pkt.drop 12)) then some (nio.vlanId, false) else none
    | .isl =>
      if ethAddrIsCiscoIsl pkt && ethLlcCheckSnap (pkt.drop 14) then
        some (mNtoh16 (pkt.drop 20) >>> 1, false)
      else
        some (0, false)
    | .unset => none

def ethswReceive (m : Netios) (t : EthswTable) (nio : NioPtr) (pkt : List Byte) (pktLen : Nat) :
    Option (EthswTable × List NetioSend) :=
  match ethswInputVlan (m nio) pkt pktLen with
  | none => some (t, [])
  | some (inputVlan, inputTag) =>
    if inputVlan ≠ 0 then
      ethswForward m t { pkt, pktLen, inputPort := nio, inputVlan, inputTag }
    else
      some (t, [])

/-- `set_access_port`; the VLAN is stored in 16 bits. -/
def setAccessPort (nio : NetioDesc) (vlanId : BitVec 32) : NetioDesc :=
  { nio with
    vlanPortType := .access, vlanId := vlanId.setWidth 16, vlanInputVector := some .access,
    vector_eq := rfl, not_isl := PortType.noConfusion,
    ethertype := nEthProtoDot1q }

def setDot1qPort (nio : NetioDesc) (nativeVlan : BitVec 32) : NetioDesc :=
  { nio with
    vlanPortType := .dot1q, vlanId := nativeVlan.setWidth 16, vlanInputVector := some .dot1q,
    vector_eq := rfl, not_isl := PortType.noConfusion,
    ethertype := nEthProtoDot1q }

def setQinqPort (nio : NetioDesc) (outerVlan : BitVec 32) (ethertype : BitVec 16) : NetioDesc :=
  { nio with
    vlanPortType := .qinq, vlanId := outerVlan.setWidth 16, vlanInputVector := some .qinq,
    vector_eq := rfl, not_isl := PortType.noConfusion,
    ethertype := ethertype }

/-- The switch with what it shares with the rest of the program: the
descriptors, the NIO names of the registry with their reference counts, the
references of the receive listeners that call this switch, and the NIOs that a
removal has taken out of the table and not freed yet. -/
structure System where
  netio : Netios
  table : EthswTable
  registry : String → Option NioPtr
  refCount : NioPtr → Int
  rxl : NioPtr → Nat
  removing : List NioPtr

def findSlot (t : EthswTable) (p : Option NioPtr → Bool) : Option (Fin ETHSW_MAX_NIO) :=
  (List.finRange ETHSW_MAX_NIO).find? fun i => p (t.nio i)

def System.setNetio (s : System) (nio : NioPtr) (d : NetioDesc) : System :=
  { s with netio := Function.update s.netio nio d }

def System.setSlot (s : System) (i : Fin ETHSW_MAX_NIO) (nio : Option NioPtr) : System :=
  { s with table := { s.table with nio := Function.update s.table.nio i nio } }

def System.addRef (s : System) (nio : NioPtr) (n : Int) : System :=
  { s with refCount := Function.update s.refCount nio (s.refCount nio + n) }

/-- `netio_acquire`: the descriptor of that name, with one more reference. -/
def netioAcquire (s : System) (name : String) : Option (NioPtr × System) :=
  match s.registry name with
  | none => none
  | some nio =>
    if s.refCount nio = INT_MAX then none else some (nio, s.addRef nio 1)

def netioRxlAdd (s : System) (nio : NioPtr) : System :=
  { s with rxl := Function.update s.rxl nio (s.rxl nio + 1) }

def netioRxlRemove (s : System) (nio : NioPtr) : System :=
  { s with rxl := Function.update s.rxl nio (s.rxl nio - 1) }

def netioRelease (s : System) (name : String) : System :=
  match s.registry name with
  | none => s
  | some nio => if s.refCount nio = INT_MIN then s else s.addRef nio (-1)

def ethswAddNetio (s : System) (nioName : String) : System × Int :=
  match findSlot s.table (·.isNone) with
  | none => (s, -1)
  | some i =>
    match netioAcquire s nioName with
    | none => (s, -1)
    | some (nio, s) =>
      (netioRxlAdd ((s.setNetio nio (setAccessPort (s.netio nio) 1)).setSlot i (some nio)) nio, 0)

/-- The part of `ethsw_remove_netio` that holds the lock. -/
def ethswRemoveNetio (s : System) (nioName : String) : System × Int :=
  match s.registry nioName with
  | none => (s, -1)
  | some nio =>
    match findSlot s.table (· = some nio) with
    | none => (s, -1)
    | some i =>
      let s := { s with table := ethswInvalidatePort s.table nio, removing := nio :: s.removing }
      (s.setSlot i none, 0)

def ethswFreeNio (s : System) (nio : NioPtr) : System :=
  let s := netioRxlRemove { s with removing := s.removing.erase nio } nio
  netioRelease s (s.netio nio).name

def ethswClearMacAddrTable (s : System) : System :=
  { s with table := ethswInvalidate s.table }

/-- The port that the loops of the three `ethsw_set_*_port` stop at. -/
def portNamed (s : System) (nioName : String) : Option NioPtr :=
  (List.finRange ETHSW_MAX_NIO).findSome? fun i =>
    (s.table.nio i).filter fun nio => (s.netio nio).name = nioName

def setPort (s : System) (nioName : String) (set : NetioDesc → NetioDesc) : System × Int :=
  match portNamed s nioName with
  | none => (s, -1)
  | some nio => (s.setNetio nio (set (s.netio nio)), 0)

def ethswSetAccessPort (s : System) (nioName : String) (vlanId : BitVec 32) : System × Int :=
  setPort s nioName (setAccessPort · vlanId)

def ethswSetDot1qPort (s : System) (nioName : String) (nativeVlan : BitVec 32) : System × Int :=
  setPort s nioName (setDot1qPort · nativeVlan)

def ethswSetQinqPort (s : System) (nioName : String) (outerVlan : BitVec 32)
    (ethertype : BitVec 16) : System × Int :=
  if isDot1qEthertype ethertype then
    setPort s nioName (setQinqPort · outerVlan ethertype)
  else
    (s, -1)

def NetioDesc.zero (name : String) : NetioDesc where
  name := name
  vlanPortType := .unset
  vlanId := 0
  vlanInputVector := none
  ethertype := 0
  vector_eq := rfl
  not_isl := PortType.noConfusion

def netioCreate (s : System) (nio : NioPtr) (name : String) : System :=
  { s with
    netio := Function.update s.netio nio (.zero name)
    registry := Function.update s.registry name (some nio)
    refCount := Function.update s.refCount nio 1 }

def netioDelete (s : System) (name : String) : System :=
  { s with registry := Function.update s.registry name none }

/-- `ethsw_create` over NIOs that the program already has. -/
def ethswCreate (netio : Netios) (registry : String → Option NioPtr) (refCount : NioPtr → Int) :
    System where
  netio := netio
  table := { nio := fun _ => none, macAddrTable := fun _ => .zero }
  registry := registry
  refCount := refCount
  rxl := fun _ => 0
  removing := []

end Dynamips.Ethsw
