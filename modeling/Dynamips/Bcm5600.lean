import Dynamips.Lib.Bytes

/-! The tables of the BCM5600 of a NM-16ESW and its address resolution logic
(dev_nm_16esw.c). -/
set_option autoImplicit false

namespace Dynamips.Bcm5600

def BCM5600_VTABLE_VLAN_TAG_MASK : BitVec 32 := 0x00000FFF

def BCM5600_VTABLE_PORT_BMAP_MASK : BitVec 32 := 0x1FFFFFFF

def BCM5600_VTABLE_UT_PORT_BMAP_MASK : BitVec 32 := 0x1FFFFFFF

def BCM5600_PTABLE_VLAN_TAG_MASK : BitVec 32 := 0x00000FFF

def BCM5600_PTABLE_PRT_DIS_MASK : BitVec 32 := 0x000FC000

def BCM5600_PTABLE_TGID_MASK : BitVec 32 := 0x07000000

def BCM5600_PTABLE_TGID_SHIFT : Nat := 24

def BCM5600_PTABLE_TRUNK_FLAG : BitVec 32 := 0x08000000

def BCM5600_PTABLE_MI_FLAG : BitVec 32 := 0x20000000

def BCM5600_ARL_MAC_MSB_MASK : BitVec 32 := 0x0000FFFF

def BCM5600_ARL_VLAN_TAG_MASK : BitVec 32 := 0x0FFF0000

def BCM5600_ARL_VLAN_TAG_SHIFT : Nat := 16

def BCM5600_ARL_CPU_FLAG : BitVec 32 := 0x80000000

def BCM5600_ARL_ST_FLAG : BitVec 32 := 0x00000008

def BCM5600_ARL_HIT_FLAG : BitVec 32 := 0x00000010

def BCM5600_ARL_TRUNK_FLAG : BitVec 32 := 0x00000100

def BCM5600_ARL_TGID_MASK : BitVec 32 := 0x00000E00

def BCM5600_ARL_TGID_SHIFT : Nat := 9

def BCM5600_ARL_PORT_MASK : BitVec 32 := 0x001F8000

def BCM5600_ARL_PORT_SHIFT : Nat := 15

def BCM5600_MARL_PORT_BMAP_MASK : BitVec 32 := 0x1FFFFFFF

def BCM5600_MARL_UT_PORT_BMAP_MASK : BitVec 32 := 0x1FFFFFFF

def BCM5600_TBMAP_MASK : BitVec 32 := 0x0FFFFFFF

/-- The last index of the `arl0` table. -/
def ARL_MAX_INDEX : Nat := 8191

abbrev EthAddr := Fin 6 → BitVec 8

structure ArlEntry where
  word0 : BitVec 32
  word1 : BitVec 32
  word2 : BitVec 32
deriving DecidableEq

/-- The words of a `ptable` entry that frames go by. -/
structure PtableEntry where
  word0 : BitVec 32
  word1 : BitVec 32

structure VtableEntry where
  word0 : BitVec 32
  word1 : BitVec 32
  word2 : BitVec 32

structure MarlEntry where
  word0 : BitVec 32
  word1 : BitVec 32
  word2 : BitVec 32
  word3 : BitVec 32

structure TtrEntry where
  word0 : BitVec 32
  word1 : BitVec 32

/-- `struct nm_16esw_data`, as far as switching goes. -/
structure Nm16esw where
  ptable : Nat → PtableEntry
  vtable : Nat → VtableEntry
  tbmap : Nat → BitVec 32
  ttr : Nat → TtrEntry
  arl : Nat → ArlEntry
  arlCnt : BitVec 32
  marl : Nat → MarlEntry
  trunkLastEgressPort : Nat → BitVec 32
  mirrorDstPort : BitVec 32
  mirrorEgressPorts : BitVec 32

/-- The tables and the ARL count that `dev_nm_16esw_init` leaves. -/
def Nm16esw.init : Nm16esw where
  ptable := fun _ => ⟨0, 0⟩
  vtable := fun _ => ⟨0, 0, 0⟩
  tbmap := fun _ => 0
  ttr := fun _ => ⟨0, 0⟩
  arl := fun _ => ⟨0, 0, 0⟩
  arlCnt := 1
  marl := fun _ => ⟨0, 0, 0, 0⟩
  trunkLastEgressPort := fun _ => 0
  mirrorDstPort := 0
  mirrorEgressPorts := 0

/-- `bcm5600_table_get_entry`, with the bounds of the table. -/
def tableGetEntry {α : Type} (minIndex maxIndex : Nat) (table : Nat → α) (index : BitVec 32) :
    Option α :=
  if index.toNat < minIndex ∨ maxIndex < index.toNat then none else some (table index.toNat)

def Nm16esw.arlEntry (d : Nm16esw) (index : BitVec 32) : Option ArlEntry :=
  tableGetEntry 0 ARL_MAX_INDEX d.arl index

def Nm16esw.ptableEntry (d : Nm16esw) (index : BitVec 32) : Option PtableEntry :=
  tableGetEntry 0 31 d.ptable index

def Nm16esw.tbmapEntry (d : Nm16esw) (index : BitVec 32) : Option (BitVec 32) :=
  tableGetEntry 0 5 d.tbmap index

def Nm16esw.setArl (d : Nm16esw) (index : BitVec 32) (entry : ArlEntry) : Nm16esw :=
  { d with arl := Function.update d.arl index.toNat entry }

structure ArlKey where
  low : BitVec 32
  high : BitVec 32
deriving DecidableEq

def arlKeyMask : BitVec 32 := BCM5600_ARL_VLAN_TAG_MASK ||| BCM5600_ARL_MAC_MSB_MASK

def ArlEntry.key (e : ArlEntry) : ArlKey := ⟨e.word0, e.word1 &&& arlKeyMask⟩

def macLow (mac : EthAddr) : BitVec 32 :=
  (mac 2).setWidth 32 <<< 24 ||| (mac 3).setWidth 32 <<< 16 ||| (mac 4).setWidth 32 <<< 8 |||
    (mac 5).setWidth 32

def macHigh (mac : EthAddr) : BitVec 32 := (mac 0).setWidth 32 <<< 8 ||| (mac 1).setWidth 32

/-- The two words that `bcm5600_gen_arl_lookup` looks for. -/
def lookupKey (mac : EthAddr) (vlan : BitVec 12) : ArlKey :=
  ⟨macLow mac, macHigh mac ||| vlan.setWidth 32 <<< BCM5600_ARL_VLAN_TAG_SHIFT⟩

/-- `bcm5600_gen_arl_lookup` over the indexes of a range, with the first two
words of the entries of its table. -/
def genArlLookup (words : BitVec 32 → Option (BitVec 32 × BitVec 32)) (indexStart indexEnd : Nat)
    (key : ArlKey) : Option Nat :=
  (List.range' indexStart (indexEnd - indexStart)).find? fun i =>
    match words (BitVec.ofNat 32 i) with
    | none => false
    | some w => w.1 == key.low && (w.2 &&& arlKeyMask) == key.high

def arlLookup (d : Nm16esw) (key : ArlKey) : Option Nat :=
  genArlLookup (fun i => (d.arlEntry i).map fun e => (e.word0, e.word1)) 1 (d.arlCnt - 1).toNat key

def marlLookup (d : Nm16esw) (key : ArlKey) : Option Nat :=
  genArlLookup (fun i => (tableGetEntry 1 255 d.marl i).map fun e => (e.word0, e.word1)) 1 256 key

def findFreeArlEntry (d : Nm16esw) : Option (BitVec 32) :=
  if d.arlCnt = BitVec.ofNat 32 ARL_MAX_INDEX then none else some (d.arlCnt - 1)

/-- `bcm5600_insert_arl_entry`, with the data words of the command. -/
def insertArlEntry (d : Nm16esw) (entry : ArlEntry) : Nm16esw :=
  let found := (List.range (d.arlCnt - 1).toNat).find? fun i =>
    match d.arlEntry (BitVec.ofNat 32 i) with
    | none => false
    | some e => e.key == entry.key
  match found with
  | some i => d.setArl (BitVec.ofNat 32 i) entry
  | none =>
    match d.arlEntry (d.arlCnt - 1) with
    | none => d
    | some _ => { d.setArl (d.arlCnt - 1) entry with arlCnt := d.arlCnt + 1 }

/-- The last entry replaces another one and the count goes down, in
`bcm5600_delete_arl_entry` and `bcm5600_arl_ager`. -/
def removeArlEntry (d : Nm16esw) (index : BitVec 32) : Option Nm16esw :=
  (d.arlEntry (d.arlCnt - 2)).map fun last =>
    { d.setArl index last with arlCnt := d.arlCnt - 1 }

/-- The loop of `bcm5600_delete_arl_entry`. -/
def deleteLoop (d : Nm16esw) (key : ArlKey) : List Nat → Nm16esw
  | [] => d
  | i :: rest =>
    match d.arlEntry (BitVec.ofNat 32 i) with
    | none => deleteLoop d key rest
    | some e =>
      if e.key = key then
        match removeArlEntry d (BitVec.ofNat 32 i) with
        | some d' => d'
        | none => deleteLoop d key rest
      else deleteLoop d key rest

/-- `bcm5600_delete_arl_entry`, with the data words of the command. -/
def deleteArlEntry (d : Nm16esw) (dw1 dw2 : BitVec 32) : Nm16esw :=
  deleteLoop d ⟨dw1, dw2 &&& arlKeyMask⟩ (List.range (ARL_MAX_INDEX + 1))

/-- The loop of `bcm5600_arl_ager`. Its index stays where an entry was removed;
each turn takes one entry off the part still to go. None where an assertion
fails. -/
def agerLoop (d : Nm16esw) (i : Nat) : Nat → Option Nm16esw
  | 0 => some d
  | left + 1 =>
    match d.arlEntry (BitVec.ofNat 32 i) with
    | none => none
    | some e =>
      if e.word2 &&& BCM5600_ARL_ST_FLAG ≠ 0 then agerLoop d (i + 1) left
      else if e.word2 &&& BCM5600_ARL_HIT_FLAG = 0 then
        match removeArlEntry d (BitVec.ofNat 32 i) with
        | none => agerLoop d (i + 1) left
        | some d' => agerLoop d' i left
      else
        agerLoop (d.setArl (BitVec.ofNat 32 i)
          { e with word2 := e.word2 &&& ~~~BCM5600_ARL_HIT_FLAG }) (i + 1) left

def arlAger (d : Nm16esw) : Option Nm16esw := agerLoop d 1 ((d.arlCnt - 1).toNat - 1)

/-- `struct bcm5600_pkt`; `origVlan` is none for an untagged frame. -/
structure Pkt where
  pkt : List (BitVec 8)
  origVlan : Option (BitVec 12)
  realVlan : BitVec 12
  ingressPort : BitVec 32
  egressBitmap : BitVec 32
  egressUtBitmap : BitVec 32
  egressFilterBitmap : BitVec 32
  sentToCpu : Bool

def Pkt.daddr (p : Pkt) : EthAddr := fun i => p.pkt.getD i.val 0

def Pkt.saddr (p : Pkt) : EthAddr := fun i => p.pkt.getD (6 + i.val) 0

def ethAddrIsMcast (addr : EthAddr) : Bool := (addr 0).getLsbD 0

def PtableEntry.trunkId (e : PtableEntry) : Option (BitVec 32) :=
  if e.word0 &&& BCM5600_PTABLE_TRUNK_FLAG ≠ 0 then
    some ((e.word0 &&& BCM5600_PTABLE_TGID_MASK) >>> BCM5600_PTABLE_TGID_SHIFT)
  else none

def ArlEntry.port (e : ArlEntry) : BitVec 32 :=
  (e.word2 &&& BCM5600_ARL_PORT_MASK) >>> BCM5600_ARL_PORT_SHIFT

/-- An entry whose source address was seen again, with the trunk of the ingress
port. -/
def ArlEntry.seen (e : ArlEntry) (trunk : Option (BitVec 32 × BitVec 32)) (ingressPort : BitVec 32) :
    ArlEntry :=
  if e.port = ingressPort then { e with word2 := e.word2 ||| BCM5600_ARL_HIT_FLAG }
  else
    let word2 :=
      match trunk with
      | some (_, members) =>
        if members.getLsbD e.port.toNat then e.word2 ||| BCM5600_ARL_HIT_FLAG
        else e.word2 &&& ~~~BCM5600_ARL_HIT_FLAG
      | none => e.word2 &&& ~~~(BCM5600_ARL_TRUNK_FLAG ||| BCM5600_ARL_HIT_FLAG) &&&
          ~~~BCM5600_ARL_TGID_MASK
    { e with word2 := (word2 &&& ~~~BCM5600_ARL_PORT_MASK) |||
        ingressPort <<< BCM5600_ARL_PORT_SHIFT }

def learnedEntry (p : Pkt) (trunk : Option (BitVec 32 × BitVec 32)) : ArlEntry where
  word0 := macLow p.saddr
  word1 := macHigh p.saddr ||| p.realVlan.setWidth 32 <<< BCM5600_ARL_VLAN_TAG_SHIFT
  word2 :=
    let word2 := BCM5600_ARL_HIT_FLAG ||| p.ingressPort <<< BCM5600_ARL_PORT_SHIFT
    match trunk with
    | some (trunkId, _) => word2 ||| BCM5600_ARL_TRUNK_FLAG ||| trunkId <<< BCM5600_ARL_TGID_SHIFT
    | none => word2

/-- The trunk of the ingress port with its members; none where an assertion
fails. -/
def ingressTrunk (d : Nm16esw) (p : Pkt) : Option (Option (BitVec 32 × BitVec 32)) :=
  (d.ptableEntry p.ingressPort).bind fun srcPort =>
    match srcPort.trunkId with
    | none => some none
    | some trunkId => (d.tbmapEntry trunkId).map fun members => some (trunkId, members)

/-- The part of `bcm5600_src_mac_learning` that changes the table; none where an
assertion fails. -/
def learnEntry (d : Nm16esw) (p : Pkt) (trunk : Option (BitVec 32 × BitVec 32)) :
    Option Nm16esw :=
  match arlLookup d (lookupKey p.saddr p.realVlan) with
  | some i =>
    (d.arlEntry (BitVec.ofNat 32 i)).map fun e =>
      d.setArl (BitVec.ofNat 32 i) (e.seen trunk p.ingressPort)
  | none =>
    match findFreeArlEntry d with
    | none => some d
    | some index =>
      (d.arlEntry index).map fun _ =>
        { d.setArl index (learnedEntry p trunk) with arlCnt := d.arlCnt + 1 }

/-- `bcm5600_src_mac_learning`; none where an assertion fails. -/
def srcMacLearning (d : Nm16esw) (p : Pkt) : Option (Nm16esw × Pkt) :=
  if ethAddrIsMcast p.saddr then some (d, p)
  else
    (ingressTrunk d p).bind fun trunk =>
      let p :=
        match trunk with
        | some (_, members) =>
          { p with egressFilterBitmap := p.egressFilterBitmap ||| (members &&& BCM5600_TBMAP_MASK) }
        | none => p
      (learnEntry d p trunk).map fun d => (d, p)

end Dynamips.Bcm5600
