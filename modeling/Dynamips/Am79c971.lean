import Dynamips.Lib.GuestRam
import Dynamips.Lib.Turns

/-! The receive path of the AM79C971 (dev_am79c971.c). -/
set_option autoImplicit false

namespace Dynamips.Am79c971

open GuestRam Turns
export GuestRam (Ram physmemCopyToVm physmemCopyFromVm)

def AM79C971_MAX_PKT_SIZE : Nat := 2048

def AM79C971_RMD1_OWN : BitVec 32 := 0x80000000

def AM79C971_RMD1_ERR : BitVec 32 := 0x40000000

def AM79C971_RMD1_BUFF : BitVec 32 := 0x08000000

def AM79C971_RMD1_STP : BitVec 32 := 0x02000000

def AM79C971_RMD1_ENP : BitVec 32 := 0x01000000

def AM79C971_RMD1_LEN : BitVec 32 := 0x00000FFF

def AM79C971_RMD2_LEN : BitVec 32 := 0x00000FFF

/-- `struct am79c971_data`, as far as the receive ring goes. `bcr20` is the
register with the software style. -/
structure Am79c971Data where
  rxStart : BitVec 32
  rxL2len : BitVec 32
  rxLen : BitVec 32
  rxPos : BitVec 32
  bcr20 : BitVec 32
deriving DecidableEq

/-- The receive half of `am79c971_update_rx_tx_len`. -/
def Am79c971Data.updateRxTxLen (d : Am79c971Data) : Am79c971Data :=
  let rxLen := (1 : BitVec 32) <<< d.rxL2len.toNat
  { d with rxLen := if 512 < rxLen.toNat then 512 else rxLen }

/-- What the guest does to these registers: stop, the initialization block (its
words 0 and 5), CSR6 and BCR20. -/
inductive RegAccess where
  | stop
  | fetchInitBlock (ib0 ib5 : BitVec 32)
  | csr6 (data : BitVec 32)
  | bcr20 (data : BitVec 32)

def Am79c971Data.access (d : Am79c971Data) : RegAccess → Am79c971Data
  | .stop => { d with rxPos := 0 }
  | .fetchInitBlock ib0 ib5 =>
    { d with rxStart := ib5, rxL2len := (ib0 >>> 20) &&& 0x0F }.updateRxTxLen
  | .csr6 data => { d with rxL2len := (data >>> 8) &&& 0x0F }.updateRxTxLen
  | .bcr20 data => { d with bcr20 := data }

/-- The registers that `dev_am79c971_init` leaves. -/
def Am79c971Data.init : Am79c971Data := ⟨0, 0, 0, 0, 0⟩

structure RxDesc where
  rmd0 : BitVec 32
  rmd1 : BitVec 32
  rmd2 : BitVec 32

/-- `rxdesc_read`; none for an unknown software style, where nothing is read. -/
def rxdescRead (d : Am79c971Data) (m : Ram) (rxdAddr : Nat) : Option RxDesc :=
  let buf (i : Nat) := physmemCopyU32FromVm m (rxdAddr + 4 * i)
  if d.bcr20.setWidth 8 = (2 : BitVec 8) then some ⟨buf 0, buf 1, buf 2⟩
  else if d.bcr20.setWidth 8 = (3 : BitVec 8) then some ⟨buf 2, buf 1, buf 0⟩
  else none

def Am79c971Data.rxdescSetNext (d : Am79c971Data) : Am79c971Data :=
  { d with rxPos := if d.rxPos + 1 = d.rxLen then 0 else d.rxPos + 1 }

def Am79c971Data.rxdescGetCurrent (d : Am79c971Data) : BitVec 32 := d.rxStart + d.rxPos * 16

def bufLen (rmd1 : BitVec 32) : Nat :=
  (~~~((rmd1 &&& AM79C971_RMD1_LEN) - 1) &&& AM79C971_RMD1_LEN).toNat

/-- What was done with a packet. `touched` are the positions of the descriptors
that were read and `filled` those that were used with what went to their buffers. -/
structure RxResult where
  d : Am79c971Data
  mem : Ram
  touched : List Nat
  filled : List (Nat × List Byte)
  complete : Bool

/-- The loop of `am79c971_receive_pkt` before a turn. `rxd0` is the first
descriptor, none while it is the current one. -/
structure RxTurn where
  d : Am79c971Data
  mem : Ram
  rxCurrent : BitVec 32
  rxdc : RxDesc
  rxd0 : Option RxDesc
  pkt : List Byte
  touched : List Nat
  filled : List (Nat × List Byte)

/-- The data of a turn is in its buffer and the ring position has moved. -/
def RxTurn.putPkt (s : RxTurn) : RxTurn :=
  let data := s.pkt.take (bufLen s.rxdc.rmd1)
  { s with
    d := s.d.rxdescSetNext
    mem := physmemCopyToVm s.mem data s.rxdc.rmd0.toNat
    rxdc := if s.rxd0.isNone then s.rxdc
      else { s.rxdc with rmd1 := s.rxdc.rmd1 &&& ~~~AM79C971_RMD1_OWN }
    pkt := s.pkt.drop (bufLen s.rxdc.rmd1)
    filled := s.filled ++ [(s.d.rxPos.toNat, data)] }

def RxTurn.finish (s : RxTurn) (rxStart : BitVec 32) (complete : Bool) : RxResult :=
  let rmd1 := ((s.rxd0.getD s.rxdc).rmd1 &&& ~~~AM79C971_RMD1_OWN) ||| AM79C971_RMD1_STP
  { d := s.d
    mem := physmemCopyU32ToVm s.mem (rxStart + 4).toNat rmd1
    touched := s.touched
    filled := s.filled
    complete := complete }

def RxTurn.endPkt (s : RxTurn) (pktLen : Nat) : RxTurn :=
  let rmd1 := s.rxdc.rmd1 ||| AM79C971_RMD1_ENP
  let rmd2 := (s.rxdc.rmd2 &&& ~~~AM79C971_RMD2_LEN) ||| BitVec.ofNat 32 (pktLen + 4)
  let mem := physmemCopyU32ToVm s.mem (s.rxCurrent + 4).toNat rmd1
  { s with
    rxdc := ⟨s.rxdc.rmd0, rmd1, rmd2⟩
    mem := if s.d.bcr20.setWidth 8 = (2 : BitVec 8) then
        physmemCopyU32ToVm mem (s.rxCurrent + 8).toNat rmd2
      else if s.d.bcr20.setWidth 8 = (3 : BitVec 8) then
        physmemCopyU32ToVm mem s.rxCurrent.toNat rmd2
      else mem }

def RxTurn.noBuffer (s : RxTurn) : RxTurn :=
  let rmd1 := s.rxdc.rmd1 ||| (AM79C971_RMD1_ERR ||| AM79C971_RMD1_BUFF) ||| AM79C971_RMD1_ENP
  { s with
    rxdc := { s.rxdc with rmd1 := rmd1 }
    mem := physmemCopyU32ToVm s.mem (s.rxCurrent + 4).toNat rmd1 }

/-- The current descriptor is stored and the next one becomes the current one;
none for an unknown software style. -/
def RxTurn.next (s : RxTurn) : Option RxTurn :=
  let mem := physmemCopyU32ToVm s.mem (s.rxCurrent + 4).toNat s.rxdc.rmd1
  (rxdescRead s.d mem s.d.rxdescGetCurrent.toNat).map fun rxdn =>
    { s with
      mem := mem
      rxCurrent := s.d.rxdescGetCurrent
      rxdc := rxdn
      rxd0 := some (s.rxd0.getD s.rxdc) }

/-- A turn of the loop of `am79c971_receive_pkt`; none where a descriptor is used
that was not read. -/
def rxTurn (rxStart : BitVec 32) (pktLen : Nat) (s : RxTurn) : Turn RxTurn (Option RxResult) :=
  let s := s.putPkt
  if s.pkt = [] then .stop (some ((s.endPkt pktLen).finish rxStart true))
  else
    let s := { s with touched := s.touched ++ [s.d.rxPos.toNat] }
    let rxdnRmd1 := physmemCopyU32FromVm s.mem (s.d.rxdescGetCurrent + 4).toNat
    if hasFlag rxdnRmd1 AM79C971_RMD1_OWN = false then
      .stop (some (s.noBuffer.finish rxStart false))
    else
      match s.next with
      | none => .stop none
      | some s => .go s

/-- Where the loop starts; none for an unknown software style. -/
def rxStartTurn (d : Am79c971Data) (m : Ram) (pkt : List Byte) : Option RxTurn :=
  (rxdescRead d m d.rxdescGetCurrent.toNat).map fun rxd0 =>
    { d := d, mem := m, rxCurrent := d.rxdescGetCurrent, rxdc := rxd0, rxd0 := none, pkt := pkt,
      touched := [d.rxPos.toNat], filled := [] }

/-- `am79c971_receive_pkt` returns with this result. -/
def ReceivePkt (d : Am79c971Data) (m : Ram) (pkt : List Byte) (r : RxResult) : Prop :=
  ∃ s, rxStartTurn d m pkt = some s ∧
    if hasFlag s.rxdc.rmd1 AM79C971_RMD1_OWN = false then r = ⟨d, m, [d.rxPos.toNat], [], false⟩
    else Returns (rxTurn d.rxdescGetCurrent (min pkt.length AM79C971_MAX_PKT_SIZE)) s (some r)

end Dynamips.Am79c971
