import Dynamips.ClassBitmap
import Dynamips.Lib.GuestRam
import Dynamips.Lib.Turns

/-! The command and receive units of the i8255x (dev_i8255x.c). -/
set_option autoImplicit false

namespace Dynamips.I8255x

open GuestRam Turns
export GuestRam (Ram physmemCopyToVm physmemCopyFromVm)
open Ilt (normalizeSize)

def I8255X_MAX_PKT_SIZE : Nat := 4096

def I8255X_CONFIG_SIZE : Nat := 6

def I8255X_UCODE_SIZE : Nat := 64

def I8255X_STAT_CNT_SIZE : Nat := 20

def SCB_CMD_SI : BitVec 8 := 0x02

def SCB_CMD_M : BitVec 8 := 0x01

def SCB_INT_MASK : BitVec 8 := 0xF0

def SCB_STAT_CX : BitVec 8 := 0x80

def SCB_STAT_FR : BitVec 8 := 0x40

def SCB_STAT_CNA : BitVec 8 := 0x20

def SCB_STAT_RNR : BitVec 8 := 0x10

def CB_CTRL_EL : BitVec 32 := 0x80000000

def CB_CTRL_S : BitVec 32 := 0x40000000

def CB_CTRL_I : BitVec 32 := 0x20000000

def CB_CTRL_SF : BitVec 32 := 0x00080000

def CB_CTRL_CMD_MASK : BitVec 32 := 0x00070000

def CB_CTRL_CMD_SHIFT : Nat := 16

def CB_CTRL_C : BitVec 32 := 0x00008000

def CB_CTRL_OK : BitVec 32 := 0x00002000

def TXCB_NUM_MASK : BitVec 32 := 0xFF000000

def TXCB_NUM_SHIFT : Nat := 24

def TXCB_BLK_SIZE : BitVec 32 := 0x00003FFF

def RXFD_CTRL_EL : BitVec 32 := 0x80000000

def RXFD_CTRL_S : BitVec 32 := 0x40000000

def RXFD_CTRL_SF : BitVec 32 := 0x00080000

def RXFD_CTRL_C : BitVec 32 := 0x00008000

def RXFD_CTRL_OK : BitVec 32 := 0x00002000

def RXFD_EOF : BitVec 32 := 0x00008000

def RXFD_SIZE_MASK : BitVec 32 := 0x00003FFF

def RXBD_CTRL_EOF : BitVec 32 := 0x00008000

def RXBD_CTRL_F : BitVec 32 := 0x00004000

def STAT_CNT_TX_GOOD : Nat := 0

def STAT_CNT_RX_GOOD : Nat := 9

/-- `CU_STATE_*` -/
inductive CuState where
  | idle
  | suspend
  | lpqAct
  | hqpAct
deriving DecidableEq

/-- `RU_STATE_*` -/
inductive RuState where
  | idle
  | suspend
  | noRes
  | ready
deriving DecidableEq

/-- `struct i8255x_data`, but for the MII registers. `configData` and `microcode` are the
bytes of the words, `irq` is the interrupt line. -/
structure I8255xData where
  cuState : CuState
  ruState : RuState
  cuBase : BitVec 32
  ruBase : BitVec 32
  cuOffset : BitVec 32
  ruOffset : BitVec 32
  scbGptr : BitVec 32
  scbIc : BitVec 8
  scbStatAck : BitVec 8
  statCntAddr : BitVec 32
  iaddr : List Byte
  configData : List Byte
  microcode : List Byte
  statCounters : Nat → BitVec 32
  txBuffer : Nat → Byte
  irq : Bool

/-- What `dev_i8255x_init` leaves. -/
def I8255xData.init : I8255xData where
  cuState := .idle
  ruState := .idle
  cuBase := 0
  ruBase := 0
  cuOffset := 0
  ruOffset := 0
  scbGptr := 0
  scbIc := 0
  scbStatAck := 0
  statCntAddr := 0
  iaddr := List.replicate 6 0
  configData := List.replicate (4 * I8255X_CONFIG_SIZE) 0
  microcode := List.replicate (4 * I8255X_UCODE_SIZE) 0
  statCounters _ := 0
  txBuffer _ := 0
  irq := false

def I8255xData.updateIrqStatus (d : I8255xData) : I8255xData :=
  if d.scbIc &&& SCB_CMD_M ≠ 0 then { d with irq := false }
  else if d.scbIc &&& SCB_CMD_SI ≠ 0 then { d with irq := true }
  else { d with irq := d.scbStatAck &&& (~~~d.scbIc &&& SCB_INT_MASK) ≠ 0 }

def I8255xData.count (d : I8255xData) (i : Nat) : I8255xData :=
  { d with statCounters := fun k => if k = i then d.statCounters k + 1 else d.statCounters k }

def memBswap32 : List Byte → List Byte
  | a :: b :: c :: d :: rest => d :: c :: b :: a :: memBswap32 rest
  | l => l

/-- The bytes that hold `size` of them in whole words. -/
def normLen (size : BitVec 32) : Nat := (normalizeSize size 4 0).toNat

def word (m : Ram) (addr : BitVec 32) (i : Nat) : BitVec 32 :=
  physmemCopyU32FromVm m (addr.toNat + 4 * i)

/-! Transmit. -/

/-- `struct i8255x_cu_action` -/
structure CuAction where
  ctrl : BitVec 32
  linkOffset : BitVec 32
  txbdAddr : BitVec 32
  txbdCount : BitVec 32

def fetchCb (m : Ram) (addr : BitVec 32) : CuAction :=
  ⟨word m addr 0, word m addr 1, word m addr 2, word m addr 3⟩

def txbds (m : Ram) (txbdAddr : BitVec 32) (count : Nat) : List (BitVec 32 × BitVec 32) :=
  (List.range count).map fun i =>
    (word m (txbdAddr + BitVec.ofNat 32 (8 * i)) 0, word m (txbdAddr + BitVec.ofNat 32 (8 * i)) 1)

def txSegs (m : Ram) (cbAddr : BitVec 32) (action : CuAction) : List (BitVec 32 × BitVec 32) :=
  let blkSize := action.txbdCount &&& TXCB_BLK_SIZE
  let count := ((action.txbdCount &&& TXCB_NUM_MASK) >>> TXCB_NUM_SHIFT).toNat
  if hasFlag action.ctrl CB_CTRL_SF = false then [(cbAddr + 0x10, blkSize)]
  else if action.txbdAddr = 0xFFFFFFFF then txbds m (cbAddr + 0x10) count
  else (if blkSize = 0 then [] else [(cbAddr + 0x10, blkSize)]) ++ txbds m action.txbdAddr count

/-- The transmit buffer while a frame is put together. `off` is where the next data
goes, and `copies` are the places and lengths of the data so far. -/
structure TxFill where
  buffer : Nat → Byte
  off : Nat
  copies : List (Nat × Nat)

def TxFill.copy (s : TxFill) (m : Ram) (seg : BitVec 32 × BitVec 32) : TxFill where
  buffer := physmemCopyToVm s.buffer
    (memBswap32 (physmemCopyFromVm m seg.1.toNat (normLen seg.2))) s.off
  off := s.off + seg.2.toNat
  copies := s.copies ++ [(s.off, normLen seg.2)]

def txFill (m : Ram) (buffer : Nat → Byte) (segs : List (BitVec 32 × BitVec 32)) : TxFill :=
  segs.foldl (fun s seg => s.copy m seg) ⟨buffer, 0, []⟩

/-- `dev_i8255x_send_tx_pkt`, with the frame that is sent. -/
def I8255xData.sendTxPkt (d : I8255xData) (m : Ram) (cbAddr : BitVec 32) (action : CuAction) :
    I8255xData × List Byte :=
  let fill := txFill m d.txBuffer (txSegs m cbAddr action)
  ({ d with txBuffer := fill.buffer }.count STAT_CNT_TX_GOOD,
    physmemCopyFromVm fill.buffer 0 (BitVec.ofNat 32 fill.off).toNat)

/-! The command unit. -/

/-- What a list of command blocks did: the blocks that were executed and the frames that
were sent. -/
structure CuPass where
  d : I8255xData
  mem : Ram
  executed : List (BitVec 32)
  sent : List (List Byte)

def processCb (s : CuPass) (cbAddr : BitVec 32) (action : CuAction) : CuPass :=
  let cmd := ((action.ctrl &&& CB_CTRL_CMD_MASK) >>> CB_CTRL_CMD_SHIFT).toNat
  let from8 (n : Nat) := memBswap32 (physmemCopyFromVm s.mem (cbAddr + 0x08).toNat (4 * n))
  let (d, sent) : I8255xData × List (List Byte) :=
    match cmd with
    | 1 =>
      let tmp (i : BitVec 32) := physmemCopyU32FromVm s.mem (cbAddr + i).toNat
      ({ s.d with iaddr := (mHton32 (tmp 0x08)).reverse ++ ((mHton32 (tmp 0x0c)).reverse).take 2 },
        [])
    | 2 => ({ s.d with configData := from8 I8255X_CONFIG_SIZE }, [])
    | 4 =>
      let r := s.d.sendTxPkt s.mem cbAddr action
      (r.1, [r.2])
    | 5 => ({ s.d with microcode := from8 I8255X_UCODE_SIZE }, [])
    | _ => (s.d, [])
  { d := d
    mem := physmemCopyU32ToVm s.mem cbAddr.toNat (action.ctrl ||| CB_CTRL_C ||| CB_CTRL_OK)
    executed := s.executed ++ [cbAddr]
    sent := s.sent ++ sent }

def I8255xData.raise (d : I8255xData) (stat : BitVec 8) : I8255xData :=
  { d with scbStatAck := d.scbStatAck ||| stat }

def I8255xData.cbAddr (d : I8255xData) : BitVec 32 := d.cuBase + d.cuOffset

def CuPass.exec (s : CuPass) : CuPass :=
  let action := fetchCb s.mem s.d.cbAddr
  let s := processCb s s.d.cbAddr action
  if hasFlag action.ctrl CB_CTRL_I then { s with d := s.d.raise SCB_STAT_CX } else s

def I8255xData.rest (d : I8255xData) (cuState : CuState) : I8255xData :=
  ({ d with cuState := cuState }.raise SCB_STAT_CNA).updateIrqStatus

/-- A turn of the loop of `dev_i8255x_process_cbl`. -/
def cblTurn (s : CuPass) : Turn CuPass CuPass :=
  let action := fetchCb s.mem s.d.cbAddr
  if hasFlag action.ctrl CB_CTRL_EL then .stop { s.exec with d := s.exec.d.rest .idle }
  else if hasFlag action.ctrl CB_CTRL_S then .stop { s.exec with d := s.exec.d.rest .suspend }
  else .go { s.exec with d := { s.exec.d with cuOffset := action.linkOffset } }

/-- `dev_i8255x_process_cbl` returns with this result, from an offset on. -/
def ProcessCbl (d : I8255xData) (m : Ram) (cuOffset : BitVec 32) (r : CuPass) : Prop :=
  Returns cblTurn ⟨{ d with cuOffset := cuOffset, cuState := .lpqAct }, m, [], []⟩ r

def CuResume (d : I8255xData) (m : Ram) (r : CuPass) : Prop :=
  let action := fetchCb m d.cbAddr
  if d.cuState = .idle ∨ hasFlag action.ctrl CB_CTRL_S then r = ⟨d, m, [], []⟩
  else ProcessCbl d m action.linkOffset r

def dumpStatCnt (d : I8255xData) (m : Ram) : Ram :=
  physmemCopyToVm m ((List.range I8255X_STAT_CNT_SIZE).flatMap fun i => mHton32 (d.statCounters i))
    d.statCntAddr.toNat

def ProcessCuCmd (d : I8255xData) (m : Ram) (cuc : Nat) (r : CuPass) : Prop :=
  match cuc with
  | 1 => ProcessCbl d m d.scbGptr r
  | 2 => CuResume d m r
  | 4 => r = ⟨{ d with statCntAddr := d.scbGptr }, m, [], []⟩
  | 5 => r = ⟨d, dumpStatCnt d m, [], []⟩
  | 6 => r = ⟨{ d with cuBase := d.scbGptr }, m, [], []⟩
  | 7 => r = ⟨{ d with statCounters := fun _ => 0 }, dumpStatCnt d m, [], []⟩
  | _ => r = ⟨d, m, [], []⟩

/-! The receive unit. -/

/-- `struct i8255x_rxfd` -/
structure RxFd where
  ctrl : BitVec 32
  linkOffset : BitVec 32
  rxbdAddr : BitVec 32
  rxbdSize : BitVec 32

def fetchRxfd (m : Ram) (addr : BitVec 32) : RxFd :=
  ⟨word m addr 0, word m addr 1, word m addr 2, word m addr 3⟩

/-- `struct i8255x_rxbd` -/
structure RxBd where
  ctrl : BitVec 32
  rxbdNext : BitVec 32
  bufAddr : BitVec 32
  bufSize : BitVec 32

def fetchRxbd (m : Ram) (addr : BitVec 32) : RxBd :=
  ⟨word m addr 0, word m addr 1, word m addr 2, word m addr 3⟩

def RxBd.room (rxbd : RxBd) : Nat := (rxbd.bufSize &&& RXFD_SIZE_MASK).toNat

/-- The loop of `dev_i8255x_store_rx_pkt` before a turn. `buf` is the buffer that the
packet came in, `off` where its rest starts, and `used` are the descriptors with the
bytes that went to their buffers. -/
structure StoreTurn where
  mem : Ram
  buf : Nat → Byte
  off : Nat
  totLen : Nat
  rxbd : RxBd
  used : List (BitVec 32 × BitVec 32 × Nat)

/-- A buffer gets what is left of the packet, as far as there is room. -/
def StoreTurn.put (s : StoreTurn) (rxbdAddr : BitVec 32) : StoreTurn :=
  let rxbd := fetchRxbd s.mem rxbdAddr
  let clen := min s.totLen rxbd.room
  let data := memBswap32 (physmemCopyFromVm s.buf s.off (normLen (BitVec.ofNat 32 clen)))
  let ctrl :=
    if s.totLen - clen = 0 then
      (rxbd.ctrl ||| RXBD_CTRL_EOF) ||| (RXBD_CTRL_F ||| BitVec.ofNat 32 (clen + 4))
    else rxbd.ctrl ||| (RXBD_CTRL_F ||| BitVec.ofNat 32 clen)
  { mem := physmemCopyU32ToVm (physmemCopyToVm s.mem data rxbd.bufAddr.toNat) rxbdAddr.toNat ctrl
    buf := physmemCopyToVm s.buf data s.off
    off := s.off + clen
    totLen := s.totLen - clen
    rxbd := { rxbd with ctrl := ctrl }
    used := s.used ++ [(rxbdAddr, rxbd.bufAddr, clen)] }

/-- A turn of the loop; the address of the descriptor is the same for all of them. -/
def storeTurn (rxbdAddr : BitVec 32) (s : StoreTurn) : Turn StoreTurn StoreTurn :=
  if 0 < (s.put rxbdAddr).totLen then .go (s.put rxbdAddr) else .stop (s.put rxbdAddr)

/-- What became of a packet: the frame descriptors that were filled and the buffers. -/
structure RuPass where
  d : I8255xData
  mem : Ram
  filled : List (BitVec 32)
  used : List (BitVec 32 × BitVec 32 × Nat)

/-- The frame descriptor is given back and the unit goes on, or stops. -/
def updateRxfd (d : I8255xData) (m : Ram) (rxfdAddr : BitVec 32) (rxfd : RxFd) (pktLen : Nat)
    (used : List (BitVec 32 × BitVec 32 × Nat)) : RuPass :=
  let rxbdSize := (rxfd.rxbdSize &&& ~~~0xFFFF) ||| (RXFD_EOF ||| BitVec.ofNat 32 (pktLen + 4))
  let d := (d.count STAT_CNT_RX_GOOD).raise SCB_STAT_FR
  { d := I8255xData.updateIrqStatus <|
      if hasFlag rxfd.ctrl RXFD_CTRL_EL then { d with ruState := .noRes }.raise SCB_STAT_RNR
      else if hasFlag rxfd.ctrl RXFD_CTRL_S then { d with ruState := .suspend }.raise SCB_STAT_RNR
      else { d with ruOffset := rxfd.linkOffset }
    mem := physmemCopyU32ToVm
      (physmemCopyU32ToVm m rxfdAddr.toNat (rxfd.ctrl ||| (RXFD_CTRL_C ||| RXFD_CTRL_OK)))
      (rxfdAddr + 0x0c).toNat rxbdSize
    filled := [rxfdAddr]
    used := used }

/-- `dev_i8255x_store_rx_pkt` returns with this result. -/
def StoreRxPkt (d : I8255xData) (m : Ram) (buf : Nat → Byte) (pktLen : Nat) (r : RuPass) : Prop :=
  let rxfdAddr := d.ruBase + d.ruOffset
  let rxfd := fetchRxfd m rxfdAddr
  if hasFlag rxfd.ctrl RXFD_CTRL_SF = false then
    let data := memBswap32 (physmemCopyFromVm buf 0 (normLen (BitVec.ofNat 32 pktLen)))
    r = updateRxfd d (physmemCopyToVm m data (rxfdAddr + 0x10).toNat) rxfdAddr rxfd pktLen []
  else
    ∃ s, Returns (storeTurn (d.ruBase + rxfd.rxbdAddr)) ⟨m, buf, 0, pktLen, ⟨0, 0, 0, 0⟩, []⟩ s ∧
      r = updateRxfd d (physmemCopyU32ToVm s.mem (d.ruBase + rxfd.linkOffset + 0x08).toNat
        (d.ruBase + s.rxbd.rxbdNext)) rxfdAddr rxfd pktLen s.used

def I8255xData.ruResume (d : I8255xData) (m : Ram) : I8255xData :=
  let rxfd := fetchRxfd m (d.ruBase + d.ruOffset)
  if d.ruState ≠ .ready ∨ hasFlag rxfd.ctrl RXFD_CTRL_S then d
  else { d with ruOffset := rxfd.linkOffset, ruState := .ready }

def I8255xData.processRuCmd (d : I8255xData) (m : Ram) (ruc : Nat) : I8255xData :=
  match ruc with
  | 1 => { d with ruOffset := d.scbGptr, ruState := .ready }
  | 2 => d.ruResume m
  | 6 => { d with ruBase := d.scbGptr }
  | _ => d

def HandleRxring (d : I8255xData) (m : Ram) (buf : Nat → Byte) (pktLen : Nat) (r : RuPass) : Prop :=
  if d.ruState = .ready then StoreRxPkt d m buf pktLen r else r = ⟨d, m, [], []⟩

end Dynamips.I8255x
