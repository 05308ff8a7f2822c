import Mathlib.Logic.Function.Basic
import Dynamips.AtmVsar
import Dynamips.Lib.GuestRam

/-! The receive path of the TI1570 of the PA-A1 (dev_pa_a1.c). -/
set_option autoImplicit false

namespace Dynamips.PaA1

open GuestRam
export GuestRam (Ram physmemCopyToVm physmemCopyFromVm)

/-- Indexes into `iregs`. -/
def REG_STATUS : Nat := 0x0001

def REG_IMASK : Nat := 0x0002

def REG_RX_CRING_SIZE : Nat := 0x0006

def REG_TX_PSR_SIZE : Nat := 0x0007

def REG_TX_RX_FIFO : Nat := 0x000C

def REG_RCR_WOI_ADDR : Nat := 0x0082

def REG_RCR_WI_ADDR : Nat := 0x0083

def STAT_CP_RX : BitVec 32 := 0x00000080

def STAT_RX_FRZ : BitVec 32 := 0x00000200

def RCR_SIZE_MASK : BitVec 32 := 0x000003FF

def CTRL_MEM_SIZE : Nat := 0x100000

def RX_DMA_TABLE_OFFSET : Nat := 0x10000

/-- The size of `ti1570_rx_dma_entry_t` -/
def rxDmaEntrySize : Nat := 32

/-- The size of `ti1570_rcr_entry_t` -/
def rcrEntrySize : Nat := 32

/-- The size of `ti1570_rx_buffer_t` -/
def rxBufferSize : Nat := 16

def RX_VPI_ENABLE : BitVec 32 := 0x80000000

def RX_BASE_PTR_MASK : BitVec 32 := 0x7FFF0000

def RX_BASE_PTR_SHIFT : Nat := 16

def RX_VCI_RANGE_MASK : BitVec 32 := 0x0000FFFF

def RX_DMA_ACT : BitVec 32 := 0x80000000

def RX_DMA_RCR_SELECT : BitVec 32 := 0x20000000

def RX_DMA_WAIT_EOP : BitVec 32 := 0x10000000

def RX_DMA_AAL_TYPE_MASK : BitVec 32 := 0x0C000000

def RX_DMA_AAL_AAL5 : BitVec 32 := 0x04000000

def RX_DMA_AAL_CNT : BitVec 32 := 0x08000000

def RX_DMA_FIFO : BitVec 32 := 0x02000000

def RX_DMA_TR_CNT_MASK : BitVec 32 := 0xFFFF0000

def RX_DMA_TR_CNT_SHIFT : Nat := 16

def RX_DMA_CB_LEN_MASK : BitVec 32 := 0x0000FFFF

def RX_DMA_ON : BitVec 32 := 0x80000000

def RX_DMA_FB_PTR_MASK : BitVec 32 := 0x3FFFFFFF

def RX_DMA_FB_INDEX_MASK : BitVec 32 := 0x000000FF

def RX_FBR_BS_MASK : BitVec 32 := 0xFFFF0000

def RX_FBR_BS_SHIFT : Nat := 16

def RX_FBR_RS_MASK : BitVec 32 := 0x0000FC00

def RX_FBR_RS_SHIFT : Nat := 10

def RX_FBR_IDX_MASK : BitVec 32 := 0x000003FF

def RX_BUFPTR_OWN : BitVec 32 := 0x80000000

def RX_BUFPTR_MASK : BitVec 32 := 0x3FFFFFFF

def RX_BUFFER_SOP : BitVec 32 := 0x80000000

def RX_BUFFER_EOP : BitVec 32 := 0x40000000

def RCR_AAL5 : BitVec 32 := 0x04000000

def RCR_VALID : BitVec 32 := 0x80000000

def RCR_OWN : BitVec 32 := 0x80000000

def RCR_ERROR : BitVec 32 := 0x40000000

def HDR_VPI_MASK : BitVec 32 := 0xFFF00000

def HDR_VCI_MASK : BitVec 32 := 0x000FFFF0

def HDR_PTI_MASK : BitVec 32 := 0x0000000E

def HDR_PTI_SHIFT : Nat := 1

structure RxDmaEntry where
  ctrl : BitVec 32
  cbAddr : BitVec 32
  sbAddr : BitVec 32
  cbLen : BitVec 32
  spPtr : BitVec 32
  aal5Crc : BitVec 32
  fbrEntry : BitVec 32

structure RxFbrEntry where
  fbrPtr : BitVec 32
  ringSize : BitVec 32

structure RxBufHolder where
  bufAddr : BitVec 32
  bufSize : BitVec 32
  rxBuf : List (BitVec 32)

/-- The card, as far as it receives, with the memory of its guest. The tables are parts
of the control memory. -/
structure PaA1Rx where
  mem : Ram
  iregs : Nat → BitVec 32
  rxVpiVciDmaTable : Nat → BitVec 32
  rxDmaTable : Nat → RxDmaEntry
  rxFbrTable : Nat → RxFbrEntry
  rcrWiPos : BitVec 32
  rcrWoiPos : BitVec 32
  irq : Bool

namespace PaA1Rx

def setRde (d : PaA1Rx) (i : Nat) (rde : RxDmaEntry) : PaA1Rx :=
  { d with rxDmaTable := Function.update d.rxDmaTable i rde }

def updateIrqStatus (d : PaA1Rx) : PaA1Rx :=
  { d with irq := d.iregs REG_STATUS &&& d.iregs REG_IMASK ≠ 0 }

def setStatus (d : PaA1Rx) (stat : BitVec 32) : PaA1Rx :=
  { d with iregs := Function.update d.iregs REG_STATUS (d.iregs REG_STATUS ||| stat) }

/-! The completion rings. -/

/-- The address of the next entry of the completion ring of a channel. -/
def rcrAddr (d : PaA1Rx) (rde : RxDmaEntry) : BitVec 32 :=
  if hasFlag rde.ctrl RX_DMA_RCR_SELECT then
    d.iregs REG_RCR_WI_ADDR + d.rcrWiPos * BitVec.ofNat 32 rcrEntrySize
  else d.iregs REG_RCR_WOI_ADDR + d.rcrWoiPos * BitVec.ofNat 32 rcrEntrySize

/-- The words of `ti1570_rcr_entry_t` that are written back to the host. -/
def rcrEntry (rde : RxDmaEntry) (atmHdr aal5Trailer errInd : BitVec 32) (fbufValid : Bool) :
    List (BitVec 32) :=
  [atmHdr,
    (if rde.ctrl &&& RX_DMA_AAL_TYPE_MASK = RX_DMA_AAL_AAL5 then RCR_AAL5 else 0) ||| errInd,
    if fbufValid then RCR_VALID ||| rde.spPtr else 0,
    aal5Trailer,
    (rde.fbrEntry &&& RX_DMA_FB_PTR_MASK) ||| (if errInd ≠ 0 then RCR_ERROR else 0),
    0, 0, 0]

/-- The position after one of a ring whose last position is `ringEnd`. -/
def nextPos (pos ringEnd : BitVec 32) : BitVec 32 := if pos = ringEnd then 0 else pos + 1

def advanceRcr (d : PaA1Rx) (rde : RxDmaEntry) : PaA1Rx :=
  if hasFlag rde.ctrl RX_DMA_RCR_SELECT then
    updateIrqStatus (setStatus
      { d with rcrWiPos := nextPos d.rcrWiPos (d.iregs REG_RX_CRING_SIZE &&& RCR_SIZE_MASK) }
      STAT_CP_RX)
  else
    { d with rcrWoiPos :=
        nextPos d.rcrWoiPos ((d.iregs REG_RX_CRING_SIZE >>> 16) &&& RCR_SIZE_MASK) }

def rcrOwned (d : PaA1Rx) (rde : RxDmaEntry) : Bool :=
  hasFlag (physmemCopyU32FromVm d.mem (d.rcrAddr rde + 16).toNat) RCR_OWN

/-- `ti1570_update_rx_cring`, for the channel `i` -/
def updateRxCring (d : PaA1Rx) (i : Nat) (atmHdr aal5Trailer errInd : BitVec 32)
    (fbufValid : Bool) : PaA1Rx :=
  let rde := d.rxDmaTable i
  -- a freeze if the entry belongs to the host
  if d.rcrOwned rde = false then d.setStatus STAT_RX_FRZ
  else
    let entry := (rcrEntry rde atmHdr aal5Trailer errInd fbufValid).flatMap mHton32
    advanceRcr { d.setRde i { rde with ctrl := rde.ctrl &&& ~~~RX_DMA_ACT } with
      mem := physmemCopyToVm d.mem entry (d.rcrAddr rde).toNat } rde

/-! The free buffers. -/

def fbrIndex (rde : RxDmaEntry) : Nat := (rde.fbrEntry &&& RX_DMA_FB_INDEX_MASK).toNat

def fbr (d : PaA1Rx) (rde : RxDmaEntry) : RxFbrEntry := d.rxFbrTable (fbrIndex rde)

def isFifo (rde : RxDmaEntry) : Bool := hasFlag rde.ctrl RX_DMA_FIFO

def bpAddr (d : PaA1Rx) (rde : RxDmaEntry) : BitVec 32 :=
  if isFifo rde then (rde.fbrEntry &&& RX_DMA_FB_PTR_MASK) <<< 2
  else (d.fbr rde).fbrPtr + (((d.fbr rde).ringSize &&& RX_FBR_IDX_MASK) <<< 2)

def bufPtr (d : PaA1Rx) (rde : RxDmaEntry) : BitVec 32 :=
  physmemCopyU32FromVm d.mem (d.bpAddr rde).toNat

def bufSize (d : PaA1Rx) (rde : RxDmaEntry) : BitVec 32 :=
  if isFifo rde then d.iregs REG_TX_PSR_SIZE &&& 0xFFFF
  else ((d.fbr rde).ringSize &&& RX_FBR_BS_MASK) >>> RX_FBR_BS_SHIFT

def bufAddr (d : PaA1Rx) (rde : RxDmaEntry) : BitVec 32 := (d.bufPtr rde &&& RX_BUFPTR_MASK) <<< 2

def nextIndex (ringSize : BitVec 32) : BitVec 32 :=
  let idx := (ringSize &&& RX_FBR_IDX_MASK) + 1
  let entries := (((ringSize &&& RX_FBR_RS_MASK) >>> RX_FBR_RS_SHIFT) <<< 4) + 15 + 1
  if idx = entries then 0 else idx

def takeFromRing (d : PaA1Rx) (rde : RxDmaEntry) : PaA1Rx :=
  { d with
    mem := physmemCopyU32ToVm d.mem (d.bpAddr rde).toNat (d.bufPtr rde &&& ~~~RX_BUFPTR_OWN)
    rxFbrTable := Function.update d.rxFbrTable (fbrIndex rde)
      { d.fbr rde with ringSize :=
          ((d.fbr rde).ringSize &&& ~~~RX_FBR_IDX_MASK) ||| nextIndex (d.fbr rde).ringSize } }

def readRxBuffer (m : Ram) (addr : BitVec 32) : List (BitVec 32) :=
  (List.range 4).map fun k => physmemCopyU32FromVm m (addr.toNat + 4 * k)

def acquireRxBuffer (d : PaA1Rx) (rde : RxDmaEntry) (atmHdr : BitVec 32) :
    Option (PaA1Rx × RxBufHolder) :=
  if hasFlag (d.bufPtr rde) RX_BUFPTR_OWN = false then none
  else
    let addr := d.bufAddr rde
    let taken := if isFifo rde then d else d.takeFromRing rde
    let m := physmemCopyU32ToVm taken.mem (addr.toNat + 4) 0
    some ({ taken with mem := physmemCopyU32ToVm m (addr.toNat + 8) atmHdr },
      { bufAddr := addr
        bufSize := d.bufSize rde
        rxBuf := readRxBuffer taken.mem addr })

def aalType (rde : RxDmaEntry) : BitVec 32 := rde.ctrl &&& RX_DMA_AAL_TYPE_MASK

def insertRxFreeBuf (rde : RxDmaEntry) (rbh : RxBufHolder) : RxDmaEntry :=
  { rde with
    cbAddr := rbh.bufAddr + BitVec.ofNat 32 rxBufferSize
    sbAddr := rbh.bufAddr >>> 2
    cbLen := if aalType rde = RX_DMA_AAL_CNT then rbh.bufSize ||| ((rde.aal5Crc &&& 0xFFFF) <<< 16)
      else rbh.bufSize }

/-! The cells. -/

def hdrPti (atmHdr : BitVec 32) : Nat := ((atmHdr &&& HDR_PTI_MASK) >>> HDR_PTI_SHIFT).toNat

def ptiEop (atmHdr : BitVec 32) : Bool := hdrPti atmHdr = 1 || hdrPti atmHdr = 3

/-- The end of a packet, after a cell was put in the buffer. The count that is left for
the packet is not stored back. -/
def realEop (rde : RxDmaEntry) (atmHdr : BitVec 32) : Bool :=
  if aalType rde = RX_DMA_AAL_CNT then
    ((rde.cbLen &&& RX_DMA_TR_CNT_MASK) >>> RX_DMA_TR_CNT_SHIFT) - 1 = 0
  else ptiEop atmHdr

def payload (cell : List Byte) : List Byte := (cell.drop Atm.hdrSize).take Atm.payloadSize

def bufLen (rde : RxDmaEntry) : BitVec 32 := rde.cbLen &&& RX_DMA_CB_LEN_MASK

def countCell (rde : RxDmaEntry) : RxDmaEntry :=
  { rde with
    cbAddr := rde.cbAddr + BitVec.ofNat 32 Atm.payloadSize
    cbLen := (rde.cbLen &&& ~~~RX_DMA_CB_LEN_MASK) ||| (bufLen rde - 1) }

def ctrlPtr (rde : RxDmaEntry) : Nat := ((rde.sbAddr <<< 2) + 4).toNat

/-- The end of `ti1570_store_rx_cell`: the payload is copied, and the last cell ends the
packet. -/
def putCell (d : PaA1Rx) (i : Nat) (cell : List Byte) : PaA1Rx :=
  let atmHdr := mNtoh32 cell
  let rde := d.rxDmaTable i
  let d := { d.setRde i (countCell rde) with
    mem := physmemCopyToVm d.mem (payload cell) rde.cbAddr.toNat }
  if realEop (countCell rde) atmHdr then
    let val := physmemCopyU32FromVm d.mem (ctrlPtr rde) ||| RX_BUFFER_EOP
    updateRxCring { d with mem := physmemCopyU32ToVm d.mem (ctrlPtr rde) val } i atmHdr
      (mNtoh32 (cell.drop Atm.aal5TrailerPos)) 0 true
  else d

def chainBuffer (d : PaA1Rx) (i : Nat) (rde : RxDmaEntry) (rbh : RxBufHolder) : PaA1Rx :=
  let rde' := insertRxFreeBuf rde rbh
  let val := physmemCopyU32FromVm d.mem (ctrlPtr rde) ||| rde'.sbAddr
  { d.setRde i rde' with mem := physmemCopyU32ToVm d.mem (ctrlPtr rde) val }

def starve (d : PaA1Rx) (i : Nat) : PaA1Rx :=
  d.setRde i { d.rxDmaTable i with ctrl := (d.rxDmaTable i).ctrl ||| RX_DMA_WAIT_EOP }

/-- `ti1570_store_rx_cell`, for the channel `i` -/
def storeRxCell (d : PaA1Rx) (i : Nat) (cell : List Byte) : PaA1Rx :=
  let rde := d.rxDmaTable i
  if hasFlag rde.ctrl RX_DMA_WAIT_EOP then d
  else if bufLen rde = 0 then
    match d.acquireRxBuffer rde (mNtoh32 cell) with
    | none => d.starve i
    | some (d, rbh) => (d.chainBuffer i rde rbh).putCell i cell
  else d.putCell i cell

/-- The DMA entry for a cell. The one for a VCI lies `base + vci` entries from the start of
the control memory. -/
def rxEntry (d : PaA1Rx) (atmHdr : BitVec 32) : Option Nat :=
  let vpi := (atmHdr &&& HDR_VPI_MASK) >>> Atm.hdrVpiShift
  let vci := (atmHdr &&& HDR_VCI_MASK) >>> Atm.hdrVciShift
  let rvdEntry := d.rxVpiVciDmaTable vpi.toNat
  if hasFlag rvdEntry RX_VPI_ENABLE = false then none
  else if vci = 3 ∨ vci = 4 then some 2
  else if hasFlag atmHdr Atm.ptiNetwork then
    match hdrPti atmHdr with
    | 4 | 5 => some 0
    | 6 | 7 => some 1
    | _ => none
  else
    let vciIdx := vci &&& ~~~(d.iregs REG_TX_RX_FIFO >>> 16)
    if vciIdx > rvdEntry &&& RX_VCI_RANGE_MASK then none
    else
      let bptr := (((rvdEntry &&& RX_BASE_PTR_MASK) >>> RX_BASE_PTR_SHIFT) + vci) *
        BitVec.ofNat 32 rxDmaEntrySize
      if bptr.toNat < RX_DMA_TABLE_OFFSET then none
      else some ((bptr.toNat - RX_DMA_TABLE_OFFSET) / rxDmaEntrySize)

def startPacket (d : PaA1Rx) (i : Nat) (rbh : RxBufHolder) : PaA1Rx :=
  let rde := insertRxFreeBuf (d.rxDmaTable i) rbh
  { d.setRde i { rde with spPtr := rde.sbAddr, ctrl := rde.ctrl ||| RX_DMA_ACT } with
    mem := physmemCopyU32ToVm d.mem (ctrlPtr rde) RX_BUFFER_SOP }

/-- `ti1570_handle_rx_cell`, for a channel that is on -/
def receiveCell (d : PaA1Rx) (i : Nat) (cell : List Byte) : PaA1Rx :=
  let rde := d.rxDmaTable i
  if hasFlag rde.ctrl RX_DMA_ACT then d.storeRxCell i cell
  else
    match d.acquireRxBuffer rde (mNtoh32 cell) with
    | none => d.starve i
    | some (d, rbh) => (d.startPacket i rbh).storeRxCell i cell

def handleRxCell (d : PaA1Rx) (cell : List Byte) : PaA1Rx :=
  if cell.length ≠ Atm.cellSize then d
  else
    match d.rxEntry (mNtoh32 cell) with
    | none => d
    | some i =>
      if hasFlag (d.rxDmaTable i).fbrEntry RX_DMA_ON = false then d else d.receiveCell i cell

end PaA1Rx

end Dynamips.PaA1
