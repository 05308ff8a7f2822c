import Dynamips.RxRing
import Dynamips.TxRing

/-! The channels of the Mueslix serial controller (dev_mueslix.c). -/
set_option autoImplicit false

namespace Dynamips.Mueslix

open GuestRam
export GuestRam (Ram physmemCopyToVm physmemCopyFromVm)

def MUESLIX_TX_ENABLE : BitVec 32 := 0x01

def MUESLIX_RX_ENABLE : BitVec 32 := 0x02

def MUESLIX_TX_IRQ : BitVec 32 := 0x01

def MUESLIX_RX_IRQ : BitVec 32 := 0x10

def MUESLIX_CHANNEL_LEN : Nat := 0x100

def MUESLIX_TPU_CMD_OFFSET : Nat := 0x2c24

def MUESLIX_TPU_CMD_RSP_OFFSET : Nat := 0x2c2c

def MUESLIX_MAX_PKT_SIZE : Nat := 18000

def MUESLIX_TXRING_PASS_COUNT : Nat := 16

def MUESLIX_RXDESC_FS : BitVec 32 := 0x40000000

def MUESLIX_RXDESC_LS : BitVec 32 := 0x20000000

def MUESLIX_RXDESC_OVERRUN : BitVec 32 := 0x10000000

def MUESLIX_RXDESC_LEN_MASK : BitVec 32 := 0xffff

def MUESLIX_TXDESC_FS : BitVec 32 := 0x40000000

def MUESLIX_TXDESC_LS : BitVec 32 := 0x20000000

def MUESLIX_TXDESC_SUB : BitVec 32 := 0x00100000

def MUESLIX_TXDESC_SUB_LEN : BitVec 32 := 0x03000000

def MUESLIX_TXDESC_SUB_SHIFT : Nat := 24

def MUESLIX_TXDESC_PAD : BitVec 32 := 0x00c00000

def MUESLIX_TXDESC_PAD_SHIFT : Nat := 22

def MUESLIX_TXDESC_LEN_MASK : BitVec 32 := 0xffff

/-- `struct mueslix_channel`. `nio` tells whether there is one. -/
structure MueslixChannel where
  status : BitVec 32
  clkShift : BitVec 32
  clkDiv : BitVec 32
  clkRate : BitVec 32
  crcCtrlReg : BitVec 32
  crcSize : BitVec 32
  nio : Bool
  rxStart : BitVec 32
  rxEnd : BitVec 32
  txStart : BitVec 32
  txEnd : BitVec 32
  rxCurrent : BitVec 32
  txCurrent : BitVec 32

/-- `struct mueslix_data`. `irq` is the interrupt line. -/
structure MueslixData where
  chipMode : Int
  channel : Fin 4 → MueslixChannel
  channelEnableMask : BitVec 32
  tpuOptions : BitVec 32
  irqStatus : BitVec 32
  irqMask : BitVec 32
  irqClearingCount : BitVec 32
  irq : Bool

/-- What `dev_mueslix_init` leaves. -/
def MueslixData.init (chipMode : Int) : MueslixData where
  chipMode := chipMode
  channel _ := ⟨0, 0, 0, 0, 0, 0, false, 0, 0, 0, 0, 0, 0⟩
  channelEnableMask := 0
  tpuOptions := 0
  irqStatus := 0
  irqMask := 0
  irqClearingCount := 0
  irq := false

def MueslixData.setChannel (d : MueslixData) (id : Fin 4) (channel : MueslixChannel) : MueslixData :=
  { d with channel := fun i => if i = id then channel else d.channel i }

def MueslixData.isRxTxEnabled (d : MueslixData) (id : Fin 4) : BitVec 32 :=
  (d.channelEnableMask >>> (2 * id.val)) &&& 0x03

def MueslixData.updateIrqStatus (d : MueslixData) : MueslixData :=
  if hasFlag d.irqStatus d.irqMask then { d with irq := true }
  else if d.irqClearingCount + 1 = 3 then { d with irq := false, irqClearingCount := 0 }
  else { d with irqClearingCount := d.irqClearingCount + 1 }

/-- `dev_mueslix_update_clk_rate`; none for a division by zero. The host takes the
amount of the shift modulo 32. -/
def MueslixChannel.updateClkRate (channel : MueslixChannel) : Option MueslixChannel :=
  let clkShift := if channel.clkShift = 8 then 0 else channel.clkShift
  if channel.clkDiv + 1 = 0 then none
  else
    let rate := (8064000 : BitVec 32) >>> (clkShift.toNat % 32)
    some { channel with clkRate := rate / (channel.clkDiv + 1) }

/-! Registers. -/

inductive OpType where
  | read
  | write (data : BitVec 32)

def OpType.access (op : OpType) (channel : MueslixChannel) (value : BitVec 32)
    (set : BitVec 32 → MueslixChannel) : MueslixChannel × BitVec 32 :=
  match op with
  | .read => (channel, value)
  | .write data => (set data, data)

def crcSizeOf (crcCtrlReg : BitVec 32) : BitVec 32 :=
  if crcCtrlReg = 0x08 ∨ crcCtrlReg = 0x0a then crcCtrlReg - 0x06 else 2

/-- `dev_mueslix_chan_access`; none for a division by zero. -/
def MueslixChannel.chanAccess (channel : MueslixChannel) (offset : Nat) (op : OpType) :
    Option (MueslixChannel × BitVec 32) :=
  match offset with
  | 0x00 => some (op.access channel channel.crcCtrlReg fun data =>
      { channel with crcCtrlReg := data, crcSize := crcSizeOf data })
  | 0x40 =>
    let (channel, value) := op.access channel channel.clkShift fun data =>
      { channel with clkShift := data }
    channel.updateClkRate.map fun channel => (channel, value)
  | 0x44 => some (op.access channel channel.clkDiv fun data => { channel with clkDiv := data })
  | 0x60 => some (op.access channel (if channel.nio then 0xFFFFFFFF else 0) fun _ => channel)
  | 0x64 => some (op.access channel 0x7B fun _ => channel)
  | 0x90 => some (op.access channel 0x11111111 fun _ => channel)
  | 0x80 => some (op.access channel channel.txStart fun data =>
      { channel with txStart := data, txCurrent := data })
  | 0x84 => some (op.access channel channel.txEnd fun data => { channel with txEnd := data })
  | 0x88 => some (op.access channel channel.rxStart fun data =>
      { channel with rxStart := data, rxCurrent := data })
  | 0x8c => some (op.access channel channel.rxEnd fun data => { channel with rxEnd := data })
  | _ => some (op.access channel 0 fun _ => channel)

/-- `tpu_cm0_handle_cmd` and `tpu_cm1_handle_cmd`, which differ in the opcodes that
disable a channel. -/
def MueslixData.tpuHandleCmd (d : MueslixData) (disable : List (BitVec 32)) (cmd : BitVec 32) :
    MueslixData :=
  let opcode := (cmd >>> 12) &&& 0xFF
  let id : Fin 4 := Fin.ofNat 4 cmd.toNat
  if opcode ∈ disable then d.setChannel id { d.channel id with status := 0 }
  else if opcode = 0x00 then d.setChannel id { d.channel id with status := 1 }
  else d

def MueslixData.tpuCm0HandleCmd (d : MueslixData) (cmd : BitVec 32) : MueslixData :=
  d.tpuHandleCmd [0x10] cmd

def MueslixData.tpuCm1HandleCmd (d : MueslixData) (cmd : BitVec 32) : MueslixData :=
  d.tpuHandleCmd [0x50, 0x30] cmd

/-- The command register, which also takes a read, as a command of zero. -/
def MueslixData.tpuCmd (d : MueslixData) (cmd : BitVec 32) : MueslixData :=
  if d.chipMode = 0 then d.tpuCm0HandleCmd cmd
  else if d.chipMode = 1 then d.tpuCm1HandleCmd cmd
  else d

/-- The general registers of `dev_mueslix_access`. -/
def MueslixData.generalAccess (d : MueslixData) (offset : Nat) (op : OpType) :
    MueslixData × BitVec 32 :=
  match offset, op with
  | 0x0, .read => (d, d.irqStatus)
  | 0x0, .write data =>
    ({ d with irqStatus := d.irqStatus &&& ~~~data }.updateIrqStatus, data)
  | 0x10, .read => (d, d.irqMask)
  | 0x10, .write data => ({ d with irqMask := data }.updateIrqStatus, data)
  | 0x14, .read => (d, d.channelEnableMask)
  | 0x14, .write data => ({ d with channelEnableMask := data }, data)
  | 0x18, .read => (d, 0x7F7F7F7F)
  | 0x7c, .read => (d, 0x492)
  | 0x2c00, .read => (d, d.tpuOptions)
  | 0x2c00, .write data => ({ d with tpuOptions := data }, data)
  | 0x2c24, .read => (d.tpuCmd 0, 0)
  | 0x2c24, .write data => (d.tpuCmd data, data)
  | 0x2c2c, .read => (d, 0xFFFF)
  | _, .read => (d, 0)
  | _, .write data => (d, data)

def channelAt (offset : Nat) : Option (Fin 4) :=
  (List.finRange 4).find? fun id =>
    MUESLIX_CHANNEL_LEN * (id.val + 1) ≤ offset ∧ offset < MUESLIX_CHANNEL_LEN * (id.val + 2)

/-- `dev_mueslix_access`, but for the memories of the TPU; none for a division by zero. -/
def MueslixData.access (d : MueslixData) (offset : Nat) (op : OpType) :
    Option (MueslixData × BitVec 32) :=
  match channelAt offset with
  | some id =>
    ((d.channel id).chanAccess (offset - MUESLIX_CHANNEL_LEN * (id.val + 1)) op).map fun r =>
      (d.setChannel id r.1, r.2)
  | none => some (d.generalAccess offset op)

/-! Receive. -/

/-- The address of the next descriptor of a ring, `rxdesc_get_next` and
`txdesc_set_next`. -/
def descNext (chipMode : Int) (start ringEnd addr : BitVec 32) : BitVec 32 :=
  if chipMode = 0 then if addr + 8 = ringEnd then start else addr + 8
  else if addr = ringEnd then start
  else addr + 8

def MueslixChannel.rxChip (channel : MueslixChannel) (chipMode : Int) : RxRing.RxChip where
  words := 2
  fs := MUESLIX_RXDESC_FS
  buffers rdes := [(rdes 1, (rdes 0 &&& MUESLIX_RXDESC_LEN_MASK).toNat)]
  getNext rxdAddr _ := descNext chipMode channel.rxStart channel.rxEnd rxdAddr
  lastStatus cpLen := MUESLIX_RXDESC_LS ||| (BitVec.ofNat 32 cpLen + channel.crcSize + 1)
  moreStatus acquired cpLen :=
    (if acquired then 0 else MUESLIX_RXDESC_LS ||| MUESLIX_RXDESC_OVERRUN) ||| BitVec.ofNat 32 cpLen
  ends status := hasFlag status MUESLIX_RXDESC_LS

def MueslixData.rxReady (d : MueslixData) (id : Fin 4) : Bool :=
  hasFlag (d.isRxTxEnabled id) MUESLIX_RX_ENABLE && (d.channel id).rxStart ≠ 0 &&
    (d.channel id).status ≠ 0 && (d.channel id).nio

/-- `dev_mueslix_handle_rxring` returns, having left the chip and the memory so. -/
def MueslixData.HandleRxring (d : MueslixData) (m : Ram) (id : Fin 4) (pkt : List Byte)
    (d' : MueslixData) (r : RxRing.RxResult) : Prop :=
  let channel := d.channel id
  let chip := channel.rxChip d.chipMode
  if d.rxReady id = false ∨
      RxRing.rxdescAcquire (RxRing.rxdescRead chip m channel.rxCurrent 0) = false then
    d' = d ∧ r = ⟨m, channel.rxCurrent, [], false⟩
  else
    RxRing.ReceivePkt chip m channel.rxCurrent pkt r ∧
      d' = MueslixData.updateIrqStatus
        { d.setChannel id { channel with rxCurrent := r.rxCurrent } with
          irqStatus := d.irqStatus ||| (MUESLIX_RX_IRQ <<< id.val) }

/-! Transmit. -/

def txLen (chipMode : Int) (tdes0 : BitVec 32) : BitVec 32 :=
  if chipMode = 0 then tdes0 &&& MUESLIX_TXDESC_LEN_MASK
  else
    let clen := (tdes0 &&& MUESLIX_TXDESC_LEN_MASK) <<< 2
    if hasFlag tdes0 MUESLIX_TXDESC_SUB then
      clen - ((tdes0 &&& MUESLIX_TXDESC_SUB_LEN) >>> MUESLIX_TXDESC_SUB_SHIFT)
    else clen

def txPad (tdes0 : BitVec 32) : BitVec 32 :=
  (4 - ((tdes0 &&& MUESLIX_TXDESC_PAD) >>> MUESLIX_TXDESC_PAD_SHIFT)) &&& 0x03

def MueslixChannel.txChip (channel : MueslixChannel) (chipMode : Int) : TxRing.TxChip where
  words := 2
  segs tdes := [(some (tdes 1), (txLen chipMode (tdes 0)).toNat)]
  first tdes := hasFlag (tdes 0) MUESLIX_TXDESC_FS
  last tdes := hasFlag (tdes 0) MUESLIX_TXDESC_LS
  getNext txCurrent _ := descNext chipMode channel.txStart channel.txEnd txCurrent
  trim tdes := txPad (tdes 0)

/-- `dev_mueslix_handle_txring_single` returns, having left the chip and the memory so. -/
def MueslixData.HandleTxringSingle (d : MueslixData) (m : Ram) (id : Fin 4) (canTransmit : Bool)
    (d' : MueslixData) (r : TxRing.TxResult) : Prop :=
  let channel := d.channel id
  if channel.txStart = 0 ∨ channel.status = 0 ∨ canTransmit = false then
    d' = d ∧ r = ⟨m, channel.txCurrent, [], none, [], false⟩
  else
    let moved := d.setChannel id { channel with txCurrent := r.txCurrent }
    TxRing.TransmitPkt (channel.txChip d.chipMode) m channel.txCurrent r ∧
      d' = if r.complete then MueslixData.updateIrqStatus
          { moved with irqStatus := d.irqStatus ||| (MUESLIX_TX_IRQ <<< id.val) }
        else moved

/-- The test of `dev_mueslix_handle_txring`: the negation is taken before the bit. -/
def MueslixData.txRefused (d : MueslixData) (id : Fin 4) : Bool :=
  hasFlag (if d.isRxTxEnabled id = 0 then 1 else 0) MUESLIX_TX_ENABLE

/-! The chip and its guest. -/

/-- `passes` are the turns that are left of the pass of `dev_mueslix_handle_txring` for a
channel; the lock is free between them. -/
structure Sys where
  d : MueslixData
  mem : Ram
  passes : Fin 4 → Nat

def Sys.init (chipMode : Int) (m : Ram) : Sys := ⟨MueslixData.init chipMode, m, fun _ => 0⟩

/-- What happens: the guest reads or writes a register or stores to its memory, a NIO
comes or goes, a packet comes, a pass starts or has its next turn. -/
inductive Event where
  | access (offset : Nat) (op : OpType)
  | store (paddr : Nat) (data : List Byte)
  | setNio (id : Fin 4) (nio : Bool)
  | handleRxring (id : Fin 4) (pkt : List Byte)
  | handleTxring (id : Fin 4)
  | handleTxringSingle (id : Fin 4) (canTransmit : Bool)

def Sys.setPasses (s : Sys) (id : Fin 4) (n : Nat) : Sys :=
  { s with passes := fun i => if i = id then n else s.passes i }

def Sys.setNio (s : Sys) (id : Fin 4) (nio : Bool) : Sys :=
  { s with d := s.d.setChannel id { s.d.channel id with nio := nio } }

/-- The system after a turn of a pass, which ends with the last packet. -/
def Sys.afterTurn (s : Sys) (id : Fin 4) (d' : MueslixData) (r : TxRing.TxResult) : Sys :=
  { s.setPasses id (if r.complete then s.passes id - 1 else 0) with d := d', mem := r.mem }

/-- A step of the system. The task of a pass runs only while there is a NIO. -/
inductive Step (s : Sys) : Event → Sys → Prop where
  | access {offset : Nat} {op : OpType} {d' : MueslixData} {value : BitVec 32}
      (h : s.d.access offset op = some (d', value)) : Step s (.access offset op) { s with d := d' }
  | store (paddr : Nat) (data : List Byte) :
      Step s (.store paddr data) { s with mem := physmemCopyToVm s.mem data paddr }
  | setNio (id : Fin 4) (nio : Bool) : Step s (.setNio id nio) (s.setNio id nio)
  | handleRxring {id : Fin 4} {pkt : List Byte} {d' : MueslixData} {r : RxRing.RxResult}
      (h : s.d.HandleRxring s.mem id pkt d' r) :
      Step s (.handleRxring id pkt) { s with d := d', mem := r.mem }
  | refused {id : Fin 4} (h : s.d.txRefused id = true ∨ (s.d.channel id).nio = false) :
      Step s (.handleTxring id) s
  | handleTxring {id : Fin 4} (hidle : s.passes id = 0) (h : s.d.txRefused id = false)
      (hnio : (s.d.channel id).nio = true) :
      Step s (.handleTxring id) (s.setPasses id MUESLIX_TXRING_PASS_COUNT)
  | handleTxringSingle {id : Fin 4} {canTransmit : Bool} {d' : MueslixData} {r : TxRing.TxResult}
      (hpass : s.passes id ≠ 0) (h : s.d.HandleTxringSingle s.mem id canTransmit d' r) :
      Step s (.handleTxringSingle id canTransmit) (s.afterTurn id d' r)

end Dynamips.Mueslix
