import Dynamips.RxRing
import Dynamips.TxRing

/-! The packet paths of the DEC21140 (dev_dec21140.c). -/
set_option autoImplicit false

namespace Dynamips.Dec21140

open GuestRam
export GuestRam (Ram physmemCopyToVm physmemCopyFromVm)

def DEC21140_CSR5_TI : BitVec 32 := 0x00000001

def DEC21140_CSR5_RI : BitVec 32 := 0x00000040

def DEC21140_CSR5_AIS : BitVec 32 := 0x00008000

def DEC21140_CSR5_NIS : BitVec 32 := 0x00010000

def DEC21140_NIS_BITS : BitVec 32 := 0x00000045

def DEC21140_AIS_BITS : BitVec 32 := 0x00002BAA

def DEC21140_CSR6_START_TX : BitVec 32 := 0x00002000

def DEC21140_MAX_PKT_SIZE : Nat := 2048

def DEC21140_SETUP_FRAME_SIZE : Nat := 192

def DEC21140_RXDESC_LS : BitVec 32 := 0x00000100

def DEC21140_RXDESC_FS : BitVec 32 := 0x00000200

def DEC21140_RXDESC_MF : BitVec 32 := 0x00000400

def DEC21140_RXDESC_DE : BitVec 32 := 0x00004000

def DEC21140_RXDESC_RCH : BitVec 32 := 0x01000000

def DEC21140_RXDESC_RER : BitVec 32 := 0x02000000

def DEC21140_RXDESC_FL_SHIFT : Nat := 16

def DEC21140_RXDESC_LEN_MASK : BitVec 32 := 0x7ff

def DEC21140_TXDESC_TCH : BitVec 32 := 0x01000000

def DEC21140_TXDESC_TER : BitVec 32 := 0x02000000

def DEC21140_TXDESC_SET : BitVec 32 := 0x08000000

def DEC21140_TXDESC_FS : BitVec 32 := 0x20000000

def DEC21140_TXDESC_LS : BitVec 32 := 0x40000000

def DEC21140_TXDESC_IC : BitVec 32 := 0x80000000

def DEC21140_TXDESC_LEN_MASK : BitVec 32 := 0x7ff

abbrev EthAddr := List Byte

def ethAddrIsMcast (addr : EthAddr) : Bool := (addr.getD 0 0).getLsbD 0

/-- `struct dec21140_data`, as far as the packet paths go. `irq` is the interrupt
line. -/
structure Dec21140Data where
  rxCurrent : BitVec 32
  txCurrent : BitVec 32
  csr3 : BitVec 32
  csr4 : BitVec 32
  csr5 : BitVec 32
  csr6 : BitVec 32
  macAddr : List EthAddr
  irq : Bool

/-- `dec21140_update_mac_addr`; an address has 12 bytes of the frame. -/
def Dec21140Data.updateMacAddr (d : Dec21140Data) (setupFrame : List Byte) : Dec21140Data :=
  let addr (i : Nat) := [0, 1, 4, 5, 8, 9].map fun k => setupFrame.getD (12 * i + k) 0
  { d with macAddr := ((List.range 16).map addr).filter fun a => !ethAddrIsMcast a }

def Dec21140Data.updateIrqStatus (d : Dec21140Data) : Dec21140Data :=
  let csr5 := d.csr5 &&& ~~~(DEC21140_CSR5_AIS ||| DEC21140_CSR5_NIS)
  let nis := if hasFlag csr5 DEC21140_NIS_BITS then DEC21140_CSR5_NIS else 0
  let ais := if hasFlag csr5 DEC21140_AIS_BITS then DEC21140_CSR5_AIS else 0
  { d with
    csr5 := csr5 ||| nis ||| ais
    irq := hasFlag csr5 DEC21140_NIS_BITS || hasFlag csr5 DEC21140_AIS_BITS }

/-! Receive. -/

open RxRing in
/-- The buffers of `rxdesc_put_pkt`. -/
def rxBuffers (rdes : Rdes) : List (BitVec 32 × Nat) :=
  let len1 := (rdes 1 &&& DEC21140_RXDESC_LEN_MASK).toNat
  let len2 := ((rdes 1 >>> 10) &&& DEC21140_RXDESC_LEN_MASK).toNat
  (rdes 2, len1) :: if hasFlag (rdes 1) DEC21140_RXDESC_RCH then [] else [(rdes 3, len2)]

open RxRing in
def Dec21140Data.rxdescGetNext (d : Dec21140Data) (rxdAddr : BitVec 32) (rdes : Rdes) : BitVec 32 :=
  if hasFlag (rdes 1) DEC21140_RXDESC_RER then d.csr3
  else if hasFlag (rdes 1) DEC21140_RXDESC_RCH then rdes 3
  else rxdAddr + 16

/-- The chip for a packet; `daddr` is the address at its start. -/
def Dec21140Data.rxChip (d : Dec21140Data) (daddr : EthAddr) (pktLen : Nat) : RxRing.RxChip where
  words := 4
  fs := DEC21140_RXDESC_FS
  buffers := rxBuffers
  getNext := d.rxdescGetNext
  lastStatus _ :=
    let rdes0 := DEC21140_RXDESC_LS |||
      BitVec.ofNat 32 (min pktLen DEC21140_MAX_PKT_SIZE + 4) <<< DEC21140_RXDESC_FL_SHIFT
    if ethAddrIsMcast daddr then rdes0 ||| DEC21140_RXDESC_MF else rdes0
  moreStatus acquired _ := if acquired then 0 else DEC21140_RXDESC_LS ||| DEC21140_RXDESC_DE
  ends status := status ≠ 0

/-- `dev_dec21140_receive_pkt` returns, having left the chip and the memory so. -/
def Dec21140Data.ReceivePkt (d : Dec21140Data) (m : Ram) (daddr : EthAddr) (pkt : List Byte)
    (d' : Dec21140Data) (r : RxRing.RxResult) : Prop :=
  let chip := d.rxChip daddr pkt.length
  RxRing.ReceivePkt chip m d.rxCurrent pkt r ∧
    d' = if RxRing.rxdescAcquire (RxRing.rxdescRead chip m d.rxCurrent 0) then
        Dec21140Data.updateIrqStatus
          { d with rxCurrent := r.rxCurrent, csr5 := d.csr5 ||| DEC21140_CSR5_RI }
      else d

/-! Transmit. -/

open TxRing in
/-- What `dev_dec21140_handle_txring_single` copies for a descriptor. -/
def txSegs (tdes : Tdes) : List (Option (BitVec 32) × Nat) :=
  let len1 := (tdes 1 &&& DEC21140_TXDESC_LEN_MASK).toNat
  let len2 := ((tdes 1 >>> 11) &&& DEC21140_TXDESC_LEN_MASK).toNat
  [(some (tdes 2), len1), (if hasFlag (tdes 1) DEC21140_TXDESC_TCH then none else some (tdes 3), len2)]

open TxRing in
def Dec21140Data.txdescSetNext (d : Dec21140Data) (txCurrent : BitVec 32) (tdes : Tdes) :
    BitVec 32 :=
  if hasFlag (tdes 1) DEC21140_TXDESC_TER then d.csr4
  else if hasFlag (tdes 1) DEC21140_TXDESC_TCH then tdes 3
  else txCurrent + 16

def Dec21140Data.txChip (d : Dec21140Data) : TxRing.TxChip where
  words := 4
  segs := txSegs
  first tdes := hasFlag (tdes 1) DEC21140_TXDESC_FS
  last tdes := hasFlag (tdes 1) (DEC21140_TXDESC_LS ||| DEC21140_TXDESC_SET)
  getNext := d.txdescSetNext
  trim _ := 0

def Dec21140Data.txd0 (d : Dec21140Data) (m : Ram) : TxRing.Tdes :=
  TxRing.txdescRead d.txChip m d.txCurrent

def Dec21140Data.txStarted (d : Dec21140Data) (canTransmit : Bool) : Bool :=
  d.csr4 ≠ 0 && hasFlag d.csr6 DEC21140_CSR6_START_TX && canTransmit

def Dec21140Data.complete (d : Dec21140Data) (txd0 : TxRing.Tdes) : Dec21140Data :=
  if hasFlag (txd0 1) DEC21140_TXDESC_IC then
    { d with csr5 := d.csr5 ||| DEC21140_CSR5_TI }.updateIrqStatus
  else d

/-- A descriptor that is skipped, with the addresses of a setup frame taken from it. -/
def Dec21140Data.skipSetup (d : Dec21140Data) (m : Ram) : Dec21140Data × TxRing.TxResult :=
  let txd0 := d.txd0 m
  let setupFrame := physmemCopyFromVm m (txd0 2).toNat DEC21140_SETUP_FRAME_SIZE
  let d' := if hasFlag (txd0 1) DEC21140_TXDESC_SET then d.updateMacAddr setupFrame else d
  let txCurrent := d.txdescSetNext d.txCurrent txd0
  ({ d' with txCurrent := txCurrent }.complete txd0,
    ⟨physmemCopyU32ToVm m d.txCurrent.toNat 0, txCurrent, [], none, [d.txCurrent], true⟩)

/-- `dev_dec21140_handle_txring_single` returns, having left the chip and the memory
so. What is sent is the packet as it goes to `cisco_isl_rewrite` and `netio_send`. -/
def Dec21140Data.HandleTxringSingle (d : Dec21140Data) (m : Ram) (canTransmit : Bool)
    (d' : Dec21140Data) (r : TxRing.TxResult) : Prop :=
  if d.txStarted canTransmit = false ∨ hasFlag (d.txd0 m 0) TxRing.TXDESC_OWN = false then
    d' = d ∧ r = ⟨m, d.txCurrent, [], none, [], false⟩
  else if hasFlag (d.txd0 m 1) (DEC21140_TXDESC_FS ||| DEC21140_TXDESC_LS) = false then
    (d', r) = d.skipSetup m
  else
    TxRing.TransmitPkt d.txChip m d.txCurrent r ∧
      d' = if r.complete then { d with txCurrent := r.txCurrent }.complete (d.txd0 m)
        else { d with txCurrent := r.txCurrent }

end Dynamips.Dec21140
