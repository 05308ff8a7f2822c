import Dynamips.Lib.Runs

/-! The PCMCIA ATA disk (dev_pcmcia_disk.c): its registers, its transfers of
sectors, and the file behind it. A sector and the data buffer are 256 words,
the low byte of each first. -/
set_option autoImplicit false

namespace Dynamips.PcmciaDisk

open Runs

abbrev Byte := BitVec 8

abbrev Word := BitVec 16

abbrev Sector := Nat → Word

/-- The words of a sector, `SECTOR_SIZE / 2`. -/
abbrev SECTOR_WORDS : Nat := 256

def ATA_CMD_READ_SECTOR : Byte := 0x20

def ATA_CMD_WRITE_SECTOR : Byte := 0x30

def ATA_CMD_IDENT_DEVICE : Byte := 0xec

def ATA_STATUS_RDY : Byte := 0x40

def ATA_STATUS_DSC : Byte := 0x10

def ATA_STATUS_DRQ : Byte := 0x08

def ATA_DH_LBA : Byte := 0x40

def cis_table : List Byte :=
  [0x01, 0x03, 0xd9, 0x01, 0xff, 0x1c, 0x04, 0x03, 0xd9, 0x01, 0xff, 0x18, 0x02, 0xdf, 0x01,
    0x20, 0x04, 0x34, 0x12, 0x00, 0x02, 0x15, 0x2b, 0x04, 0x01, 0x44, 0x79, 0x6e, 0x61, 0x6d,
    0x69, 0x70, 0x73, 0x20, 0x41, 0x54, 0x41, 0x20, 0x46, 0x6c, 0x61, 0x73, 0x68, 0x20, 0x43,
    0x61, 0x72, 0x64, 0x20, 0x20, 0x00, 0x44, 0x59, 0x4e, 0x41, 0x30, 0x20, 0x20, 0x00, 0x44,
    0x59, 0x4e, 0x41, 0x30, 0x00, 0xff, 0x21, 0x02, 0x04, 0x01, 0x22, 0x02, 0x01, 0x01, 0x22,
    0x03, 0x02, 0x04, 0x5f, 0x1a, 0x05, 0x01, 0x03, 0x00, 0x02, 0x0f, 0x1b, 0x0b, 0xc0, 0x40,
    0xa1, 0x27, 0x55, 0x4d, 0x5d, 0x75, 0x08, 0x00, 0x21, 0x1b, 0x06, 0x00, 0x01, 0x21, 0xb5,
    0x1e, 0x4d, 0x1b, 0x0d, 0xc1, 0x41, 0x99, 0x27, 0x55, 0x4d, 0x5d, 0x75, 0x64, 0xf0, 0xff,
    0xff, 0x21, 0x1b, 0x06, 0x01, 0x01, 0x21, 0xb5, 0x1e, 0x4d, 0x1b, 0x12, 0xc2, 0x41, 0x99,
    0x27, 0x55, 0x4d, 0x5d, 0x75, 0xea, 0x61, 0xf0, 0x01, 0x07, 0xf6, 0x03, 0x01, 0xee, 0x21,
    0x1b, 0x06, 0x02, 0x01, 0x21, 0xb5, 0x1e, 0x4d, 0x1b, 0x12, 0xc3, 0x41, 0x99, 0x27, 0x55,
    0x4d, 0x5d, 0x75, 0xea, 0x61, 0x70, 0x01, 0x07, 0x76, 0x03, 0x01, 0xee, 0x21, 0x1b, 0x06,
    0x03, 0x01, 0x21, 0xb5, 0x1e, 0x4d, 0x14, 0x00, 0xff]

/-- The callbacks of `ata_cmd_callback`. -/
inductive Callback where
  | ident | read | write
deriving DecidableEq, Repr

inductive Io where
  | read (sect : BitVec 32)
  | write (sect : BitVec 32)
deriving DecidableEq, Repr

/-- `struct pcmcia_disk_data` and its file of `fileSects` sectors. `io` has what the
last access read and wrote of the file. -/
structure Disk where
  nrHeads : BitVec 32
  nrCylinders : BitVec 32
  sectsPerTrack : BitVec 32
  ataCmd : Byte
  ataStatus : Byte
  cylLow : Byte
  cylHigh : Byte
  head : Byte
  sectNo : Byte
  sectCount : Byte
  sectPos : BitVec 32
  sectRemaining : BitVec 32
  ataCmdCallback : Option Callback
  dataPos : Nat
  dataBuffer : Sector
  file : Nat → Sector
  fileSects : Nat
  io : List Io

def chsToLba (d : Disk) (cyl head sect : BitVec 32) : BitVec 32 :=
  (cyl * d.nrHeads + head) * d.sectsPerTrack + sect - 1

def lbaToChs (d : Disk) (lba : BitVec 32) : BitVec 32 × BitVec 32 × BitVec 32 :=
  (lba / (d.sectsPerTrack * d.nrHeads), lba / d.sectsPerTrack % d.nrHeads,
    lba % d.sectsPerTrack + 1)

/-- `disk_read_sector`; past the end of the file nothing is read. -/
def diskReadSector (d : Disk) (sect : BitVec 32) : Disk :=
  { d with
    dataBuffer := if sect.toNat < d.fileSects then d.file sect.toNat else d.dataBuffer
    io := d.io ++ [.read sect] }

/-- `disk_write_sector`, which may make the file longer. -/
def diskWriteSector (d : Disk) (sect : BitVec 32) : Disk :=
  { d with
    file := Function.update d.file sect.toNat d.dataBuffer
    fileSects := max d.fileSects (sect.toNat + 1)
    io := d.io ++ [.write sect] }

def ataIdentifyDevice (d : Disk) : Sector :=
  let sectCount := d.nrHeads * d.nrCylinders * d.sectsPerTrack
  fun word =>
    match word with
    | 0 => 0x848a
    | 1 => d.nrCylinders.setWidth 16
    | 3 => d.nrHeads.setWidth 16 &&& 0xff
    | 6 => d.sectsPerTrack.setWidth 16 &&& 0xff
    | 7 => (sectCount >>> 16).setWidth 16
    | 8 => sectCount.setWidth 16
    | 22 => 4
    | 53 => 3
    | 54 => d.nrCylinders.setWidth 16
    | 55 => d.nrHeads.setWidth 16 &&& 0xff
    | 56 => d.sectsPerTrack.setWidth 16 &&& 0xff
    | 57 => sectCount.setWidth 16
    | 58 => (sectCount >>> 16).setWidth 16
    | _ => 0

/-- The position that the registers give, of `ata_set_sect_pos`. -/
def ataSectPos (d : Disk) : BitVec 32 :=
  let head := (d.head &&& 0x0f).setWidth 32
  let cylHigh := d.cylHigh.setWidth 32
  let cylLow := d.cylLow.setWidth 32
  let sectNo := d.sectNo.setWidth 32
  if d.head &&& ATA_DH_LBA ≠ 0 then head <<< 24 ||| cylHigh <<< 16 ||| cylLow <<< 8 ||| sectNo
  else chsToLba d ((cylHigh <<< 8) + cylLow) head sectNo

def statusReady : Byte := ATA_STATUS_RDY ||| ATA_STATUS_DSC

def statusData : Byte := statusReady ||| ATA_STATUS_DRQ

/-- `ata_cmd_ident_device_callback`, `ata_cmd_read_callback` and
`ata_cmd_write_callback` -/
def ataCallback (d : Disk) : Callback → Disk
  | .ident => { d with ataStatus := statusReady }
  | .read =>
    let d : Disk := { d with sectRemaining := d.sectRemaining - 1 }
    if d.sectRemaining = 0 then { d with ataStatus := statusReady }
    else
      let d := { d with sectPos := d.sectPos + 1 }
      { diskReadSector d d.sectPos with ataStatus := statusData }
  | .write =>
    let d := diskWriteSector d d.sectPos
    { d with
      sectPos := d.sectPos + 1
      sectRemaining := d.sectRemaining - 1
      ataStatus := if d.sectRemaining - 1 = 0 then statusReady else statusData }

def sectors (d : Disk) : BitVec 32 := if d.sectCount = 0 then 256 else d.sectCount.setWidth 32

def ataHandleCmd (d : Disk) : Disk :=
  let d := { d with dataPos := 0 }
  if d.ataCmd = ATA_CMD_IDENT_DEVICE then
    { d with
      dataBuffer := ataIdentifyDevice d
      ataCmdCallback := some .ident
      ataStatus := statusData }
  else if d.ataCmd = ATA_CMD_READ_SECTOR then
    let d := { d with sectRemaining := sectors d, sectPos := ataSectPos d }
    { diskReadSector d d.sectPos with ataCmdCallback := some .read, ataStatus := statusData }
  else if d.ataCmd = ATA_CMD_WRITE_SECTOR then
    { d with
      sectRemaining := sectors d
      sectPos := ataSectPos d
      ataCmdCallback := some .write
      ataStatus := statusData }
  else d

/-- The end of a data access: the callback is called when the buffer is complete. -/
def dataDone (d : Disk) : Disk :=
  if d.dataPos + 1 = SECTOR_WORDS then
    let d := { d with dataPos := 0 }
    match d.ataCmdCallback with
    | none => d
    | some callback => ataCallback d callback
  else { d with dataPos := d.dataPos + 1 }

inductive Port where
  | cis (byte : Byte)
  | pinReplacement
  | sector
  | cylinder
  | command
  | data
  | other
deriving DecidableEq, Repr

def DATA_OFFSET : BitVec 32 := 0x80200

/-- The switch of `dev_pcmcia_disk_access_0`. -/
def port0 (offset : BitVec 32) : Port :=
  let offset := (offset >>> 1) ^^^ 1
  match cis_table[offset.toNat]? with
  | some byte => .cis byte
  | none =>
    if offset = 0x102 then .pinReplacement
    else if offset = 0x80001 then .sector
    else if offset = 0x80002 then .cylinder
    else if offset = 0x80003 then .command
    else if offset ≥ DATA_OFFSET ∧ offset < DATA_OFFSET + 256 then .data
    else .other

/-- The switch of `dev_pcmcia_disk_access_1`. -/
def port1 (offset : BitVec 32) : Port :=
  let offset := (offset >>> 1) ^^^ 1
  if offset = 0x02 then .sector
  else if offset = 0x04 then .cylinder
  else if offset = 0x06 then .command
  else if offset = 0x08 then .data
  else .other

/-- The common cases of the two handlers, a write when there is data. The second
component is what a read gets, none where it leaves the data as it is. -/
def accessPort (d : Disk) (port : Port) (op : Option (BitVec 64)) :
    Disk × Option (BitVec 64) :=
  let d := { d with io := [] }
  match port, op with
  | .cis byte, none => (d, some (byte.setWidth 64))
  | .pinReplacement, none => (d, some 0x22)
  | .sector, none => (d, some ((d.sectNo.setWidth 64 <<< 8) + d.sectCount.setWidth 64))
  | .sector, some data =>
    ({ d with sectNo := (data >>> 8).setWidth 8, sectCount := data.setWidth 8 }, none)
  | .cylinder, none => (d, some ((d.cylHigh.setWidth 64 <<< 8) + d.cylLow.setWidth 64))
  | .cylinder, some data =>
    ({ d with cylHigh := (data >>> 8).setWidth 8, cylLow := data.setWidth 8 }, none)
  | .command, none => (d, some ((d.ataStatus.setWidth 64 <<< 8) + d.head.setWidth 64))
  | .command, some data =>
    (ataHandleCmd { d with ataCmd := (data >>> 8).setWidth 8, head := data.setWidth 8 }, none)
  | .data, none => (dataDone d, some ((d.dataBuffer d.dataPos).setWidth 64))
  | .data, some data =>
    (dataDone { d with
      dataBuffer := Function.update d.dataBuffer d.dataPos (data.setWidth 16) }, none)
  | _, _ => (d, none)

/-- `dev_pcmcia_disk_access_0` and `dev_pcmcia_disk_access_1`, as `mode` chooses. -/
def portOf (mode : Bool) : BitVec 32 → Port := if mode then port1 else port0

/-- `dev_pcmcia_disk_init` and `disk_create`, over what the file of the disk has. -/
def diskInit (diskSize : BitVec 32) (file : Nat → Sector) : Disk :=
  let totSect : BitVec 32 := ((diskSize.setWidth 64 * 1048576) / 512).setWidth 32
  let nrCylinders := totSect / 128
  { nrHeads := 4
    nrCylinders := nrCylinders
    sectsPerTrack := 32
    ataCmd := 0
    ataStatus := statusReady
    cylLow := 0
    cylHigh := 0
    head := 0
    sectNo := 0
    sectCount := 0
    sectPos := 0
    sectRemaining := 0
    ataCmdCallback := none
    dataPos := 0
    dataBuffer := fun _ => 0
    file := file
    fileSects := 4 * nrCylinders.toNat * 32
    io := [] }

end Dynamips.PcmciaDisk
