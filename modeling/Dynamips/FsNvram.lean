import Dynamips.Lib.ByteStore
import Dynamips.UncompressLzc
set_option autoImplicit false

namespace Dynamips.Nvram
open Loop
open Function (update)

def sectorSize : Nat := 0x400

def magicFilesystem : BitVec 16 := 0xF0A5
def magicStartupConfig : BitVec 16 := 0xABCD
def magicPrivateConfig : BitVec 16 := 0xFEDC

def formatRaw : BitVec 16 := 1
def formatLzc : BitVec 16 := 2

def normalFilesystemBlock1 : Nat := 0x20000
def backupFilesystemBlock1 : Nat := 0x1C000

def flagOpenCreate : BitVec 32 := 0x0001
def flagScale4 : BitVec 32 := 0x0020
def flagAlign4Pad4 : BitVec 32 := 0x0080
def flagWithBackup : BitVec 32 := 0x0100
def flagAddrAbsolute : BitVec 32 := 0x0400
def flagsUnk10C03 : BitVec 32 := 0x1000
def flagsUnk10C01 : BitVec 32 := 0x2000

def hasFlag (flags flag : BitVec 32) : Bool := flags &&& flag ≠ 0

/-- Conversion to `u_int`. -/
def uint (n : Nat) : Nat := n % 2 ^ 32

/-- The memory around `base`, by the distance from it. -/
abbrev Mem := Nat → Byte

def filesystemHeaderSize : Nat := 8
def startupHeaderSize : Nat := 36
def privateHeaderSize : Nat := 16

structure StartupHeader where
  magic : BitVec 16
  format : BitVec 16
  checksum : BitVec 16
  unk1 : BitVec 16
  start : BitVec 32
  stop : BitVec 32
  len : BitVec 32
  unk2 : BitVec 32
  unk3 : BitVec 32
  unk4 : BitVec 16
  unk5 : BitVec 16
  uncompressedLen : BitVec 32

structure PrivateHeader where
  magic : BitVec 16
  format : BitVec 16
  start : BitVec 32
  stop : BitVec 32
  len : BitVec 32

def StartupHeader.toBytes (h : StartupHeader) : List Byte :=
  mHton16 h.magic ++ mHton16 h.format ++ mHton16 h.checksum ++ mHton16 h.unk1 ++
    mHton32 h.start ++ mHton32 h.stop ++ mHton32 h.len ++ mHton32 h.unk2 ++ mHton32 h.unk3 ++
    mHton16 h.unk4 ++ mHton16 h.unk5 ++ mHton32 h.uncompressedLen

def StartupHeader.ofBytes (b : List Byte) : StartupHeader where
  magic := mNtoh16 b
  format := mNtoh16 (b.drop 2)
  checksum := mNtoh16 (b.drop 4)
  unk1 := mNtoh16 (b.drop 6)
  start := mNtoh32 (b.drop 8)
  stop := mNtoh32 (b.drop 12)
  len := mNtoh32 (b.drop 16)
  unk2 := mNtoh32 (b.drop 20)
  unk3 := mNtoh32 (b.drop 24)
  unk4 := mNtoh16 (b.drop 28)
  unk5 := mNtoh16 (b.drop 30)
  uncompressedLen := mNtoh32 (b.drop 32)

def PrivateHeader.toBytes (h : PrivateHeader) : List Byte :=
  mHton16 h.magic ++ mHton16 h.format ++ mHton32 h.start ++ mHton32 h.stop ++ mHton32 h.len

def PrivateHeader.ofBytes (b : List Byte) : PrivateHeader where
  magic := mNtoh16 b
  format := mNtoh16 (b.drop 2)
  start := mNtoh32 (b.drop 4)
  stop := mNtoh32 (b.drop 8)
  len := mNtoh32 (b.drop 12)

theorem StartupHeader.ofBytes_toBytes (h : StartupHeader) : ofBytes h.toBytes = h := by
  have magic : mNtoh16 h.toBytes = h.magic := mNtoh16_mHton16 h.magic _
  have format : mNtoh16 (h.toBytes.drop 2) = h.format := mNtoh16_mHton16 h.format _
  have checksum : mNtoh16 (h.toBytes.drop 4) = h.checksum := mNtoh16_mHton16 h.checksum _
  have unk1 : mNtoh16 (h.toBytes.drop 6) = h.unk1 := mNtoh16_mHton16 h.unk1 _
  have start : mNtoh32 (h.toBytes.drop 8) = h.start := mNtoh32_mHton32 h.start _
  have stop : mNtoh32 (h.toBytes.drop 12) = h.stop := mNtoh32_mHton32 h.stop _
  have len : mNtoh32 (h.toBytes.drop 16) = h.len := mNtoh32_mHton32 h.len _
  have unk2 : mNtoh32 (h.toBytes.drop 20) = h.unk2 := mNtoh32_mHton32 h.unk2 _
  have unk3 : mNtoh32 (h.toBytes.drop 24) = h.unk3 := mNtoh32_mHton32 h.unk3 _
  have unk4 : mNtoh16 (h.toBytes.drop 28) = h.unk4 := mNtoh16_mHton16 h.unk4 _
  have unk5 : mNtoh16 (h.toBytes.drop 30) = h.unk5 := mNtoh16_mHton16 h.unk5 _
  have uncompressed : mNtoh32 (h.toBytes.drop 32) = h.uncompressedLen :=
    mNtoh32_mHton32 h.uncompressedLen []
  simp only [ofBytes, magic, format, checksum, unk1, start, stop, len, unk2, unk3, unk4, unk5,
    uncompressed]

theorem PrivateHeader.ofBytes_toBytes (h : PrivateHeader) : ofBytes h.toBytes = h := by
  have magic : mNtoh16 h.toBytes = h.magic := mNtoh16_mHton16 h.magic _
  have format : mNtoh16 (h.toBytes.drop 2) = h.format := mNtoh16_mHton16 h.format _
  have start : mNtoh32 (h.toBytes.drop 4) = h.start := mNtoh32_mHton32 h.start _
  have stop : mNtoh32 (h.toBytes.drop 8) = h.stop := mNtoh32_mHton32 h.stop _
  have len : mNtoh32 (h.toBytes.drop 12) = h.len := mNtoh32_mHton32 h.len []
  simp only [ofBytes, magic, format, start, stop, len]

@[simp] theorem StartupHeader.length_toBytes (h : StartupHeader) :
    h.toBytes.length = startupHeaderSize := rfl

@[simp] theorem PrivateHeader.length_toBytes (h : PrivateHeader) :
    h.toBytes.length = privateHeaderSize := rfl

theorem StartupHeader.set_checksum (h : StartupHeader) (a b : Byte) :
    (h.toBytes.set 4 a).set 5 b = { h with checksum := mNtoh16 [a, b] }.toBytes := by
  simp only [toBytes, mHton16_mNtoh16]
  rfl

structure FsNvram where
  len : Nat
  addr : BitVec 32
  flags : BitVec 32
  shift : Nat
  padding : Nat
  backup : Nat
  deriving DecidableEq

def addressOf (fs : FsNvram) (offset : BitVec 32) : BitVec 32 :=
  if hasFlag fs.flags flagAddrAbsolute then fs.addr + offset else offset - 8

def offsetOf (fs : FsNvram) (address : BitVec 32) : BitVec 32 :=
  if hasFlag fs.flags flagAddrAbsolute then address - fs.addr else address + 8

def paddingAt (fs : FsNvram) (offset : Nat) : Nat :=
  if uint offset % 4 ≠ 0 then fs.padding - uint offset % 4 else 0

def offset1WithBackup (fs : FsNvram) (offset : Nat) : Nat :=
  if offset < normalFilesystemBlock1 then uint (offset <<< fs.shift)
  else uint ((backupFilesystemBlock1 + offset) <<< fs.shift)

def offset2WithBackup (fs : FsNvram) (offset : Nat) : Nat :=
  if offset < backupFilesystemBlock1 then uint ((fs.backup + offset) <<< fs.shift)
  else uint ((fs.len + offset) <<< fs.shift)

/-- The function that `read_byte` points to. -/
def readByte (fs : FsNvram) (mem : Mem) (offset : Nat) : Byte :=
  if hasFlag fs.flags flagWithBackup then mem (offset1WithBackup fs (uint offset))
  else mem (uint (uint offset <<< fs.shift))

/-- The function that `write_byte` points to. -/
def writeByte (fs : FsNvram) (mem : Mem) (offset : Nat) (val : Byte) : Mem :=
  if hasFlag fs.flags flagWithBackup then
    update (update mem (offset1WithBackup fs (uint offset)) val)
      (offset2WithBackup fs (uint offset)) val
  else update mem (uint (uint offset <<< fs.shift)) val

def read16 (fs : FsNvram) (mem : Mem) (offset : Nat) : BitVec 16 :=
  mNtoh16 [readByte fs mem offset, readByte fs mem (offset + 1)]

def write16 (fs : FsNvram) (mem : Mem) (offset : Nat) (val : BitVec 16) : Mem :=
  writeByte fs (writeByte fs mem offset ((val >>> 8).setWidth 8)) (offset + 1) (val.setWidth 8)

def read32 (fs : FsNvram) (mem : Mem) (offset : Nat) : BitVec 32 :=
  mNtoh32 [readByte fs mem offset, readByte fs mem (offset + 1), readByte fs mem (offset + 2),
    readByte fs mem (offset + 3)]

def memcpyFrom (fs : FsNvram) (mem : Mem) (offset len : Nat) : List Byte :=
  (List.range (uint len)).map fun i => readByte fs mem (offset + i)

def memcpyTo (fs : FsNvram) (mem : Mem) (offset : Nat) (data : List Byte) (len : Nat) : Mem :=
  loop (fun i mem => writeByte fs mem (offset + i) (data.getD i 0)) (uint len) mem

def clear (fs : FsNvram) (mem : Mem) (offset len : Nat) : Mem :=
  loop (fun i mem => writeByte fs mem (offset + i) 0) (uint len) mem

/-- `while (sum >> 16) sum = (sum & 0xffff) + (sum >> 16);` -/
def foldSum (sum : Nat) : Nat :=
  if sum < 2 ^ 16 then sum else foldSum (sum % 2 ^ 16 + sum / 2 ^ 16)
termination_by sum
decreasing_by omega

def checksumOffset : Nat := filesystemHeaderSize + 4

/-- The sum of the words from the filesystem header on, in a 32-bit accumulator. -/
def sumWords (fs : FsNvram) (mem : Mem) : BitVec 32 :=
  let count := uint (fs.len - filesystemHeaderSize)
  let sum := loop (fun i (sum : BitVec 32) =>
    sum + (read16 fs mem (filesystemHeaderSize + 2 * i)).setWidth 32) (count / 2) 0
  if count % 2 > 0 then
    sum + (readByte fs mem (filesystemHeaderSize + 2 * (count / 2))).setWidth 32 <<< 8
  else sum

def updateChecksum (fs : FsNvram) (mem : Mem) : Mem :=
  let mem := write16 fs mem checksumOffset 0
  write16 fs mem checksumOffset (~~~(BitVec.ofNat 16 (foldSum (sumWords fs mem).toNat)))

/-- The buffer that `malloc(len + 1)` returns and `fs_nvram_memcpy_from` fills;
`len + 1` is a `u_int`, and a size that wraps does not hold the data. -/
def readData (fs : FsNvram) (mem : Mem) (offset : Nat) (len : BitVec 32) : Option (List Byte) :=
  if len.toNat + 1 < 2 ^ 32 then some (memcpyFrom fs mem offset len.toNat) else none

def create (fs : FsNvram) (mem : Mem) : Mem :=
  let mem := clear fs mem 0 fs.len
  let mem := write16 fs mem 6 magicFilesystem
  write16 fs mem checksumOffset 0xFFFF

def lenDiv (flags : BitVec 32) : Nat :=
  (if hasFlag flags flagScale4 then 4 else 1) * if hasFlag flags flagWithBackup then 2 else 1

/-- The fields that `fs_nvram_open` sets for a length it accepts. -/
def openFs (len : Nat) (addr flags : BitVec 32) : FsNvram where
  len := len / lenDiv flags
  addr := addr
  flags := flags
  shift := if hasFlag flags flagScale4 then 2 else 0
  padding := if hasFlag flags flagAlign4Pad4 then 4 else 8
  backup := if hasFlag flags flagWithBackup then min (len / lenDiv flags) normalFilesystemBlock1 else 0

/-- `fs_nvram_open` on a memory area that is not NULL; the result is the
filesystem and the memory after a creation. -/
def fsNvramOpen (mem : Mem) (len : Nat) (addr flags : BitVec 32) : Option (FsNvram × Mem) :=
  if len < filesystemHeaderSize * lenDiv flags ∨ len % (sectorSize * lenDiv flags) ≠ 0 then none
  else
    let fs := openFs len addr flags
    if read16 fs mem 6 ≠ magicFilesystem then
      if hasFlag flags flagOpenCreate then some (fs, create fs mem) else none
    else some (fs, mem)

/-- What `fs_nvram_read_config` returns and stores through its four pointers. -/
structure ReadConfig where
  err : Int
  startupConfig : Option (List Byte)
  startupLen : Nat
  privateConfig : Option (List Byte)
  privateLen : Nat
  deriving DecidableEq

def ReadConfig.error (err : Int) : ReadConfig := ⟨err, none, 0, none, 0⟩

def readStartup (uninit : LzcTables) (heap : Nat → Byte) (fs : FsNvram) (mem : Mem)
    (head : StartupHeader) : Option (Except Int (List Byte × Nat)) :=
  if head.format = formatRaw then do
    let data ← readData fs mem (offsetOf fs head.start).toNat head.len
    some (.ok (data, head.len.toNat))
  else if head.format = formatLzc then do
    let buf ← readData fs mem (offsetOf fs head.start).toNat head.len
    let outLen := head.uncompressedLen.toNat
    if outLen + 1 < 2 ^ 32 then
      let (err, out) ← uncompressLZC uninit buf heap outLen
      if err ≠ 0 then some (.error err)
      else some (.ok ((List.range outLen).map out, outLen))
    else none
  else some (.error enotsup)

/-- `none` is a write outside of a buffer. `uninit` and `heap` are what fresh
memory holds. -/
def fsNvramReadConfig (uninit : LzcTables) (heap : Nat → Byte) (fs : FsNvram) (mem : Mem) :
    Option ReadConfig :=
  let startupHead := StartupHeader.ofBytes
    (memcpyFrom fs mem filesystemHeaderSize startupHeaderSize)
  if startupHead.magic ≠ magicStartupConfig then some ⟨0, none, 0, none, 0⟩
  else
    let off := (offsetOf fs (startupHead.start + startupHead.len)).toNat
    let off := off + paddingAt fs off
    if off + privateHeaderSize > fs.len then some (.error enomem)
    else
      let privateHead := PrivateHeader.ofBytes (memcpyFrom fs mem off privateHeaderSize)
      do
        match ← readStartup uninit heap fs mem startupHead with
        | .error err => some (.error err)
        | .ok (startup, startupLen) =>
          if (offsetOf fs (privateHead.start + privateHead.len)).toNat > fs.len ∨
              privateHead.magic ≠ magicPrivateConfig then
            some ⟨0, some startup, startupLen, none, 0⟩
          else if privateHead.format = formatRaw then
            let data ← readData fs mem (offsetOf fs privateHead.start).toNat privateHead.len
            some ⟨0, some startup, startupLen, some data, privateHead.len.toNat⟩
          else some (.error enotsup)

def oldDataEnd (fs : FsNvram) (mem : Mem) : Nat :=
  let len := filesystemHeaderSize
  if read16 fs mem len = magicStartupConfig then
    let len := len + (read32 fs mem (len + 16)).toNat
    let len := if len % 4 ≠ 0 then len + (8 - len % 4) else len
    if read16 fs mem len = magicPrivateConfig then len + (read32 fs mem (len + 12)).toNat else len
  else len

def wholeSector (len : Nat) : Nat :=
  if len % sectorSize ≠ 0 then len + (sectorSize - len % sectorSize) else len

def oldLength (fs : FsNvram) (mem : Mem) : Nat :=
  let len := wholeSector (oldDataEnd fs mem)
  if len > fs.len then fs.len else len

def startupHeaderFor (fs : FsNvram) (startupLen : Nat) : StartupHeader :=
  let start := addressOf fs (BitVec.ofNat 32 (filesystemHeaderSize + startupHeaderSize))
  { magic := magicStartupConfig
    format := formatRaw
    checksum := 0
    unk1 := if hasFlag fs.flags flagsUnk10C01 then 0x0C01
      else if hasFlag fs.flags flagsUnk10C03 then 0x0C03 else 0x0C04
    start := start
    stop := start + BitVec.ofNat 32 startupLen
    len := BitVec.ofNat 32 startupLen
    unk2 := 0
    unk3 := 0
    unk4 := 0
    unk5 := 0
    uncompressedLen := 0 }

def privateHeaderFor (startupEnd : BitVec 32) (padding privateLen : Nat) : PrivateHeader :=
  let start := startupEnd + BitVec.ofNat 32 padding + BitVec.ofNat 32 privateHeaderSize
  { magic := magicPrivateConfig
    format := formatRaw
    start := start
    stop := start + BitVec.ofNat 32 privateLen
    len := BitVec.ofNat 32 privateLen }

def fsNvramWriteConfig (fs : FsNvram) (mem : Mem) (startup priv : List Byte) : Int × Mem :=
  let len := filesystemHeaderSize + startupHeaderSize + startup.length
  let padding := paddingAt fs len
  let len := len + padding + privateHeaderSize + priv.length
  if fs.len < len then (enospc, mem)
  else
    let oldLen := oldLength fs mem
    let startupHead := startupHeaderFor fs startup.length
    let privateHead := privateHeaderFor startupHead.stop padding priv.length
    let off := filesystemHeaderSize
    let mem := memcpyTo fs mem off startupHead.toBytes startupHeaderSize
    let off := off + startupHeaderSize
    let mem := memcpyTo fs mem off startup startup.length
    let off := off + startup.length
    let mem := clear fs mem off padding
    let off := off + padding
    let mem := memcpyTo fs mem off privateHead.toBytes privateHeaderSize
    let off := off + privateHeaderSize
    let mem := memcpyTo fs mem off priv priv.length
    let off := off + priv.length
    let mem := if off < oldLen then clear fs mem off (oldLen - off) else mem
    (0, updateChecksum fs mem)

end Dynamips.Nvram
