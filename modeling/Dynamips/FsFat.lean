import Dynamips.Lib.Bytes
import Dynamips.PcmciaDisk

/-! The FAT16 formatter of the PCMCIA disks, and the volume that the guest sees in
what it writes. -/
set_option autoImplicit false

namespace Dynamips.FsFat

/-- A sector of `FS_FAT_SECTOR_SIZE` bytes. -/
abbrev Sector := Nat → Byte

abbrev FS_FAT_SECTOR_SIZE : Nat := 512

/-- `struct fat16_data` -/
structure Fat16Data where
  volume_name : List Byte
  volume_sectors : BitVec 32
  reserved_sectors : BitVec 16
  root_entry_count : BitVec 16
  fat_sectors : BitVec 16
  sects_per_track : BitVec 16
  heads : BitVec 16
  sects_per_cluster : Byte
  nr_fats : Byte

def cluster_size_table16 : List (BitVec 32 × Byte) :=
  [(32680, 2), (262144, 4), (524288, 8), (1048576, 16), (2097152, 32), (4194304, 64),
    (8388608, 128)]

def put (p : Sector) (i : Nat) (bytes : List Byte) : Sector := fun a =>
  if i ≤ a ∧ a < i + bytes.length then bytes.getD (a - i) 0 else p a

def set_u32 (p : Sector) (i : Nat) (v : BitVec 32) : Sector :=
  put p i [v.setWidth 8, (v >>> 8).setWidth 8, (v >>> 16).setWidth 8, (v >>> 24).setWidth 8]

def set_u16 (p : Sector) (i : Nat) (v : BitVec 16) : Sector :=
  put p i [v.setWidth 8, (v >>> 8).setWidth 8]

def fat16_empty : Sector := fun _ => 0

def fat16_first : Sector := set_u16 (set_u16 fat16_empty 0x0 0xFFF8) 0x2 0xFFFF

/-- The eleven bytes of the name, which a C string ends before a zero. -/
def volumeName (name : List Byte) : List Byte :=
  (name.takeWhile (· ≠ 0) ++ List.replicate 11 0x20).take 11

/-- `boot16`, with the four bytes that `rand` gives. -/
def boot16 (fat16 : Fat16Data) (volumeId : BitVec 32) : Sector :=
  let sector := fat16_empty
  let sector := put sector 0x0 [0xEB, 0x3C, 0x90]
  let sector := put sector 0x3 [0x44, 0x59, 0x4E, 0x41, 0x4D, 0x49, 0x50, 0x53]
  let sector := set_u16 sector 0xB 512
  let sector := put sector 0xD [fat16.sects_per_cluster]
  let sector := set_u16 sector 0xE fat16.reserved_sectors
  let sector := put sector 0x10 [fat16.nr_fats]
  let sector := set_u16 sector 0x11 fat16.root_entry_count
  let sector := set_u16 sector 0x13 0x0000
  let sector := put sector 0x15 [0xF8]
  let sector := set_u16 sector 0x16 fat16.fat_sectors
  let sector := set_u16 sector 0x18 fat16.sects_per_track
  let sector := set_u16 sector 0x1A fat16.heads
  let sector := set_u16 sector 0x1C 0x0000
  let sector := set_u32 sector 0x20 fat16.volume_sectors
  let sector := put sector 0x24 [0x80, 0x00, 0x29]
  let sector := set_u32 sector 0x27 volumeId
  let sector := put sector 0x2B (volumeName fat16.volume_name)
  let sector := put sector 0x36 [0x46, 0x41, 0x54, 0x31, 0x36, 0x20, 0x20, 0x20]
  put sector 0x1FE [0x55, 0xAA]

/-- The decimal digits of `%d`. -/
def digits (n : Nat) : List Byte := (Nat.toDigits 10 n).map fun c => BitVec.ofNat 8 c.toNat

/-- `DISK%dMB` in a buffer of twelve bytes. -/
def defaultName (nrSectors : BitVec 32) : List Byte :=
  ([0x44, 0x49, 0x53, 0x4B] ++ digits (nrSectors.toNat / 2048) ++ [0x4D, 0x42]).take 11

/-- The data that the formatter lays the volume out with; none where the volume is too
large for the table. -/
def prepareFat16 (nrSectors : BitVec 32) (sectsPerTrack heads : BitVec 16)
    (name : Option (List Byte)) : Option Fat16Data :=
  (cluster_size_table16.find? fun row => decide (nrSectors ≤ row.1)).map fun row =>
    let total_clusters : BitVec 32 := nrSectors / row.2.setWidth 32 + 1
    { volume_name := name.getD (defaultName nrSectors)
      volume_sectors := nrSectors
      reserved_sectors := 1
      root_entry_count := 512
      fat_sectors := (total_clusters / 256 + 1).setWidth 16
      sects_per_track := sectsPerTrack
      heads := heads
      sects_per_cluster := row.2
      nr_fats := 2 }

def fatWrites (fat16 : Fat16Data) (beginLba : BitVec 32) (ifat : Nat) :
    List (BitVec 32 × Sector) :=
  let fat_lba := beginLba + fat16.reserved_sectors.setWidth 32 +
    BitVec.ofNat 32 (ifat * fat16.fat_sectors.toNat)
  (fat_lba, fat16_first) ::
    (List.range' 1 (fat16.fat_sectors.toNat - 1)).map fun isec =>
      (BitVec.ofNat 32 isec + fat_lba, fat16_empty)

def rootdirSectors (fat16 : Fat16Data) : Nat :=
  (fat16.root_entry_count.toNat * 32 + (FS_FAT_SECTOR_SIZE - 1)) / FS_FAT_SECTOR_SIZE

def rootdirWrites (fat16 : Fat16Data) (beginLba : BitVec 32) : List (BitVec 32 × Sector) :=
  let rootdir_lba := beginLba + fat16.reserved_sectors.setWidth 32 +
    BitVec.ofNat 32 (fat16.nr_fats.toNat * fat16.fat_sectors.toNat)
  (List.range (rootdirSectors fat16)).map fun isec =>
    (rootdir_lba + BitVec.ofNat 32 isec, fat16_empty)

def formatWrites (fat16 : Fat16Data) (beginLba volumeId : BitVec 32) :
    List (BitVec 32 × Sector) :=
  (beginLba, boot16 fat16 volumeId) ::
    ((List.range fat16.nr_fats.toNat).flatMap (fatWrites fat16 beginLba) ++
      rootdirWrites fat16 beginLba)

/-- Writes until one fails; `ok` tells which do not. -/
def writeSectors (ok : Nat → Bool) : Nat → List (BitVec 32 × Sector) →
    List (BitVec 32 × Sector) × Bool
  | _, [] => ([], true)
  | k, w :: writes =>
    if ok k then ((w :: (writeSectors ok (k + 1) writes).1), (writeSectors ok (k + 1) writes).2)
    else ([w], false)

/-- `fs_fat_format16`: the sectors written to, and whether it returns 0. -/
def fs_fat_format16 (ok : Nat → Bool) (beginLba nrSectors : BitVec 32)
    (sectsPerTrack heads : BitVec 16) (name : Option (List Byte)) (volumeId : BitVec 32) :
    List (BitVec 32 × Sector) × Bool :=
  match prepareFat16 nrSectors sectsPerTrack heads name with
  | none => ([], false)
  | some fat16 => writeSectors ok 0 (formatWrites fat16 beginLba volumeId)

/-- The partition that `disk_format` makes: its first sector and its length. -/
def diskPartition (d : PcmciaDisk.Disk) : BitVec 32 × BitVec 32 :=
  let lba := PcmciaDisk.chsToLba d 0 1 1
  (lba, d.nrHeads * d.nrCylinders * d.sectsPerTrack - lba)

/-- The formatter as `disk_format` calls it. -/
def diskFormat (d : PcmciaDisk.Disk) (ok : Nat → Bool) (name : List Byte) (volumeId : BitVec 32) :
    List (BitVec 32 × Sector) × Bool :=
  fs_fat_format16 ok (diskPartition d).1 (diskPartition d).2 (d.sectsPerTrack.setWidth 16)
    (d.nrHeads.setWidth 16) (some name) volumeId

def u16 (p : Sector) (i : Nat) : Nat := (p i).toNat + 256 * (p (i + 1)).toNat

def u32 (p : Sector) (i : Nat) : Nat := u16 p i + 65536 * u16 p (i + 2)

def firstDataSector (boot : Sector) : Nat :=
  u16 boot 0xE + (boot 0x10).toNat * u16 boot 0x16 +
    (u16 boot 0x11 * 32 + (u16 boot 0xB - 1)) / u16 boot 0xB

def totalSectors (boot : Sector) : Nat :=
  if u16 boot 0x13 ≠ 0 then u16 boot 0x13 else u32 boot 0x20

/-- The count of clusters by which the guest tells the kinds of FAT apart. -/
def countOfClusters (boot : Sector) : Nat :=
  (totalSectors boot - firstDataSector boot) / (boot 0xD).toNat

def fatEntries (boot : Sector) : Nat := u16 boot 0x16 * u16 boot 0xB / 2

def IsFat16 (boot : Sector) : Prop := 4085 ≤ countOfClusters boot ∧ countOfClusters boot < 65525

/-- What the formatter is to leave of a partition: every sector written to lies in it, and
after a success there is a FAT16 volume, with its FATs and its root directory. -/
structure Formatted (lba n : BitVec 32) (res : List (BitVec 32 × Sector) × Bool) : Prop where
  inside : ∀ w ∈ res.1, lba.toNat ≤ w.1.toNat ∧ w.1.toNat < lba.toNat + n.toNat
  volume : res.2 = true → ∃ boot, (lba, boot) ∈ res.1 ∧ totalSectors boot = n.toNat ∧
    (∀ i < firstDataSector boot, ∃ s, (lba + BitVec.ofNat 32 i, s) ∈ res.1) ∧
    countOfClusters boot + 2 ≤ fatEntries boot ∧ IsFat16 boot

def FormatsFat16 (diskSize : BitVec 32) : Prop :=
  ∀ file ok name volumeId, Formatted (diskPartition (PcmciaDisk.diskInit diskSize file)).1
    (diskPartition (PcmciaDisk.diskInit diskSize file)).2
    (diskFormat (PcmciaDisk.diskInit diskSize file) ok name volumeId)

end Dynamips.FsFat
