import Dynamips.Lib.Runs

/-! A boot flash of interleaved chips (dev_bootflash.c): the command automaton of
each chip and the bytes of the array that it reads and writes. -/
set_option autoImplicit false

namespace Dynamips.Bootflash

open Runs

abbrev Byte := BitVec 8

abbrev Word := BitVec 32

inductive CmdState where
  | readArray | readId | readQuery | readStatus | writeBufCnt | writeBufData | writeBufConfirm
  | wbProg | wbProgDone | blkErase | blkEraseDone | config
deriving DecidableEq, Repr

inductive Mode where
  | byte | word
deriving DecidableEq, Repr

/-- `FLASH_MODE_BYTE` and `FLASH_MODE_WORD`, the bytes of a cell. -/
def Mode.bytes : Mode → Nat
  | .byte => 1
  | .word => 2

/-- `offset_shift` of `flashset_init` -/
def Mode.offsetShift : Mode → Nat
  | .byte => 0
  | .word => 1

/-- `struct flash_model`, which `flashset_init` copies to the set and its chips. -/
structure FlashModel where
  name : String
  totalSize : Nat
  mode : Mode
  nrFlashBits : Nat
  blkSize : Nat
  idManufacturer : Byte
  idDevice : Byte
deriving DecidableEq, Repr

def flashModels : List FlashModel :=
  [⟨"c1700-bootflash-4mb", 4 * 1048576, .word, 0, 0x10000, 0x89, 0x14⟩,
    ⟨"c1700-bootflash-8mb", 8 * 1048576, .word, 0, 0x10000, 0x89, 0x15⟩,
    ⟨"c3600-bootflash-8mb", 8 * 1048576, .byte, 2, 0x10000, 0x89, 0xa0⟩,
    ⟨"c7200-bootflash-4mb", 4 * 1048576, .byte, 2, 0x10000, 0x89, 0xa2⟩,
    ⟨"c7200-bootflash-8mb", 8 * 1048576, .byte, 2, 0x10000, 0x89, 0xa0⟩,
    ⟨"c7200-bootflash-64mb", 64 * 1048576, .byte, 2, 0x10000, 0x89, 0x18⟩,
    ⟨"c2600-bootflash-8mb", 8 * 1048576, .byte, 2, 0x10000, 0x89, 0xa0⟩]

def FlashModel.nrFlashCount (m : FlashModel) : Nat := 1 <<< m.nrFlashBits

def FLASH_BUF_SIZE : Nat := 32

/-- `struct flash_data`. `collected` has what was put into the write buffer since
the count was given. -/
structure FlashData where
  state : CmdState
  statusReg : Byte
  wbOffset : Nat
  wbCount : Nat
  wbRemain : Nat
  wbuf : Nat → Word
  collected : List (Nat × Word)

inductive Touch where
  | array (byte : Nat)
  | wbuf (slot : Nat)
deriving DecidableEq, Repr

/-- `struct flashset_data` with the array behind it. `touched` has what the last
access of a chip read and wrote. -/
structure Flashset where
  flash : Nat → FlashData
  array : Nat → Byte
  touched : List Touch

section
variable (m : FlashModel)

/-- The bytes of a cell of a chip, from `real_offset`. -/
def cell (pos offset : Nat) : List Nat :=
  let realOffset := (offset <<< m.nrFlashBits) + pos
  match m.mode with
  | .byte => [realOffset]
  | .word => [realOffset <<< 1, (realOffset <<< 1) + 1]

def flashRead (d : Flashset) (pos offset : Nat) : Flashset × Word :=
  ({ d with touched := d.touched ++ (cell m pos offset).map .array },
    (cell m pos offset).foldl (fun data b => (data <<< 8) ||| (d.array b).setWidth 32) 0)

def dataByte (data : Word) (byte : Nat) : Byte :=
  match m.mode with
  | .byte => data.setWidth 8
  | .word => if byte % 2 = 0 then (data >>> 8).setWidth 8 else data.setWidth 8

def flashWrite (d : Flashset) (pos offset : Nat) (data : Word) : Flashset :=
  { d with
    array := (cell m pos offset).foldl (fun a b => Function.update a b (dataByte m data b)) d.array
    touched := d.touched ++ (cell m pos offset).map .array }

/-- A loop of `flash_write` over the cells from `offset`. -/
def flashWriteRange (d : Flashset) (pos offset : Nat) (data : Nat → Word) : Nat → Flashset
  | 0 => d
  | n + 1 => flashWrite m (flashWriteRange d pos offset data n) pos (offset + n) (data n)

end

def flashCmd (d : FlashData) (offset : Nat) (cmd : Word) : FlashData :=
  let cmd := cmd &&& 0xff
  if cmd = 0x40 ∨ cmd = 0x10 then { d with state := .wbProg }
  else if cmd = 0xe8 then
    { d with state := .writeBufCnt, wbOffset := offset, wbCount := 0, wbRemain := 0 }
  else if cmd = 0x70 then { d with state := .readStatus }
  else if cmd = 0x50 then { d with statusReg := 0, state := .readArray }
  else if cmd = 0x90 then { d with state := .readId }
  else if cmd = 0x20 then { d with state := .blkErase }
  else if cmd = 0xff then { d with state := .readArray }
  else d

def Flashset.setChip (d : Flashset) (pos : Nat) (chip : FlashData) : Flashset :=
  { d with flash := Function.update d.flash pos chip }

def confirms (data : Word) : Bool := decide (data &&& 0xff = 0xd0)

/-- `flash_access`, a write when there is data. -/
def flashAccess (m : FlashModel) (d : Flashset) (pos offset : Nat) (op : Option Word) :
    Flashset × Word :=
  let d := { d with touched := [] }
  let chip := d.flash pos
  let offset := offset >>> m.mode.offsetShift
  match chip.state, op with
  | .readArray, none => flashRead m d pos offset
  | .readArray, some data => (d.setChip pos (flashCmd chip offset data), data)
  | .wbProg, some data =>
    ((flashWrite m d pos offset data).setChip pos { chip with state := .wbProgDone }, data)
  | .wbProg, none => (d, 0)
  | .wbProgDone, some data => (d.setChip pos (flashCmd chip offset data), data)
  | .wbProgDone, none => (d, 0x80)
  | .writeBufCnt, some data =>
    let count := (data &&& 0x1f).toNat + 1
    (d.setChip pos
      { chip with state := .writeBufData, wbCount := count, wbRemain := count, collected := [] },
      data)
  | .writeBufCnt, none => (d, 0x80)
  | .writeBufData, some data =>
    if chip.wbOffset ≤ offset ∧ offset < chip.wbOffset + chip.wbCount then
      ({ d with touched := [.wbuf (offset - chip.wbOffset)] }.setChip pos
        { chip with
          state := if chip.wbRemain - 1 = 0 then .writeBufConfirm else .writeBufData
          wbRemain := chip.wbRemain - 1
          wbuf := Function.update chip.wbuf (offset - chip.wbOffset) data
          collected := chip.collected ++ [(offset, data)] }, data)
    else (d, data)
  | .writeBufData, none => (d, 0x80)
  | .writeBufConfirm, some data =>
    ((if confirms data then flashWriteRange m d pos chip.wbOffset chip.wbuf chip.wbCount
      else d).setChip pos { chip with state := .readArray }, data)
  | .writeBufConfirm, none => (d, 0x80)
  | .readStatus, none => (d.setChip pos { chip with state := .readArray }, 0x80)
  | .readStatus, some data => (d.setChip pos { chip with state := .readArray }, data)
  | .readId, none =>
    (d, if offset = 0 then m.idManufacturer.setWidth 32
      else if offset = 1 then m.idDevice.setWidth 32 else 0)
  | .readId, some data => (d.setChip pos (flashCmd chip offset data), data)
  | .blkErase, some data =>
    (if confirms data then
      (flashWriteRange m d pos offset (fun _ => 0xffff) m.blkSize).setChip pos
        { chip with state := .blkEraseDone }
      else d, data)
  | .blkErase, none => (d, 0x80)
  | .blkEraseDone, some data => (d.setChip pos (flashCmd chip offset data), data)
  | .blkEraseDone, none => (d, 0x80)
  | .readQuery, op => (d, op.getD 0)
  | .config, op => (d, op.getD 0)

inductive OpSize where
  | byte | half | word | double
deriving DecidableEq, Repr

def OpSize.bytes : OpSize → Nat
  | .byte => 1
  | .half => 2
  | .word => 4
  | .double => 8

structure Access where
  offset : Nat
  opSize : OpSize
  op : Option (BitVec 64)

/-- The values of `i` in the loops of `dev_bootflash_access`. -/
def indices (m : FlashModel) (opSize : OpSize) : List Nat :=
  (List.range opSize.bytes).filter fun i => i % m.mode.bytes = 0

/-- `d_off`, an unsigned word that wraps for a byte in word mode. -/
def dOff (m : FlashModel) (opSize : OpSize) (i : Nat) : Word :=
  (BitVec.ofNat 32 opSize.bytes - BitVec.ofNat 32 i - BitVec.ofNat 32 m.mode.bytes) <<< 3

/-- What the host makes of shifts of a double word by 64 and more, which C leaves
undefined. -/
structure HostShifts where
  shl : BitVec 64 → Word → BitVec 64
  shr : BitVec 64 → Word → BitVec 64

def HostShifts.left (h : HostShifts) (x : BitVec 64) (n : Word) : BitVec 64 :=
  if n.toNat < 64 then x <<< n.toNat else h.shl x n

def HostShifts.right (h : HostShifts) (x : BitVec 64) (n : Word) : BitVec 64 :=
  if n.toNat < 64 then x >>> n.toNat else h.shr x n

section
variable (m : FlashModel) (h : HostShifts)

def flashPos (byte : Nat) : Nat := byte &&& (m.nrFlashCount - 1)

def devBootflashAccess (d : Flashset) (a : Access) : Flashset × BitVec 64 :=
  match a.op with
  | none =>
    (indices m a.opSize).foldl (fun r i =>
      let res := flashAccess m r.1 (flashPos m (a.offset + i)) ((a.offset + i) >>> m.nrFlashBits)
        none
      (res.1, r.2 ||| h.left (res.2.setWidth 64) (dOff m a.opSize i))) (d, 0)
  | some data =>
    ((indices m a.opSize).foldl (fun d i =>
      (flashAccess m d (flashPos m (a.offset + i)) ((a.offset + i) >>> m.nrFlashBits)
        (some ((h.right data (dOff m a.opSize i)).setWidth 32))).1) d, data)

/-- One turn of the loop: the byte of the device that it is for, and the data. -/
abbrev Turn := Nat × Option Word

def turns (a : Access) : List Turn :=
  (indices m a.opSize).map fun i =>
    (a.offset + i, a.op.map fun data => (h.right data (dOff m a.opSize i)).setWidth 32)

def turn (d : Flashset) (t : Turn) : Flashset :=
  (flashAccess m d (flashPos m t.1) (t.1 >>> m.nrFlashBits) t.2).1

/-- `flashset_init`, over what the file of the array has. -/
def flashsetInit (array : Nat → Byte) : Flashset where
  flash _ :=
    { state := .readArray
      statusReg := 0
      wbOffset := 0
      wbCount := 0
      wbRemain := 0
      wbuf := fun _ => 0
      collected := [] }
  array := array
  touched := []

theorem devBootflashAccess_turns (d : Flashset) (a : Access) :
    (devBootflashAccess m h d a).1 = (turns m h a).foldl (turn m) d := by
  unfold devBootflashAccess turns
  rw [List.foldl_map]
  cases a.op with
  | none =>
    have hfold : ∀ (l : List Nat) (r : Flashset × BitVec 64),
        (l.foldl (fun r i =>
          ((flashAccess m r.1 (flashPos m (a.offset + i)) ((a.offset + i) >>> m.nrFlashBits) none).1,
            r.2 ||| h.left ((flashAccess m r.1 (flashPos m (a.offset + i))
              ((a.offset + i) >>> m.nrFlashBits) none).2.setWidth 64) (dOff m a.opSize i))) r).1 =
          l.foldl (fun d i => turn m d (a.offset + i, none)) r.1 := by
      intro l
      induction l with
      | nil => simp
      | cons i l ih =>
        intro r
        rw [List.foldl_cons, List.foldl_cons, ih]
        rfl
    exact hfold _ (d, 0)
  | some data => rfl

end

end Dynamips.Bootflash
