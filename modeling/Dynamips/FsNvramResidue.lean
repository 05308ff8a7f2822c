import Dynamips.FsNvramRead

/-! What a new configuration leaves of the old one. -/
set_option autoImplicit false

namespace Dynamips.Nvram
open Function (update)

/-- The end of the configuration that `fs_nvram_write_config` writes. -/
def newEnd (fs : FsNvram) (startup priv : List Byte) : Nat :=
  let len := filesystemHeaderSize + startupHeaderSize + startup.length
  len + paddingAt fs len + privateHeaderSize + priv.length

/-- Where the old data is taken to end: without the startup header and with the padding to 8,
then with the private data if its magic number is there, rounded up to a sector. -/
def assumedEnd (fs : FsNvram) (mem : Mem) : Nat :=
  let head := startupHeadAt fs mem
  let startupEnd := filesystemHeaderSize + head.len.toNat
  let padded := if startupEnd % 4 = 0 then startupEnd else startupEnd + 8 - startupEnd % 4
  let dataEnd :=
    if head.magic ≠ magicStartupConfig then filesystemHeaderSize
    else if read16 fs mem padded = magicPrivateConfig then
      padded + (read32 fs mem (padded + 12)).toNat
    else padded
  min fs.len ((dataEnd + sectorSize - 1) / sectorSize * sectorSize)

variable {fs : FsNvram} {mem mem' : Mem}

theorem wholeSector_eq (n : Nat) : wholeSector n = (n + sectorSize - 1) / sectorSize * sectorSize := by
  rw [wholeSector]
  split
  · rename_i h
    simp only [sectorSize] at h ⊢
    omega
  · rename_i h
    simp only [sectorSize] at h ⊢
    omega

theorem startupHeadAt_magic : (startupHeadAt fs mem).magic = read16 fs mem filesystemHeaderSize := by
  rfl

theorem startupHeadAt_len :
    (startupHeadAt fs mem).len = read32 fs mem (filesystemHeaderSize + 16) := by
  rfl

theorem oldDataEnd_eq : oldDataEnd fs mem =
    let head := startupHeadAt fs mem
    let startupEnd := filesystemHeaderSize + head.len.toNat
    let padded := if startupEnd % 4 = 0 then startupEnd else startupEnd + 8 - startupEnd % 4
    if head.magic ≠ magicStartupConfig then filesystemHeaderSize
    else if read16 fs mem padded = magicPrivateConfig then
      padded + (read32 fs mem (padded + 12)).toNat
    else padded := by
  have hpad : ∀ n : Nat, (if n % 4 ≠ 0 then n + (8 - n % 4) else n) =
      if n % 4 = 0 then n else n + 8 - n % 4 := by
    intro n
    by_cases h : n % 4 = 0
    · rw [if_pos h, if_neg (not_not.mpr h)]
    · rw [if_neg h, if_pos h]
      omega
  rw [oldDataEnd]
  simp only [startupHeadAt_magic, startupHeadAt_len, hpad]
  by_cases h : read16 fs mem filesystemHeaderSize = magicStartupConfig
  · rw [if_pos h, if_neg (not_not.mpr h)]
  · rw [if_neg h, if_pos h]

theorem oldLength_eq : oldLength fs mem = assumedEnd fs mem := by
  have hmin : oldLength fs mem = min fs.len (wholeSector (oldDataEnd fs mem)) := by
    rw [oldLength]
    split <;> omega
  rw [hmin, wholeSector_eq, oldDataEnd_eq]
  rfl

variable {len : Nat} {addr flags : BitVec 32}

section Tail

variable (hacc : Accepted len flags) (hlen : len ≤ 2 ^ 32)
include hacc hlen

end Tail

end Dynamips.Nvram
