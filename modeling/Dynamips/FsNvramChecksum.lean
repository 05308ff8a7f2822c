import Dynamips.Lib.OnesSum
import Dynamips.FsNvramVerify

/-! The checksum of the filesystem. -/
set_option autoImplicit false

namespace Dynamips.Nvram
open Loop

def configWords (fs : FsNvram) (mem : Mem) : List Nat :=
  (List.range ((fs.len - filesystemHeaderSize) / 2)).map fun i =>
    (read16 fs mem (filesystemHeaderSize + 2 * i)).toNat

def plainSum (fs : FsNvram) (mem : Mem) : Nat :=
  ((List.range ((fs.len - filesystemHeaderSize) / 2)).map fun i =>
    if i = 2 then 0 else (read16 fs mem (filesystemHeaderSize + 2 * i)).toNat).sum

/-- The filesystem adds up to 0xFFFF, and its checksum is the one that a sum without any limit
gives. -/
def ChecksumRight (fs : FsNvram) (mem : Mem) : Prop :=
  onesSum (configWords fs (updateChecksum fs mem)) = 0xFFFF ∧
    read16 fs (updateChecksum fs mem) checksumOffset =
      ~~~BitVec.ofNat 16 (foldSum (plainSum fs mem))

theorem foldSum_spec (n : Nat) :
    foldSum n < 2 ^ 16 ∧ foldSum n % 0xFFFF = n % 0xFFFF ∧ (foldSum n = 0 ↔ n = 0) := by
  induction n using Nat.strongRecOn with
  | ind n ih =>
    rw [foldSum]
    split
    · rename_i h
      exact ⟨h, rfl, Iff.rfl⟩
    · rename_i h
      have hless := ih (n % 2 ^ 16 + n / 2 ^ 16) (by omega)
      omega

variable {len : Nat} {addr flags : BitVec 32} {fs : FsNvram} {mem : Mem}

theorem read16_lt (o : Nat) : (read16 fs mem o).toNat < 2 ^ 16 := (read16 fs mem o).isLt

theorem read16_write16 (hacc : Accepted len flags) (hlen : len ≤ 2 ^ 32) {o o' : Nat}
    (ho : o + 1 < (openFs len addr flags).len) (ho' : o' + 1 < (openFs len addr flags).len)
    (hword : o' = o ∨ o + 2 ≤ o' ∨ o' + 2 ≤ o) (val : BitVec 16) :
    read16 (openFs len addr flags) (write16 (openFs len addr flags) mem o val) o' =
      if o' = o then val else read16 (openFs len addr flags) mem o' := by
  have hread := fun m o v o' h h' => @readByte_writeByte _ addr _ hacc hlen m o v o' h h'
  rw [read16, write16]
  split
  · rename_i heq
    subst heq
    rw [hread _ _ _ _ (by omega) (by omega), hread _ _ _ _ (by omega) (by omega),
      hread _ _ _ _ (by omega) (by omega), if_neg (by omega), if_pos rfl, if_pos rfl]
    exact mNtoh16_mHton16 val []
  · rename_i hne
    rw [hread _ _ _ _ (by omega) (by omega), hread _ _ _ _ (by omega) (by omega),
      hread _ _ _ _ (by omega) (by omega), hread _ _ _ _ (by omega) (by omega),
      if_neg (by omega), if_neg (by omega), if_neg (by omega), if_neg (by omega)]
    rfl

theorem sumWords_toNat (heven : (fs.len - filesystemHeaderSize) % 2 = 0)
    (hsmall : fs.len - filesystemHeaderSize < 2 ^ 32) :
    (sumWords fs mem).toNat = (configWords fs mem).sum % 2 ^ 32 := by
  have hloop : ∀ n, (loop (fun i (sum : BitVec 32) =>
      sum + (read16 fs mem (filesystemHeaderSize + 2 * i)).setWidth 32) n 0).toNat =
        ((List.range n).map fun i =>
          (read16 fs mem (filesystemHeaderSize + 2 * i)).toNat).sum % 2 ^ 32 := by
    intro n
    induction n with
    | zero => rfl
    | succ n ih =>
      have hword := @read16_lt fs mem (filesystemHeaderSize + 2 * n)
      rw [loop, BitVec.toNat_add, ih, BitVec.toNat_setWidth, List.range_succ]
      simp only [List.map_append, List.map_cons, List.map_nil, List.sum_append, List.sum_cons,
        List.sum_nil]
      omega
  rw [sumWords, uint_of_lt hsmall]
  refine Eq.trans (congrArg BitVec.toNat (if_neg (by omega))) ?_
  rw [hloop]
  rfl

theorem plainSum_le : plainSum fs mem ≤ (fs.len - filesystemHeaderSize) / 2 * 0xFFFF := by
  refine sum_map_range_le fun i _ => ?_
  have hlt := @read16_lt fs mem (filesystemHeaderSize + 2 * i)
  split <;> omega

section Update

variable (hacc : Accepted len flags) (hlen : len ≤ 2 ^ 32)
include hacc

theorem len_openFs_bounds : 1024 ≤ (openFs len addr flags).len ∧
    (openFs len addr flags).len % 1024 = 0 ∧ (openFs len addr flags).len ≤ len :=
  ⟨sectorSize_le_len hacc, len_openFs_mod hacc, Nat.div_le_self _ _⟩

include hlen

theorem word_write16 {i : Nat}
    (hi : i < ((openFs len addr flags).len - filesystemHeaderSize) / 2) (val : BitVec 16) :
    read16 (openFs len addr flags) (write16 (openFs len addr flags) mem checksumOffset val)
        (filesystemHeaderSize + 2 * i) =
      if i = 2 then val else read16 (openFs len addr flags) mem (filesystemHeaderSize + 2 * i) := by
  obtain ⟨hmin, hmod, -⟩ := @len_openFs_bounds _ addr _ hacc
  simp only [filesystemHeaderSize] at hi
  rw [read16_write16 hacc hlen]
  · congr 1
    simp only [checksumOffset, filesystemHeaderSize, eq_iff_iff]
    omega
  all_goals
    simp only [checksumOffset, filesystemHeaderSize]
    omega

theorem plainSum_write16 (val : BitVec 16) :
    plainSum (openFs len addr flags)
      (write16 (openFs len addr flags) mem checksumOffset val) =
        plainSum (openFs len addr flags) mem := by
  rw [plainSum, plainSum]
  congr 1
  refine List.map_congr_left fun i hi => ?_
  rw [List.mem_range] at hi
  split
  · rfl
  · rename_i h2
    rw [word_write16 hacc hlen hi, if_neg h2]

theorem configWords_write16 (val : BitVec 16) :
    (configWords (openFs len addr flags)
      (write16 (openFs len addr flags) mem checksumOffset val)).sum =
        plainSum (openFs len addr flags) mem + val.toNat := by
  have hmin := (@len_openFs_bounds _ addr _ hacc).1
  have hsum := sum_map_range_add (fun i => if i = 2 then 0 else
    (read16 (openFs len addr flags) mem (filesystemHeaderSize + 2 * i)).toNat) 2 val.toNat
    (((openFs len addr flags).len - filesystemHeaderSize) / 2)
  rw [if_pos (by simp only [filesystemHeaderSize]; omega)] at hsum
  rw [plainSum, ← hsum, configWords]
  congr 1
  refine List.map_congr_left fun i hi => ?_
  rw [List.mem_range] at hi
  rw [word_write16 hacc hlen hi]
  by_cases h2 : i = 2
  · rw [if_pos h2, if_pos h2, if_pos h2, Nat.zero_add]
  · rw [if_neg h2, if_neg h2, if_neg h2]

theorem updateChecksum_words :
    read16 (openFs len addr flags) (updateChecksum (openFs len addr flags) mem) checksumOffset =
        ~~~BitVec.ofNat 16 (foldSum (plainSum (openFs len addr flags) mem % 2 ^ 32)) ∧
      (configWords (openFs len addr flags) (updateChecksum (openFs len addr flags) mem)).sum =
        plainSum (openFs len addr flags) mem +
          (0xFFFF - foldSum (plainSum (openFs len addr flags) mem % 2 ^ 32)) := by
  obtain ⟨hmin, hmod, hle⟩ := @len_openFs_bounds _ addr _ hacc
  have hacc32 := @sumWords_toNat (openFs len addr flags)
    (write16 (openFs len addr flags) mem checksumOffset 0)
    (by simp only [filesystemHeaderSize]; omega) (by simp only [filesystemHeaderSize]; omega)
  rw [configWords_write16 hacc hlen, show (0 : BitVec 16).toNat = 0 from rfl, Nat.add_zero] at hacc32
  have hfold := (foldSum_spec (plainSum (openFs len addr flags) mem % 2 ^ 32)).1
  constructor
  · have hword := @word_write16 len addr flags
      (write16 (openFs len addr flags) mem checksumOffset 0) hacc hlen 2
      (by simp only [filesystemHeaderSize]; omega)
    rw [← hacc32]
    exact hword _
  · rw [updateChecksum, hacc32, configWords_write16 hacc hlen, plainSum_write16 hacc hlen, BitVec.toNat_not,
      BitVec.toNat_ofNat, Nat.mod_eq_of_lt hfold]

theorem checksum_fits : ChecksumRight (openFs len addr flags) mem ↔
    plainSum (openFs len addr flags) mem < 2 ^ 32 := by
  obtain ⟨hword, hsum⟩ := @updateChecksum_words len addr flags mem hacc hlen
  obtain ⟨-, -, hle⟩ := @len_openFs_bounds _ addr _ hacc
  have hmax := @plainSum_le (openFs len addr flags) mem
  simp only [filesystemHeaderSize] at hmax
  have hcut := foldSum_spec (plainSum (openFs len addr flags) mem % 2 ^ 32)
  have hfull := foldSum_spec (plainSum (openFs len addr flags) mem)
  have hlt : ∀ w ∈ configWords (openFs len addr flags) (updateChecksum (openFs len addr flags) mem),
      w < 2 ^ 16 := by
    intro w hw
    obtain ⟨i, -, rfl⟩ := List.mem_map.mp hw
    exact read16_lt _
  rw [ChecksumRight, onesSum_eq_iff hlt, hsum, hword]
  constructor
  · intro h
    omega
  · intro h
    rw [Nat.mod_eq_of_lt h] at hcut ⊢
    exact ⟨by omega, rfl⟩

end Update

/-- After an update the checksum is right exactly when the plain sum of the words is below 2^32. -/
theorem checksumRight_iff (addr : BitVec 32) (hacc : Accepted len flags) (hlen : len ≤ 2 ^ 32)
    (mem : Mem) : ChecksumRight (openFs len addr flags) mem ↔
      plainSum (openFs len addr flags) mem < 2 ^ 32 := checksum_fits hacc hlen

theorem plainSum_lt (h : fs.len ≤ 0x20000) : plainSum fs mem < 2 ^ 32 := by
  have hmax := @plainSum_le fs mem
  simp only [filesystemHeaderSize] at hmax
  omega

theorem checksumRight_ones : Accepted 0x20000 0 ∧ ChecksumRight (openFs 0x20000 0 0) fun _ => 0xFF :=
  ⟨accepted_of_plain (by decide) (by decide),
    (checksumRight_iff 0 (accepted_of_plain (by decide) (by decide)) (by decide) _).mpr
      (plainSum_lt (by decide))⟩

/-- A memory with the filesystem magic number and ones everywhere else. -/
def onesImage : Mem := fun o => if o = 6 then 0xF0 else if o = 7 then 0xA5 else 0xFF

theorem plainSum_ones (h : ∀ o, 8 ≤ o → o < fs.len → 8 ≤ address1 fs o) :
    plainSum fs onesImage + (if 2 < (fs.len - filesystemHeaderSize) / 2 then 0xFFFF else 0) =
      (fs.len - filesystemHeaderSize) / 2 * 0xFFFF := by
  have hsum := sum_map_range_add (fun i => if i = 2 then 0 else
    (read16 fs onesImage (filesystemHeaderSize + 2 * i)).toNat) 2 0xFFFF
    ((fs.len - filesystemHeaderSize) / 2)
  rw [plainSum, ← hsum]
  have hones : ((List.range ((fs.len - filesystemHeaderSize) / 2)).map fun i =>
      if i = 2 then (if i = 2 then 0 else
        (read16 fs onesImage (filesystemHeaderSize + 2 * i)).toNat) + 0xFFFF
      else if i = 2 then 0 else (read16 fs onesImage (filesystemHeaderSize + 2 * i)).toNat) =
      List.replicate ((fs.len - filesystemHeaderSize) / 2) 0xFFFF := by
    rw [List.eq_replicate_iff]
    refine ⟨by simp, fun w hw => ?_⟩
    obtain ⟨i, hi, rfl⟩ := List.mem_map.mp hw
    simp only [List.mem_range, filesystemHeaderSize] at hi
    split
    · rfl
    · have hbyte : ∀ o, 8 ≤ o → o < fs.len → readByte fs onesImage o = 0xFF := by
        intro o ho hlt
        have hbig := h o ho hlt
        rw [readByte_eq, onesImage, if_neg (by omega), if_neg (by omega)]
      rw [read16, filesystemHeaderSize, hbyte _ (by omega) (by omega), hbyte _ (by omega) (by omega)]
      decide
  rw [hones, List.sum_replicate_nat]

/-- The geometry of the c3745, with ones in every byte of the configuration. -/
theorem not_checksumRight_c3745 : Accepted 0x4C000 flagWithBackup ∧
    (fsNvramOpen onesImage 0x4C000 0 flagWithBackup).map Prod.fst =
        some (openFs 0x4C000 0 flagWithBackup) ∧
      ¬ChecksumRight (openFs 0x4C000 0 flagWithBackup) onesImage := by
  have hacc : Accepted 0x4C000 flagWithBackup := accepted_of_backup (by decide) (by decide)
  refine ⟨hacc, rfl, fun h => ?_⟩
  have hlt := (checksum_fits hacc (by decide)).mp h
  have hlen : (openFs 0x4C000 0 flagWithBackup).len = 0x26000 := by decide
  have hsum := @plainSum_ones (openFs 0x4C000 0 flagWithBackup) fun o ho hlt => by
    rw [address1_layout hacc (by decide) hlt, layout1]
    have hpos := Nat.two_pow_pos (openFs 0x4C000 0 flagWithBackup).shift
    split
    · exact Nat.le_trans (by omega) (Nat.le_mul_of_pos_right _ hpos)
    · exact Nat.le_trans ho (Nat.le_mul_of_pos_right _ hpos)
  rw [hlen, if_pos (by decide)] at hsum
  simp only [filesystemHeaderSize] at hsum
  omega

end Dynamips.Nvram
