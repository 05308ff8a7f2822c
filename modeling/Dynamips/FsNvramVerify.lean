import Dynamips.Lib.Mirror
import Dynamips.FsNvramRead

/-! `fs_nvram_verify`, and the layout with a backup. -/
set_option autoImplicit false

namespace Dynamips.Nvram
open Function (update)
open Loop

def flagVerifyBackup : BitVec 32 := 0x01
def flagVerifyConfig : BitVec 32 := 0x02
def flagVerifyAll : BitVec 32 := 0x07

def errNoMagic : Int := -0xF0A5
def errBackupMissmatch : Int := errNoMagic - 1
def errInvalidAddress : Int := errNoMagic - 2

def backupMatches (fs : FsNvram) (mem : Mem) : Bool :=
  (List.range fs.len).all fun offset =>
    mem (offset1WithBackup fs (uint offset)) = mem (offset2WithBackup fs (uint offset))

def lengthValid (fs : FsNvram) (start stop len : BitVec 32) : Prop :=
  stop = start + len ∧ len.toNat ≤ fs.len

def addressValid (fs : FsNvram) (start stop : BitVec 32) : Prop :=
  fs.addr.toNat ≤ start.toNat ∧ stop.toNat ≤ fs.addr.toNat + fs.len

instance (fs : FsNvram) (start stop len : BitVec 32) : Decidable (lengthValid fs start stop len) :=
  inferInstanceAs (Decidable (_ ∧ _))

instance (fs : FsNvram) (start stop : BitVec 32) : Decidable (addressValid fs start stop) :=
  inferInstanceAs (Decidable (_ ∧ _))

def verifyConfig (fs : FsNvram) (mem : Mem) : Int :=
  let startupHead := startupHeadAt fs mem
  if startupHead.magic ≠ magicStartupConfig then 0
  else if ¬lengthValid fs startupHead.start startupHead.stop startupHead.len then errInvalidAddress
  else if ¬addressValid fs startupHead.start startupHead.stop then errInvalidAddress
  else
    let offset := (offsetOf fs startupHead.stop).toNat
    let offset := offset + paddingAt fs offset
    if fs.len < offset + privateHeaderSize then errInvalidAddress
    else
      let privateHead := PrivateHeader.ofBytes (memcpyFrom fs mem offset privateHeaderSize)
      if privateHead.magic ≠ magicPrivateConfig then 0
      else if ¬lengthValid fs privateHead.start privateHead.stop privateHead.len then
        errInvalidAddress
      else if ¬addressValid fs privateHead.start privateHead.stop then errInvalidAddress
      else if privateHead.stop ≠ privateHead.start + privateHead.len then errInvalidAddress
      else 0

def fsNvramVerify (fs : FsNvram) (mem : Mem) (what : BitVec 32) : Int :=
  if hasFlag what flagVerifyBackup ∧ hasFlag fs.flags flagWithBackup ∧ ¬backupMatches fs mem then
    errBackupMissmatch
  else if hasFlag what flagVerifyConfig then verifyConfig fs mem
  else 0

/-! The layout. -/

section Layout

variable {len : Nat} {addr flags : BitVec 32}

theorem layout2_injective (hb : hasFlag flags flagWithBackup = true) {o o' : Nat}
    (h : layout2 (openFs len addr flags) o = layout2 (openFs len addr flags) o') : o = o' := by
  simp only [layout2, openFs, hb, if_true, normalFilesystemBlock1, backupFilesystemBlock1] at h
  split at h <;> split at h <;> omega

theorem mirror_openFs (hacc : Accepted len flags) (hlen : len ≤ 2 ^ 32)
    (hb : hasFlag flags flagWithBackup = true) :
    Mirror (openFs len addr flags).len (address1 (openFs len addr flags))
      (address2 (openFs len addr flags)) where
  normal_inj := fun _ ho _ ho' h => address1_injective hacc hlen ho ho' h
  backup_inj := by
    intro o ho o' ho' h
    rw [address2_layout hacc hlen ho, address2_layout hacc hlen ho'] at h
    exact layout2_injective hb (Nat.eq_of_mul_eq_mul_right (Nat.two_pow_pos _) h)
  apart := fun _ ho _ ho' => address1_ne_address2 hacc hlen hb ho ho'

theorem backupMatches_iff (hb : hasFlag flags flagWithBackup = true) {mem : Mem} :
    backupMatches (openFs len addr flags) mem = true ↔
      InSync (openFs len addr flags).len (address1 (openFs len addr flags))
        (address2 (openFs len addr flags)) mem := by
  have hflags : hasFlag (openFs len addr flags).flags flagWithBackup = true := hb
  simp only [backupMatches, InSync, address1, address2, hflags, if_true, List.all_eq_true,
    List.mem_range, decide_eq_true_eq]

theorem verify_backup (fs : FsNvram) (mem : Mem) (hb : hasFlag fs.flags flagWithBackup = true) :
    fsNvramVerify fs mem flagVerifyBackup = 0 ↔ backupMatches fs mem = true := by
  have hwhat : hasFlag flagVerifyBackup flagVerifyBackup = true := by decide
  have hconfig : hasFlag flagVerifyBackup flagVerifyConfig = false := by decide
  rw [fsNvramVerify, hwhat, hb, hconfig]
  cases backupMatches fs mem with
  | false => simp [errBackupMissmatch, errNoMagic]
  | true => simp

theorem writeByte_inSync (hacc : Accepted len flags) (hlen : len ≤ 2 ^ 32)
    (hb : hasFlag flags flagWithBackup = true) {mem : Mem} {o : Nat}
    (ho : o < (openFs len addr flags).len) (val : Byte)
    (h : InSync (openFs len addr flags).len (address1 (openFs len addr flags))
      (address2 (openFs len addr flags)) mem) :
    InSync (openFs len addr flags).len (address1 (openFs len addr flags))
      (address2 (openFs len addr flags)) (writeByte (openFs len addr flags) mem o val) := by
  rw [writeByte_eq]
  exact (mirror_openFs hacc hlen hb).inSync_write h ho val

theorem create_inSync (hacc : Accepted len flags) (hlen : len ≤ 2 ^ 32)
    (hb : hasFlag flags flagWithBackup = true) (mem : Mem) :
    InSync (openFs len addr flags).len (address1 (openFs len addr flags))
      (address2 (openFs len addr flags)) (create (openFs len addr flags) mem) := by
  have hm := @mirror_openFs _ addr _ hacc hlen hb
  have hsize := @sectorSize_le_len _ addr _ hacc
  simp only [sectorSize] at hsize
  have hsmall : (openFs len addr flags).len < 2 ^ 32 := by
    have harea := @area_openFs _ addr _ hacc
    rw [hb, if_pos rfl] at harea
    have hpos := Nat.two_pow_pos (openFs len addr flags).shift
    have hle := Nat.le_mul_of_pos_right ((openFs len addr flags).len * 2) hpos
    omega
  have hclear := loop_invariant
    (f := fun i mem => writeByte (openFs len addr flags) mem (0 + i) 0)
    (fun i (m : Mem) => ∀ o < i, m (address1 (openFs len addr flags) o) =
      m (address2 (openFs len addr flags) o)) (n := (openFs len addr flags).len) (s := mem)
    (by omega) (by
      intro i hi m hmem o ho
      rw [writeByte_eq, Nat.zero_add]
      by_cases heq : o = i
      · subst heq
        rw [(hm.write_self hi 0).1, (hm.write_self hi 0).2]
      · rw [(hm.write_other hi (by omega) heq 0).1, (hm.write_other hi (by omega) heq 0).2]
        exact hmem o (by omega))
  simp only [create, write16, clear, uint_of_lt hsmall, checksumOffset, filesystemHeaderSize]
  have hwrite := @writeByte_inSync _ addr _ hacc hlen hb
  exact hwrite (by omega) _ (hwrite (by omega) _ (hwrite (by omega) _ (hwrite (by omega) _ hclear)))

/-- What is asked of the layout with a backup, for every memory and every sequence of
accesses to the filesystem. -/
structure BackupLayout (len : Nat) (addr flags : BitVec 32) : Prop where
  twoCopies : ∀ o < (openFs len addr flags).len,
    address1 (openFs len addr flags) o ≠ address2 (openFs len addr flags) o
  apart : ∀ o < (openFs len addr flags).len, ∀ o' < (openFs len addr flags).len, o ≠ o' →
    address1 (openFs len addr flags) o ≠ address1 (openFs len addr flags) o' ∧
      address1 (openFs len addr flags) o ≠ address2 (openFs len addr flags) o' ∧
        address2 (openFs len addr flags) o ≠ address2 (openFs len addr flags) o'
  values : ∀ (mem : Mem) (accesses : List Access),
    (∀ a ∈ accesses, a.offset < (openFs len addr flags).len) →
      (Access.exec (readByte (openFs len addr flags)) (writeByte (openFs len addr flags))
        accesses mem).1 = Access.lastWritten accesses (readByte (openFs len addr flags) mem)
  verified : ∀ (mem : Mem) (accesses : List Access),
    (∀ a ∈ accesses, a.offset < (openFs len addr flags).len) →
      fsNvramVerify (openFs len addr flags) (Access.exec (readByte (openFs len addr flags))
        (writeByte (openFs len addr flags)) accesses (create (openFs len addr flags) mem)).2
          flagVerifyBackup = 0

theorem backupLayout_of_le (hacc : Accepted len flags) (hlen : len ≤ 2 ^ 32)
    (hb : hasFlag flags flagWithBackup = true) : BackupLayout len addr flags where
  twoCopies := fun o ho => (mirror_openFs hacc hlen hb).apart o ho o ho
  apart := by
    intro o ho o' ho' hne
    have hm := @mirror_openFs _ addr _ hacc hlen hb
    exact ⟨fun h => hne (hm.normal_inj o ho o' ho' h), hm.apart o ho o' ho',
      fun h => hne (hm.backup_inj o ho o' ho' h)⟩
  values := fun _ _ hok => (fsStore addr hacc hlen).exec_values (fun _ _ => rfl) hok
  verified := by
    intro mem accesses hok
    rw [verify_backup _ _ hb, backupMatches_iff hb]
    exact Access.exec_invariant (fun m o v ho h => writeByte_inSync hacc hlen hb ho v h) hok
      (create_inSync hacc hlen hb mem)

theorem not_backupLayout (hacc : Accepted len flags) (hlen : 2 ^ 32 < len) :
    ¬BackupLayout len addr flags := by
  intro h
  obtain ⟨j, -, h44, hroom, -, hj⟩ := @exists_collision _ addr _ hacc hlen
  rcases hj with hj | hj
  · exact (h.apart j (by omega) 8 (by omega) (by omega)).1 hj
  · exact (h.apart 8 (by omega) j (by omega) (by omega)).2.1 hj.symm

/-- The layout with a backup is right exactly in areas of at most 4 GiB. -/
theorem backupLayout_iff (addr : BitVec 32) (hacc : Accepted len flags)
    (hb : hasFlag flags flagWithBackup = true) : BackupLayout len addr flags ↔ len ≤ 2 ^ 32 := by
  constructor
  · intro h
    by_contra hlen
    exact not_backupLayout hacc (Nat.lt_of_not_le hlen) h
  · exact fun hlen => backupLayout_of_le hacc hlen hb

end Layout

theorem accepted_of_backup {len : Nat} (h : 16 ≤ len) (hdiv : len % 2048 = 0) :
    Accepted len flagWithBackup := by
  have htwo : lenDiv flagWithBackup = 2 := by decide
  rw [Accepted, htwo]
  exact ⟨h, hdiv⟩

theorem backupLayout_iff_c3745 : Accepted 0x4C000 flagWithBackup ∧
    (BackupLayout 0x4C000 0 flagWithBackup ↔ 0x4C000 ≤ 2 ^ 32) :=
  ⟨accepted_of_backup (by decide) (by decide),
    backupLayout_iff 0 (accepted_of_backup (by decide) (by decide)) (by decide)⟩

/-- Two sectors more than 4 GiB. -/
theorem not_backupLayout_long : Accepted (2 ^ 32 + 2048) flagWithBackup ∧
    ¬BackupLayout (2 ^ 32 + 2048) 0 flagWithBackup :=
  ⟨accepted_of_backup (by omega) (by omega),
    not_backupLayout (accepted_of_backup (by omega) (by omega)) (by omega)⟩

end Dynamips.Nvram
