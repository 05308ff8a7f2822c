import Dynamips.FsNvramVerify
import Dynamips.FsNvramResidue

/-! `fs_nvram_verify` after `fs_nvram_write_config`. -/
set_option autoImplicit false

namespace Dynamips.Nvram
open Function (update)
open Loop

def CopiesAgree (fs : FsNvram) (mem : Mem) (o : Nat) : Prop :=
  mem (address1 fs o) = mem (address2 fs o)

/-- The copies of the bytes that the writer leaves alone agree already. -/
def RestInSync (fs : FsNvram) (mem : Mem) (startup priv : List Byte) : Prop :=
  ∀ o < fs.len, o < filesystemHeaderSize ∨ newEnd fs startup priv ≤ o ∧ assumedEnd fs mem ≤ o →
    CopiesAgree fs mem o

/-- The addresses are not below the base address, which relative ones are compared with too. -/
def AddressesFit (fs : FsNvram) (startup priv : List Byte) : Prop :=
  if hasFlag fs.flags flagAddrAbsolute then
    fs.addr.toNat + 44 < 2 ^ 32 ∧
      (fs.addr.toNat + (newEnd fs startup priv - priv.length) < 2 ^ 32 ∨
        newEnd fs startup priv - priv.length = 2 ^ 32)
  else fs.addr.toNat ≤ 36

variable {len : Nat} {addr flags : BitVec 32} {mem mem' : Mem}

/-! The backup. -/

section Backup

variable (hacc : Accepted len flags) (hlen : len ≤ 2 ^ 32)
  (hb : hasFlag flags flagWithBackup = true)
include hacc hlen hb

theorem copiesAgree_writeByte {o o' : Nat} (ho : o < (openFs len addr flags).len)
    (ho' : o' < (openFs len addr flags).len) (val : Byte) :
    CopiesAgree (openFs len addr flags) (writeByte (openFs len addr flags) mem o val) o' ↔
      o' = o ∨ CopiesAgree (openFs len addr flags) mem o' := by
  rw [CopiesAgree, writeByte_eq]
  exact (mirror_openFs hacc hlen hb).inSyncAt_write ho ho' val

theorem copiesAgree_loop {off n o : Nat} (v : Nat → Byte)
    (hfit : off + n ≤ (openFs len addr flags).len) (ho : o < (openFs len addr flags).len) :
    CopiesAgree (openFs len addr flags)
        (loop (fun i mem => writeByte (openFs len addr flags) mem (off + i) (v i)) n mem) o ↔
      (off ≤ o ∧ o < off + n) ∨ CopiesAgree (openFs len addr flags) mem o := by
  induction n with
  | zero =>
    have hnone : ¬(off ≤ o ∧ o < off + 0) := by omega
    rw [loop, or_iff_right hnone]
  | succ n ih =>
    have hrest := ih (by omega)
    rw [loop, copiesAgree_writeByte hacc hlen hb (by omega) ho, hrest, ← or_assoc]
    exact or_congr_left (by omega)

theorem copiesAgree_memcpyTo {off n o : Nat} (data : List Byte) (hn : n < 2 ^ 32)
    (hfit : off + n ≤ (openFs len addr flags).len) (ho : o < (openFs len addr flags).len) :
    CopiesAgree (openFs len addr flags) (memcpyTo (openFs len addr flags) mem off data n) o ↔
      (off ≤ o ∧ o < off + n) ∨ CopiesAgree (openFs len addr flags) mem o := by
  rw [memcpyTo, uint_of_lt hn]
  exact copiesAgree_loop hacc hlen hb _ hfit ho

theorem copiesAgree_clear {off n o : Nat} (hn : n < 2 ^ 32)
    (hfit : off + n ≤ (openFs len addr flags).len) (ho : o < (openFs len addr flags).len) :
    CopiesAgree (openFs len addr flags) (clear (openFs len addr flags) mem off n) o ↔
      (off ≤ o ∧ o < off + n) ∨ CopiesAgree (openFs len addr flags) mem o := by
  rw [clear, uint_of_lt hn]
  exact copiesAgree_loop hacc hlen hb _ hfit ho

theorem copiesAgree_updateChecksum {o : Nat} (h14 : 14 ≤ (openFs len addr flags).len)
    (ho : o < (openFs len addr flags).len) :
    CopiesAgree (openFs len addr flags) (updateChecksum (openFs len addr flags) mem) o ↔
      (12 ≤ o ∧ o < 14) ∨ CopiesAgree (openFs len addr flags) mem o := by
  obtain ⟨a, b, c, d, h⟩ := updateChecksum_eq (openFs len addr flags) mem
  have hstep := fun m o' v h => @copiesAgree_writeByte len addr flags m hacc hlen hb o' o h ho v
  rw [h, hstep _ 13 _ (by omega), hstep _ 12 _ (by omega), hstep _ 13 _ (by omega),
    hstep _ 12 _ (by omega)]
  grind

theorem copiesAgree_writeConfig {startup priv : List Byte} {o : Nat}
    (h : fsNvramWriteConfig (openFs len addr flags) mem startup priv = (0, mem'))
    (ho : o < (openFs len addr flags).len) :
    CopiesAgree (openFs len addr flags) mem' o ↔
      (8 ≤ o ∧ (o < newEnd (openFs len addr flags) startup priv ∨
        o < assumedEnd (openFs len addr flags) mem)) ∨
          CopiesAgree (openFs len addr flags) mem o := by
  obtain ⟨pad, old, head, phead, hpad, hfit, hold, hhead, hphead, rfl⟩ := fsNvramWriteConfig_eq h
  have hend : newEnd (openFs len addr flags) startup priv =
      44 + startup.length + pad + 16 + priv.length := by
    rw [hpad]
    rfl
  have hle : (openFs len addr flags).len ≤ 2 ^ 32 := Nat.le_trans (Nat.div_le_self _ _) hlen
  have holdlen : old ≤ (openFs len addr flags).len := hold ▸ oldLength_le _ _
  rw [hend, ← oldLength_eq, ← hold, copiesAgree_updateChecksum hacc hlen hb (by omega) ho]
  have hpieces : CopiesAgree (openFs len addr flags)
      (memcpyTo (openFs len addr flags) (memcpyTo (openFs len addr flags)
        (clear (openFs len addr flags) (memcpyTo (openFs len addr flags)
          (memcpyTo (openFs len addr flags) mem 8 head.toBytes 36) 44 startup startup.length)
            (44 + startup.length) pad) (44 + startup.length + pad) phead.toBytes 16)
              (44 + startup.length + pad + 16) priv priv.length) o ↔
      (8 ≤ o ∧ o < 44 + startup.length + pad + 16 + priv.length) ∨
        CopiesAgree (openFs len addr flags) mem o := by
    rw [copiesAgree_memcpyTo hacc hlen hb _ (by omega) (by omega) ho,
      copiesAgree_memcpyTo hacc hlen hb _ (by omega) (by omega) ho,
      copiesAgree_clear hacc hlen hb (by omega) (by omega) ho,
      copiesAgree_memcpyTo hacc hlen hb _ (by omega) (by omega) ho,
      copiesAgree_memcpyTo hacc hlen hb _ (by omega) (by omega) ho]
    grind
  by_cases htail : 44 + startup.length + pad + 16 + priv.length < old
  · simp only [if_pos htail]
    rw [copiesAgree_clear hacc hlen hb (by omega) (by omega) ho, hpieces]
    grind
  · simp only [if_neg htail]
    rw [hpieces]
    grind

theorem backupMatches_writeConfig {startup priv : List Byte}
    (h : fsNvramWriteConfig (openFs len addr flags) mem startup priv = (0, mem')) :
    backupMatches (openFs len addr flags) mem' = true ↔
      RestInSync (openFs len addr flags) mem startup priv := by
  rw [backupMatches_iff hb]
  constructor
  · intro hall o ho hrest
    rcases (copiesAgree_writeConfig hacc hlen hb h ho).mp (hall o ho) with hin | hold
    · simp only [filesystemHeaderSize] at hrest
      omega
    · exact hold
  · intro hrest o ho
    refine (copiesAgree_writeConfig hacc hlen hb h ho).mpr ?_
    by_cases hin : 8 ≤ o ∧ (o < newEnd (openFs len addr flags) startup priv ∨
        o < assumedEnd (openFs len addr flags) mem)
    · exact Or.inl hin
    · refine Or.inr (hrest o ho ?_)
      simp only [filesystemHeaderSize]
      omega

end Backup

/-! The headers. -/

theorem addressOf_start (fs : FsNvram) :
    addressOf fs (BitVec.ofNat 32 (filesystemHeaderSize + startupHeaderSize)) =
      if hasFlag fs.flags flagAddrAbsolute then fs.addr + 44 else 36 := by
  rw [addressOf]
  split <;> rfl

theorem startAddress_toNat (fs : FsNvram) {delta : Nat} (h : 36 + delta < 2 ^ 32) :
    (addressOf fs (BitVec.ofNat 32 (filesystemHeaderSize + startupHeaderSize)) +
      BitVec.ofNat 32 delta).toNat =
      if hasFlag fs.flags flagAddrAbsolute then uint (fs.addr.toNat + (44 + delta)) else 36 + delta := by
  have hdelta : delta < 2 ^ 32 := by omega
  rw [addressOf_start, BitVec.toNat_add, BitVec.toNat_ofNat, Nat.mod_eq_of_lt hdelta]
  split
  · rw [BitVec.toNat_add, uint, show (44 : BitVec 32).toNat = 44 from rfl]
    omega
  · exact Nat.mod_eq_of_lt h

theorem addressValid_iff (fs : FsNvram) {delta n : Nat} (hfit : 44 + delta + n ≤ fs.len)
    (hlen : fs.len ≤ 2 ^ 32) :
    addressValid fs
        (addressOf fs (BitVec.ofNat 32 (filesystemHeaderSize + startupHeaderSize)) +
          BitVec.ofNat 32 delta)
        (addressOf fs (BitVec.ofNat 32 (filesystemHeaderSize + startupHeaderSize)) +
          BitVec.ofNat 32 (delta + n)) ↔
      if hasFlag fs.flags flagAddrAbsolute then
        fs.addr.toNat + (44 + delta) < 2 ^ 32 ∨ 44 + delta = 2 ^ 32
      else fs.addr.toNat ≤ 36 + delta := by
  have haddr := fs.addr.isLt
  rw [addressValid, startAddress_toNat fs (by omega), startAddress_toNat fs (by omega)]
  split
  · simp only [uint]
    omega
  · omega

/-- The verifier's tests on the headers that were written. -/
theorem verifyConfig_iff (hacc : Accepted len flags) (hlen : len ≤ 2 ^ 32) {startup priv : List Byte}
    (h : fsNvramWriteConfig (openFs len addr flags) mem startup priv = (0, mem')) :
    verifyConfig (openFs len addr flags) mem' = 0 ↔
      AddressesFit (openFs len addr flags) startup priv := by
  obtain ⟨pad, head, phead, hpad, hfit, hhead, hphead, hwindow1, -, hwindow3, -⟩ :=
    @fsNvramWriteConfig_windows _ _ _ hacc hlen _ _ _ _ h
  have hle : (openFs len addr flags).len ≤ 2 ^ 32 := Nat.le_trans (Nat.div_le_self _ _) hlen
  have hstartup : startupHeadAt (openFs len addr flags) mem' = head := by
    rw [startupHeadAt, @memcpyFrom_eq _ _ _ hacc hlen _ _ _ (by decide)]
    exact (congrArg StartupHeader.ofBytes hwindow1).trans (StartupHeader.ofBytes_toBytes _)
  have hprivate : PrivateHeader.ofBytes (memcpyFrom (openFs len addr flags) mem'
      (44 + startup.length + pad) privateHeaderSize) = phead := by
    rw [@memcpyFrom_eq _ _ _ hacc hlen _ _ _ (by decide)]
    exact (congrArg PrivateHeader.ofBytes hwindow3).trans (PrivateHeader.ofBytes_toBytes _)
  have hstop : (offsetOf (openFs len addr flags) head.stop).toNat = 44 + startup.length := by
    rw [hhead.stop, hhead.start, offsetOf_start, uint_of_lt (by omega)]
  have hpstart : phead.start =
      addressOf (openFs len addr flags) (BitVec.ofNat 32 (filesystemHeaderSize + startupHeaderSize)) +
        BitVec.ofNat 32 (startup.length + pad + 16) := by
    rw [hphead, privateHeaderFor_start hhead]
  have hpstop : phead.stop = phead.start + BitVec.ofNat 32 priv.length := by
    rw [hphead]
    rfl
  have hplen : phead.len = BitVec.ofNat 32 priv.length := by
    rw [hphead]
    rfl
  have hlength : ∀ {n : Nat} {start : BitVec 32}, n ≤ (openFs len addr flags).len → n < 2 ^ 32 →
      lengthValid (openFs len addr flags) start (start + BitVec.ofNat 32 n) (BitVec.ofNat 32 n) := by
    intro n start hn hsmall
    refine ⟨rfl, ?_⟩
    rw [toNat_ofNat_eq, uint_of_lt hsmall]
    exact hn
  have hlength1 : lengthValid (openFs len addr flags) head.start head.stop head.len := by
    rw [hhead.stop, hhead.len]
    exact hlength (by omega) (by omega)
  have hlength2 : lengthValid (openFs len addr flags) phead.start phead.stop phead.len := by
    rw [hpstop, hplen]
    exact hlength (by omega) (by omega)
  have haddress1 := @addressValid_iff (openFs len addr flags) 0 startup.length (by omega) hle
  rw [BitVec.add_zero, Nat.zero_add, ← hhead.start,
    ← hhead.stop] at haddress1
  have haddress2 := @addressValid_iff (openFs len addr flags) (startup.length + pad + 16) priv.length
    (by omega) hle
  rw [BitVec.ofNat_add (startup.length + pad + 16), ← BitVec.add_assoc, ← hpstart,
    ← hpstop] at haddress2
  have hmagic2 : phead.magic = magicPrivateConfig := by rw [hphead]; rfl
  have herr : errInvalidAddress ≠ 0 := by decide
  have hconfig : verifyConfig (openFs len addr flags) mem' = 0 ↔
      addressValid (openFs len addr flags) head.start head.stop ∧
        addressValid (openFs len addr flags) phead.start phead.stop := by
    rw [verifyConfig]
    simp only [hstartup, hstop, ← hpad, hprivate]
    rw [if_neg (not_not.mpr hhead.magic), if_neg (not_not.mpr hlength1)]
    by_cases h1 : addressValid (openFs len addr flags) head.start head.stop
    · rw [if_neg (not_not.mpr h1), if_neg (by simp only [privateHeaderSize]; omega),
        if_neg (not_not.mpr hmagic2), if_neg (not_not.mpr hlength2), if_neg (not_not.mpr hlength2.1)]
      by_cases h2 : addressValid (openFs len addr flags) phead.start phead.stop
      · rw [if_neg (not_not.mpr h2)]
        exact iff_of_true rfl ⟨h1, h2⟩
      · rw [if_pos h2]
        exact iff_of_false herr fun hc => h2 hc.2
    · rw [if_pos h1]
      exact iff_of_false herr fun hc => h1 hc.1
  have hend : newEnd (openFs len addr flags) startup priv - priv.length =
      44 + (startup.length + pad + 16) := by
    have hnew : newEnd (openFs len addr flags) startup priv =
        44 + startup.length + pad + 16 + priv.length := by
      rw [hpad]
      rfl
    omega
  rw [hconfig, haddress1, haddress2, AddressesFit, hend]
  split
  · omega
  · omega

/-- Right after a write the verifier accepts the filesystem exactly when the copies of the
untouched bytes agree and the addresses fit the base address. -/
theorem verify_writeConfig_iff (hacc : Accepted len flags) (hlen : len ≤ 2 ^ 32)
    {startup priv : List Byte}
    (h : fsNvramWriteConfig (openFs len addr flags) mem startup priv = (0, mem')) :
    fsNvramVerify (openFs len addr flags) mem' flagVerifyAll = 0 ↔
      (hasFlag flags flagWithBackup = true → RestInSync (openFs len addr flags) mem startup priv) ∧
        AddressesFit (openFs len addr flags) startup priv := by
  have hall : hasFlag flagVerifyAll flagVerifyBackup = true ∧
      hasFlag flagVerifyAll flagVerifyConfig = true := by decide
  have hflags : (openFs len addr flags).flags = flags := rfl
  have herr : errBackupMissmatch ≠ 0 := by decide
  rw [fsNvramVerify, hall.1, hall.2, hflags]
  cases hb : hasFlag flags flagWithBackup with
  | false =>
    simp only [Bool.false_eq_true, false_and, and_false, if_false, if_true, false_imp_iff, true_and]
    exact verifyConfig_iff hacc hlen h
  | true =>
    have hbackup := backupMatches_writeConfig hacc hlen hb h
    simp only [true_and, if_true, true_imp_iff]
    by_cases hsync : RestInSync (openFs len addr flags) mem startup priv
    · rw [if_neg (not_not.mpr (hbackup.mpr hsync)), verifyConfig_iff hacc hlen h]
      exact (and_iff_right hsync).symm
    · rw [if_pos fun hc => hsync (hbackup.mp hc)]
      exact iff_of_false herr fun hc => hsync hc.1

def emptyImage : Mem := imageOf [0, 0, 0, 0, 0, 0, 0xF0, 0xA5]

theorem verify_writeConfig_empty :
    fsNvramWriteConfig (openFs 1024 0 0) emptyImage [] [] =
        (0, (fsNvramWriteConfig (openFs 1024 0 0) emptyImage [] []).2) ∧
      fsNvramVerify (openFs 1024 0 0) (fsNvramWriteConfig (openFs 1024 0 0) emptyImage [] []).2
        flagVerifyAll = 0 := by
  have hwrite : fsNvramWriteConfig (openFs 1024 0 0) emptyImage [] [] =
      (0, (fsNvramWriteConfig (openFs 1024 0 0) emptyImage [] []).2) := by rfl
  have hfit : AddressesFit (openFs 1024 0 0) [] [] := Nat.zero_le 36
  exact ⟨hwrite, (verify_writeConfig_iff (accepted_of_plain (by decide) (by decide)) (by decide)
    hwrite).mpr ⟨fun hb => absurd hb (by decide), hfit⟩⟩

/-- With relative addresses and a base address of 0x1000. -/
theorem not_verified : Accepted 1024 0 ∧
    (fsNvramOpen emptyImage 1024 0x1000 0).map Prod.fst = some (openFs 1024 0x1000 0) ∧
      (fsNvramWriteConfig (openFs 1024 0x1000 0) emptyImage [] []).1 = 0 ∧
        fsNvramVerify (openFs 1024 0x1000 0)
          (fsNvramWriteConfig (openFs 1024 0x1000 0) emptyImage [] []).2 flagVerifyAll =
            errInvalidAddress := by
  exact ⟨accepted_of_plain (by decide) (by decide), by decide, by decide,
    by decide +kernel⟩

end Dynamips.Nvram
