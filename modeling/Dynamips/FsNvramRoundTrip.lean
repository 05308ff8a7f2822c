import Dynamips.FsNvram
set_option autoImplicit false

namespace Dynamips.Nvram
open Function (update)

/-- The length test of `fs_nvram_open`. -/
def Accepted (len : Nat) (flags : BitVec 32) : Prop :=
  filesystemHeaderSize * lenDiv flags ≤ len ∧ len % (sectorSize * lenDiv flags) = 0

/-- Where `read_byte` reads the byte at an offset, and `write_byte` writes it. -/
def address1 (fs : FsNvram) (offset : Nat) : Nat :=
  if hasFlag fs.flags flagWithBackup then offset1WithBackup fs (uint offset)
  else uint (uint offset <<< fs.shift)

/-- Where `write_byte` writes the byte a second time. -/
def address2 (fs : FsNvram) (offset : Nat) : Nat :=
  if hasFlag fs.flags flagWithBackup then offset2WithBackup fs (uint offset)
  else uint (uint offset <<< fs.shift)

theorem readByte_eq (fs : FsNvram) (mem : Mem) (offset : Nat) :
    readByte fs mem offset = mem (address1 fs offset) := by
  rw [readByte, address1]
  split <;> rfl

theorem writeByte_eq (fs : FsNvram) (mem : Mem) (offset : Nat) (val : Byte) :
    writeByte fs mem offset val =
      update (update mem (address1 fs offset) val) (address2 fs offset) val := by
  rw [writeByte, address1, address2]
  split
  · rfl
  · exact (Function.update_idem _ _ _).symm

/-- The layout that the address maps follow before scaling and truncation. -/
def layout1 (fs : FsNvram) (offset : Nat) : Nat :=
  if hasFlag fs.flags flagWithBackup ∧ normalFilesystemBlock1 ≤ offset then
    backupFilesystemBlock1 + offset
  else offset

def layout2 (fs : FsNvram) (offset : Nat) : Nat :=
  if hasFlag fs.flags flagWithBackup then
    if offset < backupFilesystemBlock1 then fs.backup + offset else fs.len + offset
  else offset

theorem address1_eq (fs : FsNvram) (offset : Nat) :
    address1 fs offset = uint (layout1 fs (uint offset) * 2 ^ fs.shift) := by
  rw [address1, layout1]
  cases hasFlag fs.flags flagWithBackup with
  | false => simp [Nat.shiftLeft_eq]
  | true =>
    by_cases h : uint offset < normalFilesystemBlock1
    · simp [offset1WithBackup, h, Nat.not_le.mpr h, Nat.shiftLeft_eq]
    · simp [offset1WithBackup, h, Nat.not_lt.mp h, Nat.shiftLeft_eq]

theorem address2_eq (fs : FsNvram) (offset : Nat) :
    address2 fs offset = uint (layout2 fs (uint offset) * 2 ^ fs.shift) := by
  rw [address2, layout2]
  cases hasFlag fs.flags flagWithBackup with
  | false => simp [Nat.shiftLeft_eq]
  | true =>
    by_cases h : uint offset < backupFilesystemBlock1
    · simp [offset2WithBackup, h, Nat.shiftLeft_eq]
    · simp [offset2WithBackup, h, Nat.shiftLeft_eq]

section Geometry

variable {len : Nat} {addr flags : BitVec 32}

theorem shift_openFs : (openFs len addr flags).shift = 0 ∨ (openFs len addr flags).shift = 2 := by
  cases h : hasFlag flags flagScale4 with
  | false => exact .inl (by simp [openFs, h])
  | true => exact .inr (by simp [openFs, h])

theorem area_openFs (hacc : Accepted len flags) :
    (openFs len addr flags).len * (if hasFlag flags flagWithBackup then 2 else 1) *
      2 ^ (openFs len addr flags).shift = len := by
  obtain ⟨-, hdiv⟩ := hacc
  simp only [openFs, lenDiv, sectorSize] at hdiv ⊢
  cases hs : hasFlag flags flagScale4 <;> cases hb : hasFlag flags flagWithBackup <;>
    simp only [hs, hb, if_true, if_false, Bool.false_eq_true] at hdiv ⊢ <;> omega

theorem layout1_lt {o : Nat} (ho : o < (openFs len addr flags).len) :
    layout1 (openFs len addr flags) o <
      (openFs len addr flags).len * if hasFlag flags flagWithBackup then 2 else 1 := by
  rw [layout1]
  simp only [normalFilesystemBlock1, backupFilesystemBlock1]
  cases hb : hasFlag flags flagWithBackup with
  | false => simpa [openFs, hb] using ho
  | true =>
    simp only [openFs, hb, if_true, true_and] at ho ⊢
    split <;> omega

theorem layout2_lt {o : Nat} (ho : o < (openFs len addr flags).len) :
    layout2 (openFs len addr flags) o <
      (openFs len addr flags).len * if hasFlag flags flagWithBackup then 2 else 1 := by
  rw [layout2]
  simp only [backupFilesystemBlock1]
  cases hb : hasFlag flags flagWithBackup with
  | false => simpa [openFs, hb] using ho
  | true =>
    simp only [openFs, hb, if_true] at ho ⊢
    split <;> omega

theorem layout1_injective {fs : FsNvram} {o o' : Nat} (h : layout1 fs o = layout1 fs o') :
    o = o' := by
  simp only [layout1, normalFilesystemBlock1, backupFilesystemBlock1] at h
  cases hb : hasFlag fs.flags flagWithBackup with
  | false => simpa [hb] using h
  | true =>
    simp only [hb, true_and] at h
    by_cases ho : 131072 ≤ o <;> by_cases ho' : 131072 ≤ o' <;>
      simp only [ho, ho', if_true, if_false] at h <;> omega

theorem layout1_ne_layout2 (hb : hasFlag flags flagWithBackup = true) {o o' : Nat}
    (ho : o < (openFs len addr flags).len) :
    layout1 (openFs len addr flags) o ≠ layout2 (openFs len addr flags) o' := by
  simp only [layout1, layout2, openFs, hb, if_true, true_and, normalFilesystemBlock1,
    backupFilesystemBlock1] at ho ⊢
  split <;> split <;> omega

theorem uint_layout (hacc : Accepted len flags) (hlen : len ≤ 2 ^ 32) {x : Nat}
    (hx : x < (openFs len addr flags).len * if hasFlag flags flagWithBackup then 2 else 1) :
    uint (x * 2 ^ (openFs len addr flags).shift) = x * 2 ^ (openFs len addr flags).shift := by
  have harea := @area_openFs _ addr _ hacc
  have hlt := Nat.mul_lt_mul_of_pos_right hx (Nat.two_pow_pos (openFs len addr flags).shift)
  exact Nat.mod_eq_of_lt (by omega)

theorem uint_offset (hlen : len ≤ 2 ^ 32) {o : Nat}
    (ho : o < (openFs len addr flags).len) : uint o = o := by
  have hle : (openFs len addr flags).len ≤ len := Nat.div_le_self _ _
  exact Nat.mod_eq_of_lt (by omega)

theorem address1_layout (hacc : Accepted len flags) (hlen : len ≤ 2 ^ 32) {o : Nat}
    (ho : o < (openFs len addr flags).len) :
    address1 (openFs len addr flags) o =
      layout1 (openFs len addr flags) o * 2 ^ (openFs len addr flags).shift := by
  rw [address1_eq, uint_offset hlen ho, uint_layout hacc hlen (layout1_lt ho)]

theorem address2_layout (hacc : Accepted len flags) (hlen : len ≤ 2 ^ 32) {o : Nat}
    (ho : o < (openFs len addr flags).len) :
    address2 (openFs len addr flags) o =
      layout2 (openFs len addr flags) o * 2 ^ (openFs len addr flags).shift := by
  rw [address2_eq, uint_offset hlen ho, uint_layout hacc hlen (layout2_lt ho)]

theorem address1_injective (hacc : Accepted len flags) (hlen : len ≤ 2 ^ 32) {o o' : Nat}
    (ho : o < (openFs len addr flags).len) (ho' : o' < (openFs len addr flags).len)
    (h : address1 (openFs len addr flags) o = address1 (openFs len addr flags) o') : o = o' := by
  rw [address1_layout hacc hlen ho, address1_layout hacc hlen ho'] at h
  exact layout1_injective (Nat.eq_of_mul_eq_mul_right (Nat.two_pow_pos _) h)

theorem address1_ne_address2 (hacc : Accepted len flags) (hlen : len ≤ 2 ^ 32)
    (hb : hasFlag flags flagWithBackup = true) {o o' : Nat}
    (ho : o < (openFs len addr flags).len) (ho' : o' < (openFs len addr flags).len) :
    address1 (openFs len addr flags) o ≠ address2 (openFs len addr flags) o' := by
  rw [address1_layout hacc hlen ho, address2_layout hacc hlen ho']
  exact fun h => layout1_ne_layout2 hb ho (Nat.eq_of_mul_eq_mul_right (Nat.two_pow_pos _) h)

theorem readByte_writeByte (hacc : Accepted len flags) (hlen : len ≤ 2 ^ 32) (mem : Mem)
    (o : Nat) (val : Byte) (o' : Nat)
    (ho : o < (openFs len addr flags).len) (ho' : o' < (openFs len addr flags).len) :
    readByte (openFs len addr flags) (writeByte (openFs len addr flags) mem o val) o' =
      if o' = o then val else readByte (openFs len addr flags) mem o' := by
  rw [readByte_eq, readByte_eq, writeByte_eq, Function.update_apply, Function.update_apply]
  by_cases heq : o' = o
  · subst heq
    simp
  · have hne1 : address1 (openFs len addr flags) o' ≠ address1 (openFs len addr flags) o :=
      fun hc => heq (address1_injective hacc hlen ho' ho hc)
    have hne2 : address1 (openFs len addr flags) o' ≠ address2 (openFs len addr flags) o := by
      cases hb : hasFlag flags flagWithBackup with
      | true => exact address1_ne_address2 hacc hlen hb ho' ho
      | false =>
        have hsame : address2 (openFs len addr flags) o = address1 (openFs len addr flags) o := by
          simp [address1, address2, openFs, hb]
        rw [hsame]
        exact hne1
    rw [if_neg hne2, if_neg hne1, if_neg heq]

/-- A filesystem of at most 4 GiB is a store of bytes: the two address maps
never let one offset disturb another. -/
def fsStore (addr : BitVec 32) (hacc : Accepted len flags) (hlen : len ≤ 2 ^ 32) : ByteStore Mem where
  size := (openFs len addr flags).len
  read := readByte (openFs len addr flags)
  write := writeByte (openFs len addr flags)
  read_write := readByte_writeByte hacc hlen

variable {hacc : Accepted len flags} {hlen : len ≤ 2 ^ 32}

theorem uint_of_lt {n : Nat} (h : n < 2 ^ 32) : uint n = n := Nat.mod_eq_of_lt h

theorem memcpyFrom_eq {mem : Mem} {offset n : Nat} (h : n < 2 ^ 32) :
    memcpyFrom (openFs len addr flags) mem offset n =
      (fsStore addr hacc hlen).window mem offset n := by
  rw [memcpyFrom, uint_of_lt h]
  rfl

theorem memcpyTo_eq {mem : Mem} {offset n : Nat} (data : List Byte) (h : n < 2 ^ 32) :
    memcpyTo (openFs len addr flags) mem offset data n =
      (fsStore addr hacc hlen).copyTo mem offset data n := by
  rw [memcpyTo, uint_of_lt h]
  rfl

theorem clear_eq {mem : Mem} {offset n : Nat} (h : n < 2 ^ 32) :
    clear (openFs len addr flags) mem offset n = (fsStore addr hacc hlen).clear mem offset n := by
  rw [clear, uint_of_lt h]
  rfl

theorem readByte_uint (fs : FsNvram) (mem : Mem) (offset i : Nat) :
    readByte fs mem (uint offset + i) = readByte fs mem (offset + i) := by
  have h : uint (uint offset + i) = uint (offset + i) := by simp [uint]
  rw [readByte, readByte, h]

theorem memcpyFrom_uint (fs : FsNvram) (mem : Mem) (offset n : Nat) :
    memcpyFrom fs mem (uint offset) n = memcpyFrom fs mem offset n := by
  simp only [memcpyFrom, readByte_uint]

theorem offsetOf_addressOf (fs : FsNvram) (offset delta : BitVec 32) :
    offsetOf fs (addressOf fs offset + delta) = offset + delta := by
  rw [offsetOf, addressOf]
  split
  · rw [BitVec.add_assoc, BitVec.add_comm, BitVec.add_sub_cancel]
  · rw [BitVec.add_assoc, BitVec.add_comm delta, ← BitVec.add_assoc, BitVec.sub_add_cancel]

theorem toNat_ofNat_eq (n : Nat) : (BitVec.ofNat 32 n).toNat = uint n := BitVec.toNat_ofNat n 32

theorem offsetOf_start (fs : FsNvram) (delta : Nat) :
    (offsetOf fs (addressOf fs (BitVec.ofNat 32 (filesystemHeaderSize + startupHeaderSize)) +
      BitVec.ofNat 32 delta)).toNat = uint (44 + delta) := by
  rw [offsetOf_addressOf, ← BitVec.ofNat_add, toNat_ofNat_eq]
  rfl

theorem oldLength_le (fs : FsNvram) (mem : Mem) : oldLength fs mem ≤ fs.len := by
  rw [oldLength]
  split
  · exact Nat.le_refl _
  · rename_i h
    exact Nat.le_of_not_lt h

theorem updateChecksum_eq (fs : FsNvram) (mem : Mem) :
    ∃ a b c d, updateChecksum fs mem =
      writeByte fs (writeByte fs (writeByte fs (writeByte fs mem 12 a) 13 b) 12 c) 13 d :=
  ⟨_, _, _, _, rfl⟩

theorem window_updateChecksum {mem : Mem} {off n : Nat} (hoff : 14 ≤ off)
    (hfit : off + n ≤ (openFs len addr flags).len) :
    (fsStore addr hacc hlen).window (updateChecksum (openFs len addr flags) mem) off n =
      (fsStore addr hacc hlen).window mem off n := by
  obtain ⟨a, b, c, d, h⟩ := updateChecksum_eq (openFs len addr flags) mem
  have hkeep : ∀ (m : Mem) (o : Nat) (v : Byte), o < 14 → (fsStore addr hacc hlen).window
      (writeByte (openFs len addr flags) m o v) off n = (fsStore addr hacc hlen).window m off n :=
    fun m o v ho => ByteStore.window_write_disjoint (B := fsStore addr hacc hlen) v hfit
      (Nat.lt_of_lt_of_le (Nat.lt_of_lt_of_le ho hoff) (Nat.le_of_add_right_le hfit))
      (.inl (Nat.lt_of_lt_of_le ho hoff))
  rw [h, hkeep _ 13 _ (by decide), hkeep _ 12 _ (by decide), hkeep _ 13 _ (by decide),
    hkeep _ 12 _ (by decide)]

theorem header_updateChecksum {mem : Mem} {head : StartupHeader}
    (hfit : filesystemHeaderSize + startupHeaderSize ≤ (openFs len addr flags).len)
    (h : (fsStore addr hacc hlen).window mem filesystemHeaderSize startupHeaderSize = head.toBytes) :
    ∃ c, (fsStore addr hacc hlen).window (updateChecksum (openFs len addr flags) mem)
      filesystemHeaderSize startupHeaderSize = { head with checksum := c }.toBytes := by
  obtain ⟨a, b, c, d, hsum⟩ := updateChecksum_eq (openFs len addr flags) mem
  have hset : ∀ (m : Mem) (i : Nat) (v : Byte), i < startupHeaderSize →
      (fsStore addr hacc hlen).window (writeByte (openFs len addr flags) m
        (filesystemHeaderSize + i) v) filesystemHeaderSize startupHeaderSize =
      ((fsStore addr hacc hlen).window m filesystemHeaderSize startupHeaderSize).set i v :=
    fun m i v hi => ByteStore.window_write (B := fsStore addr hacc hlen) v hfit hi
  refine ⟨mNtoh16 [c, d], ?_⟩
  have h4 : (4 : Nat) < startupHeaderSize := by decide
  have h5 : (5 : Nat) < startupHeaderSize := by decide
  rw [hsum, show (12 : Nat) = filesystemHeaderSize + 4 from rfl,
    show (13 : Nat) = filesystemHeaderSize + 5 from rfl, hset _ 5 _ h5, hset _ 4 _ h4,
    hset _ 5 _ h5, hset _ 4 _ h4, h, StartupHeader.set_checksum, StartupHeader.set_checksum]

theorem fsNvramWriteConfig_eq {mem mem' : Mem} {startup priv : List Byte}
    (h : fsNvramWriteConfig (openFs len addr flags) mem startup priv = (0, mem')) :
    ∃ pad old head phead, pad = paddingAt (openFs len addr flags) (44 + startup.length) ∧
      44 + startup.length + pad + 16 + priv.length ≤ (openFs len addr flags).len ∧
      old = oldLength (openFs len addr flags) mem ∧
      head = startupHeaderFor (openFs len addr flags) startup.length ∧
      phead = privateHeaderFor head.stop pad priv.length ∧
      mem' = updateChecksum (openFs len addr flags)
        (let mem := memcpyTo (openFs len addr flags) mem 8 head.toBytes 36
         let mem := memcpyTo (openFs len addr flags) mem 44 startup startup.length
         let mem := clear (openFs len addr flags) mem (44 + startup.length) pad
         let mem := memcpyTo (openFs len addr flags) mem (44 + startup.length + pad) phead.toBytes 16
         let mem := memcpyTo (openFs len addr flags) mem (44 + startup.length + pad + 16) priv
           priv.length
         if 44 + startup.length + pad + 16 + priv.length < old then
           clear (openFs len addr flags) mem (44 + startup.length + pad + 16 + priv.length)
             (old - (44 + startup.length + pad + 16 + priv.length))
         else mem) := by
  rw [fsNvramWriteConfig] at h
  split at h
  · simp [enospc] at h
  · rename_i hfit
    exact ⟨_, _, _, _, rfl, Nat.le_of_not_lt hfit, rfl, rfl, rfl, (congrArg Prod.snd h).symm⟩

/-- What the reader needs of a startup header: everything but its checksum. -/
structure StartupFields (fs : FsNvram) (startupLen : Nat) (head : StartupHeader) : Prop where
  magic : head.magic = magicStartupConfig
  format : head.format = formatRaw
  start : head.start =
    addressOf fs (BitVec.ofNat 32 (filesystemHeaderSize + startupHeaderSize))
  stop : head.stop = head.start + BitVec.ofNat 32 startupLen
  len : head.len = BitVec.ofNat 32 startupLen

theorem privateHeaderFor_start {fs : FsNvram} {startupLen pad privateLen : Nat} {head : StartupHeader}
    (h : StartupFields fs startupLen head) :
    (privateHeaderFor head.stop pad privateLen).start =
      addressOf fs (BitVec.ofNat 32 (filesystemHeaderSize + startupHeaderSize)) +
        BitVec.ofNat 32 (startupLen + pad + 16) := by
  have hdelta : BitVec.ofNat 32 (startupLen + pad + 16) =
      BitVec.ofNat 32 startupLen + BitVec.ofNat 32 pad + BitVec.ofNat 32 16 := by
    rw [BitVec.ofNat_add, BitVec.ofNat_add]
  rw [hdelta, ← BitVec.add_assoc, ← BitVec.add_assoc, ← h.start, ← h.stop]
  rfl

theorem startupFields_checksum (fs : FsNvram) (startupLen : Nat) (c : BitVec 16) :
    StartupFields fs startupLen { startupHeaderFor fs startupLen with checksum := c } :=
  ⟨rfl, rfl, rfl, rfl, rfl⟩

theorem window_clearTail {mem : Mem} {off n tail old : Nat} (h : off + n ≤ tail) (hpos : 0 < tail)
    (htail : tail ≤ (openFs len addr flags).len) (hold : old ≤ (openFs len addr flags).len) :
    (fsStore addr hacc hlen).window
      (if tail < old then clear (openFs len addr flags) mem tail (old - tail) else mem) off n =
      (fsStore addr hacc hlen).window mem off n := by
  split
  · have hsmall : old - tail < 2 ^ 32 := by
      have hle : (openFs len addr flags).len ≤ len := Nat.div_le_self _ _
      omega
    rw [clear_eq hsmall]
    exact ByteStore.window_clear_disjoint (Nat.le_trans h htail) (by
      rw [Nat.add_sub_of_le (by omega)]
      exact hold) (.inl h)
  · rfl

theorem fsNvramWriteConfig_windows {mem mem' : Mem} {startup priv : List Byte}
    (h : fsNvramWriteConfig (openFs len addr flags) mem startup priv = (0, mem')) :
    ∃ pad head phead, pad = paddingAt (openFs len addr flags) (44 + startup.length) ∧
      44 + startup.length + pad + 16 + priv.length ≤ (openFs len addr flags).len ∧
      StartupFields (openFs len addr flags) startup.length head ∧
      phead = privateHeaderFor head.stop pad priv.length ∧
      (fsStore addr hacc hlen).window mem' 8 36 = head.toBytes ∧
      (fsStore addr hacc hlen).window mem' 44 startup.length = startup ∧
      (fsStore addr hacc hlen).window mem' (44 + startup.length + pad) 16 = phead.toBytes ∧
      (fsStore addr hacc hlen).window mem' (44 + startup.length + pad + 16) priv.length = priv := by
  obtain ⟨pad, old, head, phead, hpad, hfit, holdeq, hhead, hphead, rfl⟩ := fsNvramWriteConfig_eq h
  have hold : old ≤ (openFs len addr flags).len := holdeq ▸ oldLength_le _ _
  have hle : (openFs len addr flags).len ≤ 2 ^ 32 := Nat.le_trans (Nat.div_le_self _ _) hlen
  let B := fsStore addr hacc hlen
  have hsize : B.size = (openFs len addr flags).len := rfl
  have hstore : (fsStore addr hacc hlen).size = (openFs len addr flags).len := rfl
  simp only [@memcpyTo_eq _ addr _ hacc hlen _ _ _ _ (show 36 < 2 ^ 32 by decide),
    @memcpyTo_eq _ addr _ hacc hlen _ _ _ _ (show 16 < 2 ^ 32 by decide),
    @memcpyTo_eq _ addr _ hacc hlen _ _ _ _ (show startup.length < 2 ^ 32 by omega),
    @memcpyTo_eq _ addr _ hacc hlen _ _ _ _ (show priv.length < 2 ^ 32 by omega),
    @clear_eq _ addr _ hacc hlen _ _ _ (show pad < 2 ^ 32 by omega)]
  have hsh : startupHeaderSize = 36 := rfl
  have hps : privateHeaderSize = 16 := rfl
  have hhd : B.window (B.copyTo mem 8 head.toBytes 36) 8 36 = head.toBytes :=
    ByteStore.window_copyTo head.toBytes (by rw [hsize, StartupHeader.length_toBytes]; omega)
  have hst : ∀ m, B.window (B.copyTo m 44 startup startup.length) 44 startup.length = startup :=
    fun m => ByteStore.window_copyTo startup (by rw [hsize]; omega)
  have hph : ∀ m, B.window (B.copyTo m (44 + startup.length + pad) phead.toBytes 16)
      (44 + startup.length + pad) 16 = phead.toBytes := fun m =>
    ByteStore.window_copyTo phead.toBytes (by rw [hsize, PrivateHeader.length_toBytes]; omega)
  have hpr : ∀ m, B.window (B.copyTo m (44 + startup.length + pad + 16) priv priv.length)
      (44 + startup.length + pad + 16) priv.length = priv :=
    fun m => ByteStore.window_copyTo priv (by rw [hsize]; omega)
  generalize hlast : (if 44 + startup.length + pad + 16 + priv.length < old then _ else _ : Mem) = last
  have hwindow1 : B.window last 8 36 = head.toBytes := by
    rw [← hlast]
    refine (window_clearTail (by omega) (by omega) hfit hold).trans ?_
    rw [ByteStore.window_copyTo_disjoint _ (by omega) (by omega) (by omega),
      ByteStore.window_copyTo_disjoint _ (by omega) (by omega) (by omega),
      ByteStore.window_clear_disjoint (by omega) (by omega) (by omega),
      ByteStore.window_copyTo_disjoint _ (by omega) (by omega) (by omega)]
    exact hhd
  have hwindow2 : B.window last 44 startup.length = startup := by
    rw [← hlast]
    refine (window_clearTail (by omega) (by omega) hfit hold).trans ?_
    rw [ByteStore.window_copyTo_disjoint _ (by omega) (by omega) (by omega),
      ByteStore.window_copyTo_disjoint _ (by omega) (by omega) (by omega),
      ByteStore.window_clear_disjoint (by omega) (by omega) (by omega)]
    exact hst _
  have hwindow3 : B.window last (44 + startup.length + pad) 16 = phead.toBytes := by
    rw [← hlast]
    refine (window_clearTail (by omega) (by omega) hfit hold).trans ?_
    rw [ByteStore.window_copyTo_disjoint _ (by omega) (by omega) (by omega)]
    exact hph _
  have hwindow4 : B.window last (44 + startup.length + pad + 16) priv.length = priv := by
    rw [← hlast]
    exact (window_clearTail (by omega) (by omega) hfit hold).trans (hpr _)
  obtain ⟨c, hheader⟩ := @header_updateChecksum _ _ _ hacc hlen _ _
    (by simp only [filesystemHeaderSize, hsh]; omega) hwindow1
  exact ⟨pad, { head with checksum := c }, phead, hpad, hfit, by
    rw [hhead]
    exact startupFields_checksum _ _ c, hphead, hheader,
    (window_updateChecksum (by omega) (by omega)).trans hwindow2,
    (window_updateChecksum (by omega) (by omega)).trans hwindow3,
    (window_updateChecksum (by omega) (by omega)).trans hwindow4⟩

theorem readData_eq {mem : Mem} {off n : Nat} (h : n + 1 < 2 ^ 32) :
    readData (openFs len addr flags) mem (uint off) (BitVec.ofNat 32 n) =
      some ((fsStore addr hacc hlen).window mem off n) := by
  have hn : (BitVec.ofNat 32 n).toNat = n := by
    rw [toNat_ofNat_eq, uint_of_lt (by omega)]
  rw [readData, hn, if_pos h, memcpyFrom_uint, memcpyFrom_eq (by omega)]

theorem fsNvramReadConfig_of_windows {mem : Mem} {startup priv : List Byte} {pad : Nat}
    {head : StartupHeader} {phead : PrivateHeader} (uninit : LzcTables) (heap : Nat → Byte)
    (hpad : pad = paddingAt (openFs len addr flags) (44 + startup.length))
    (hfit : 44 + startup.length + pad + 16 + priv.length ≤ (openFs len addr flags).len)
    (hhead : StartupFields (openFs len addr flags) startup.length head)
    (hphead : phead = privateHeaderFor head.stop pad priv.length)
    (hwindow1 : (fsStore addr hacc hlen).window mem 8 36 = head.toBytes)
    (hwindow2 : (fsStore addr hacc hlen).window mem 44 startup.length = startup)
    (hwindow3 : (fsStore addr hacc hlen).window mem (44 + startup.length + pad) 16 =
      phead.toBytes)
    (hwindow4 : (fsStore addr hacc hlen).window mem (44 + startup.length + pad + 16)
      priv.length = priv) :
    fsNvramReadConfig uninit heap (openFs len addr flags) mem =
      some ⟨0, some startup, startup.length, some priv, priv.length⟩ := by
  have hle : (openFs len addr flags).len ≤ 2 ^ 32 := Nat.le_trans (Nat.div_le_self _ _) hlen
  have hstartup : StartupHeader.ofBytes
      (memcpyFrom (openFs len addr flags) mem filesystemHeaderSize startupHeaderSize) = head := by
    rw [@memcpyFrom_eq _ _ _ hacc hlen _ _ _ (by decide)]
    exact (congrArg StartupHeader.ofBytes hwindow1).trans (StartupHeader.ofBytes_toBytes _)
  have hprivate : PrivateHeader.ofBytes
      (memcpyFrom (openFs len addr flags) mem (44 + startup.length + pad) privateHeaderSize) = phead := by
    rw [@memcpyFrom_eq _ _ _ hacc hlen _ _ _ (by decide)]
    exact (congrArg PrivateHeader.ofBytes hwindow3).trans (PrivateHeader.ofBytes_toBytes _)
  have hstop : (offsetOf (openFs len addr flags) (head.start + head.len)).toNat = 44 + startup.length := by
    rw [hhead.start, hhead.len, offsetOf_start, uint_of_lt (by omega)]
  have hstart : (offsetOf (openFs len addr flags) head.start).toNat = uint 44 := by
    rw [hhead.start]
    simpa using offsetOf_start (openFs len addr flags) 0
  have hpstart : phead.start =
      addressOf (openFs len addr flags) (BitVec.ofNat 32 (filesystemHeaderSize + startupHeaderSize)) +
        BitVec.ofNat 32 (startup.length + pad + 16) := by
    rw [hphead, privateHeaderFor_start hhead]
  have hpdata : (offsetOf (openFs len addr flags) phead.start).toNat = uint (44 + startup.length + pad + 16) := by
    rw [hpstart, offsetOf_start]
    congr 1
    omega
  have hplen : phead.len = BitVec.ofNat 32 priv.length := by rw [hphead]; rfl
  have hpstop : (offsetOf (openFs len addr flags) (phead.start + phead.len)).toNat ≤ (openFs len addr flags).len := by
    rw [hpstart, hplen, BitVec.add_assoc, ← BitVec.ofNat_add, offsetOf_start]
    exact Nat.le_trans (Nat.mod_le _ _) (by omega)
  have hpmagic : phead.magic = magicPrivateConfig := by rw [hphead]; rfl
  have hpformat : phead.format = formatRaw := by rw [hphead]; rfl
  have hroom : ¬ 44 + startup.length + pad + privateHeaderSize > (openFs len addr flags).len := by
    simp only [privateHeaderSize]
    omega
  have hread1 := @readData_eq _ addr _ hacc hlen mem 44
    startup.length (by omega)
  have hread2 := @readData_eq _ addr _ hacc hlen mem
    (44 + startup.length + pad + 16) priv.length (by omega)
  rw [hwindow2] at hread1
  rw [hwindow4] at hread2
  have hlen1 : (BitVec.ofNat 32 startup.length).toNat = startup.length := by
    rw [toNat_ofNat_eq, uint_of_lt (by omega)]
  have hlen2 : (BitVec.ofNat 32 priv.length).toNat = priv.length := by
    rw [toNat_ofNat_eq, uint_of_lt (by omega)]
  have hrs : readStartup uninit heap (openFs len addr flags) mem head = some (.ok (startup, startup.length)) := by
    rw [readStartup, if_pos hhead.format, hstart, hhead.len, hread1, hlen1]
    rfl
  rw [fsNvramReadConfig]
  simp only [hstartup, hstop, ← hpad, hprivate, hrs]
  rw [if_neg (not_not.mpr hhead.magic), if_neg hroom]
  refine Loop.bind_of_some rfl ?_
  simp only
  rw [if_neg (by rintro (h | h); exacts [absurd hpstop (Nat.not_le.mpr h), h hpmagic]),
    if_pos hpformat, hpdata, hplen, hread2, hlen2]
  rfl

end Geometry

/-- What is written to a filesystem that was opened is what is read from it. -/
def RoundTrips (len : Nat) (addr flags : BitVec 32) : Prop :=
  ∀ mem fs mem', fsNvramOpen mem len addr flags = some (fs, mem') →
    ∀ startup priv mem'', fsNvramWriteConfig fs mem' startup priv = (0, mem'') →
      ∀ uninit heap, fsNvramReadConfig uninit heap fs mem'' =
        some ⟨0, some startup, startup.length, some priv, priv.length⟩

theorem fsNvramOpen_eq {mem mem' : Mem} {len : Nat} {addr flags : BitVec 32} {fs : FsNvram}
    (h : fsNvramOpen mem len addr flags = some (fs, mem')) :
    Accepted len flags ∧ fs = openFs len addr flags := by
  rw [fsNvramOpen] at h
  split at h
  · cases h
  · rename_i hacc
    rw [not_or, Nat.not_lt, not_not] at hacc
    refine ⟨hacc, ?_⟩
    dsimp only at h
    by_cases hmagic : read16 (openFs len addr flags) mem 6 ≠ magicFilesystem
    · rw [if_pos hmagic] at h
      split at h
      · cases h; rfl
      · cases h
    · rw [if_neg hmagic] at h
      cases h; rfl

theorem roundTrips_of_le {len : Nat} {addr flags : BitVec 32} (hlen : len ≤ 2 ^ 32) :
    RoundTrips len addr flags := by
  intro mem fs mem' hopen startup priv mem'' hwrite uninit heap
  obtain ⟨hacc, rfl⟩ := fsNvramOpen_eq hopen
  obtain ⟨pad, head, phead, hpad, hfit, hhead, hphead, h1, h2, h3, h4⟩ :=
    @fsNvramWriteConfig_windows _ _ _ hacc hlen _ _ _ _ hwrite
  exact fsNvramReadConfig_of_windows uninit heap hpad hfit hhead hphead h1 h2 h3 h4

end Dynamips.Nvram
