import Dynamips.FsNvramChecksum

/-! The functions with which the platforms read and write the configurations
of an NVRAM file. -/
set_option autoImplicit false

namespace Dynamips.Nvram

def formatMask : BitVec 32 := 0x3FF0

structure NvramParams where
  offset : Nat
  size : Nat
  addr : BitVec 32
  format : BitVec 32

structure Env where
  uninit : LzcTables
  heap : Nat → Byte
  outside : Nat → Byte

def NvramParams.flags (p : NvramParams) : BitVec 32 := p.format &&& formatMask

theorem NvramParams.hasFlag_flags (p : NvramParams) : hasFlag p.flags flagOpenCreate = false := by
  rw [hasFlag, NvramParams.flags, BitVec.and_assoc,
    show formatMask &&& flagOpenCreate = 0 by decide]
  simp

/-- The size of the filesystem, which a size of 0 leaves to the size of the file. -/
def NvramParams.area (p : NvramParams) (fileSize : Nat) : Nat :=
  if p.size = 0 ∧ p.offset + sectorSize ≤ fileSize then fileSize - p.offset else p.size

/-- The memory at `base_ptr + nvram_offset`. -/
def mapAt (env : Env) (file : List Byte) (offset : Nat) : Mem :=
  fun i => file.getD (offset + i) (env.outside i)

def unmapAt (file : List Byte) (offset : Nat) (mem : Mem) : List Byte :=
  file.take offset ++ (List.range (file.length - offset)).map mem

/-- The file that `memzone_create_file` maps. -/
def resize (fileSize : Nat) (file : List Byte) : List Byte :=
  file.take fileSize ++ List.replicate (fileSize - file.length) 0

/-- The return value and the outputs, if they were set; a file without bytes cannot be
mapped. -/
def genericNvramExtractConfig (env : Env) (p : NvramParams) (file : List Byte) :
    Option (Int × Option ReadConfig) :=
  if file.length = 0 then some (-1, none)
  else
    let size := p.area file.length
    if file.length < p.offset + size then some (0, none)
    else
      match fsNvramOpen (mapAt env file p.offset) size p.addr p.flags with
      | none => some (-1, none)
      | some (fs, mem) => do
        let r ← fsNvramReadConfig env.uninit env.heap fs mem
        some (if r.err ≠ 0 then -1 else 0, some r)

def rewriteConfig (env : Env) (fs : FsNvram) (mem : Mem) (startup priv : Option (List Byte)) :
    Option Int × Mem :=
  match fsNvramReadConfig env.uninit env.heap fs mem with
  | none => (none, mem)
  | some prev =>
    if prev.err ≠ 0 then (some (-1), mem)
    else
      let (err, mem) := fsNvramWriteConfig fs mem (startup.getD (prev.startupConfig.getD []))
        (priv.getD (prev.privateConfig.getD []))
      (some (if err ≠ 0 then -1 else 0), mem)

def genericNvramPushConfig (env : Env) (p : NvramParams) (fileSize : Nat) (file : List Byte)
    (startup priv : Option (List Byte)) : Option Int × List Byte :=
  let size := p.area fileSize
  if fileSize < p.offset + size then (some (-1), file)
  else
    let file := resize fileSize file
    if fileSize = 0 then (some (-1), file)
    else
      match fsNvramOpen (mapAt env file p.offset) size p.addr (p.flags ||| flagOpenCreate) with
      | none => (some (-1), file)
      | some (fs, mem) =>
        let (ret, mem) := rewriteConfig env fs mem startup priv
        (ret, unmapAt file p.offset mem)

def configs (startup priv : Option (List Byte)) : ReadConfig :=
  ⟨0, startup, (startup.getD []).length, priv, (priv.getD []).length⟩

def Extracts (env : Env) (p : NvramParams) (file : List Byte)
    (startup priv : Option (List Byte)) : Prop :=
  genericNvramExtractConfig env p file = some (0, some (configs startup priv))

/-- What a push to this file and an extraction promise, whatever fresh memory holds. -/
structure PushRight (p : NvramParams) (fileSize : Nat) (file : List Byte) : Prop where
  outputs : ∀ env, genericNvramExtractConfig env p file ≠ some (0, none)
  exact : ∀ env startup priv file',
    genericNvramPushConfig env p fileSize file startup priv = (some 0, file') →
      ∀ env', ∃ s q, Extracts env' p file' s q ∧
        (startup.isSome → s = startup) ∧ (priv.isSome → q = priv) ∧
        ∀ before s' q', Extracts before p file s' q' →
          (startup = none → s = s') ∧ (priv = none → q = q')
  kept : ∀ env startup priv ret file',
    genericNvramPushConfig env p fileSize file startup priv = (ret, file') → ret ≠ some 0 →
      ∀ before after s q, Extracts before p file s q → Extracts after p file' s q

/-- What `fs_nvram_open` and `fs_nvram_read_config` find in a file that is large enough. -/
def Holds (env : Env) (p : NvramParams) (file : List Byte) (startup priv : Option (List Byte)) :
    Prop :=
  file ≠ [] ∧ p.offset + p.area file.length ≤ file.length ∧
    ∃ fs mem, fsNvramOpen (mapAt env file p.offset) (p.area file.length) p.addr p.flags =
      some (fs, mem) ∧
      fsNvramReadConfig env.uninit env.heap fs mem = some (configs startup priv)

def sizedFile (p : NvramParams) (fileSize : Nat) (file : List Byte) : List Byte :=
  if p.offset + p.area fileSize ≤ fileSize then resize fileSize file else file

/-- Giving the file the size of the platform leaves what is found in it, whatever fresh
memory holds, and a private configuration is among it. -/
def Pushable (p : NvramParams) (fileSize : Nat) (file : List Byte) : Prop :=
  (file = [] ∨ p.offset + p.area file.length ≤ file.length) ∧
    ∀ before after s q, Holds before p file s q →
      Holds after p (sizedFile p fileSize file) s q ∧
        (p.offset + p.area fileSize ≤ fileSize → q ≠ none)

section Flags

variable {f : BitVec 32} {len : Nat} {addr : BitVec 32} {fs : FsNvram} {mem : Mem}

theorem hasFlag_create {g : BitVec 32} (h : flagOpenCreate &&& g = 0) :
    hasFlag (f ||| flagOpenCreate) g = hasFlag f g := by
  have hand : (f ||| flagOpenCreate) &&& g = f &&& g := by
    rw [BitVec.and_comm, BitVec.and_or_distrib_left, BitVec.and_comm g flagOpenCreate, h,
      BitVec.and_comm g f]
    exact BitVec.or_zero
  rw [hasFlag, hasFlag, hand]

def FsNvram.forPush (fs : FsNvram) : FsNvram := { fs with flags := fs.flags ||| flagOpenCreate }

theorem lenDiv_create : lenDiv (f ||| flagOpenCreate) = lenDiv f := by
  rw [lenDiv, lenDiv, hasFlag_create (by decide), hasFlag_create (by decide)]

theorem openFs_create : openFs len addr (f ||| flagOpenCreate) = (openFs len addr f).forPush := by
  simp only [openFs, FsNvram.forPush, lenDiv_create]
  rw [@hasFlag_create f flagScale4 (by decide), @hasFlag_create f flagAlign4Pad4 (by decide),
    @hasFlag_create f flagWithBackup (by decide)]

theorem readByte_forPush (offset : Nat) :
    readByte fs.forPush mem offset = readByte fs mem offset := by
  simp only [readByte, FsNvram.forPush, offset1WithBackup,
    @hasFlag_create fs.flags flagWithBackup (by decide)]

theorem writeByte_forPush (offset : Nat) (val : Byte) :
    writeByte fs.forPush mem offset val = writeByte fs mem offset val := by
  simp only [writeByte, FsNvram.forPush, offset1WithBackup, offset2WithBackup,
    @hasFlag_create fs.flags flagWithBackup (by decide)]

theorem offsetOf_forPush (address : BitVec 32) :
    offsetOf fs.forPush address = offsetOf fs address := by
  simp only [offsetOf, FsNvram.forPush, @hasFlag_create fs.flags flagAddrAbsolute (by decide)]

theorem addressOf_forPush (offset : BitVec 32) :
    addressOf fs.forPush offset = addressOf fs offset := by
  simp only [addressOf, FsNvram.forPush, @hasFlag_create fs.flags flagAddrAbsolute (by decide)]

theorem read16_forPush (offset : Nat) :
    read16 fs.forPush mem offset = read16 fs mem offset := by
  simp only [read16, readByte_forPush]

theorem write16_forPush (offset : Nat) (val : BitVec 16) :
    write16 fs.forPush mem offset val = write16 fs mem offset val := by
  simp only [write16, writeByte_forPush]

theorem clear_forPush (offset n : Nat) : clear fs.forPush mem offset n = clear fs mem offset n := by
  simp only [clear, writeByte_forPush]

theorem memcpyFrom_forPush (offset n : Nat) :
    memcpyFrom fs.forPush mem offset n = memcpyFrom fs mem offset n := by
  simp only [memcpyFrom, readByte_forPush]

theorem memcpyTo_forPush (offset : Nat) (data : List Byte) (n : Nat) :
    memcpyTo fs.forPush mem offset data n = memcpyTo fs mem offset data n := by
  simp only [memcpyTo, writeByte_forPush]

theorem create_forPush : create fs.forPush mem = create fs mem := by
  simp only [create, clear_forPush, write16_forPush]
  rfl

theorem readConfig_forPush (uninit : LzcTables) (heap : Nat → Byte) :
    fsNvramReadConfig uninit heap fs.forPush mem = fsNvramReadConfig uninit heap fs mem := by
  simp only [fsNvramReadConfig, readStartup, readData, memcpyFrom_forPush, offsetOf_forPush]
  rfl

theorem writeConfig_forPush (startup priv : List Byte) :
    fsNvramWriteConfig fs.forPush mem startup priv = fsNvramWriteConfig fs mem startup priv := by
  have hhead : startupHeaderFor fs.forPush startup.length = startupHeaderFor fs startup.length := by
    simp only [startupHeaderFor, addressOf_forPush]
    simp only [FsNvram.forPush, @hasFlag_create fs.flags flagsUnk10C01 (by decide),
      @hasFlag_create fs.flags flagsUnk10C03 (by decide)]
  simp only [fsNvramWriteConfig, hhead, memcpyTo_forPush, clear_forPush, updateChecksum, sumWords,
    write16_forPush, read16_forPush, readByte_forPush, oldLength, oldDataEnd, read32]
  rfl

theorem rewriteConfig_forPush {env : Env} (startup priv : Option (List Byte)) :
    rewriteConfig env fs.forPush mem startup priv = rewriteConfig env fs mem startup priv := by
  simp only [rewriteConfig, readConfig_forPush, writeConfig_forPush]

theorem fsNvramOpen_create (hacc : Accepted len f) :
    fsNvramOpen mem len addr (f ||| flagOpenCreate) = some ((openFs len addr f).forPush,
      if read16 (openFs len addr f) mem 6 = magicFilesystem then mem
      else create (openFs len addr f) mem) := by
  have hcreate : hasFlag (f ||| flagOpenCreate) flagOpenCreate = true := by
    rw [hasFlag, decide_eq_true_eq]
    intro hzero
    have hbit := congrArg (fun x => x.getLsbD 0) hzero
    simp [flagOpenCreate] at hbit
  rw [fsNvramOpen, lenDiv_create, if_neg (by rw [Accepted] at hacc; omega)]
  simp only [openFs_create, read16_forPush, create_forPush, hcreate, if_true]
  by_cases h : read16 (openFs len addr f) mem 6 = magicFilesystem
  · rw [if_neg (not_not.mpr h), if_pos h]
  · rw [if_pos h, if_neg h]

theorem fsNvramOpen_refused (hacc : ¬ Accepted len f) :
    fsNvramOpen mem len addr (f ||| flagOpenCreate) = none := by
  rw [fsNvramOpen, lenDiv_create, if_pos (by rw [Accepted] at hacc; omega)]

theorem fsNvramOpen_eq_some {fs : FsNvram} {mem' : Mem} (hf : hasFlag f flagOpenCreate = false) :
    fsNvramOpen mem len addr f = some (fs, mem') ↔ Accepted len f ∧
      read16 (openFs len addr f) mem 6 = magicFilesystem ∧ fs = openFs len addr f ∧ mem' = mem := by
  by_cases hacc : Accepted len f
  · rw [fsNvramOpen, if_neg (by rw [Accepted] at hacc; omega)]
    simp only [hf, Bool.false_eq_true, if_false]
    by_cases h : read16 (openFs len addr f) mem 6 = magicFilesystem
    · rw [if_neg (not_not.mpr h)]
      simp [hacc, h, eq_comm]
    · rw [if_pos h]
      simp [h]
  · rw [fsNvramOpen, if_pos (by rw [Accepted] at hacc; omega)]
    simp [hacc]

end Flags

section Rewrite

variable {env : Env} {fs : FsNvram} {mem mem' : Mem} {startup priv : Option (List Byte)}

theorem rewriteConfig_ok (h : rewriteConfig env fs mem startup priv = (some 0, mem')) :
    ∃ prev, fsNvramReadConfig env.uninit env.heap fs mem = some prev ∧
      fsNvramWriteConfig fs mem (startup.getD (prev.startupConfig.getD []))
        (priv.getD (prev.privateConfig.getD [])) = (0, mem') := by
  rw [rewriteConfig] at h
  cases hread : fsNvramReadConfig env.uninit env.heap fs mem with
  | none =>
    rw [hread] at h
    cases h
  | some prev =>
    rw [hread] at h
    dsimp only at h
    by_cases herr : prev.err ≠ 0
    · rw [if_pos herr] at h
      cases h
    · rw [if_neg herr] at h
      obtain ⟨hret, rfl⟩ := Prod.mk.inj h
      refine ⟨prev, rfl, Prod.ext ?_ rfl⟩
      by_contra hne
      rw [if_pos hne] at hret
      cases hret

theorem fsNvramWriteConfig_fail {s q : List Byte} (h : (fsNvramWriteConfig fs mem s q).1 ≠ 0) :
    (fsNvramWriteConfig fs mem s q).2 = mem := by
  rw [fsNvramWriteConfig] at h ⊢
  by_cases hfit : fs.len < filesystemHeaderSize + startupHeaderSize + s.length +
      paddingAt fs (filesystemHeaderSize + startupHeaderSize + s.length) + privateHeaderSize +
        q.length
  · rw [if_pos hfit]
  · rw [if_neg hfit] at h
    exact absurd rfl h

theorem rewriteConfig_fail {ret : Option Int}
    (h : rewriteConfig env fs mem startup priv = (ret, mem')) (hret : ret ≠ some 0) :
    mem' = mem := by
  rw [rewriteConfig] at h
  cases hread : fsNvramReadConfig env.uninit env.heap fs mem with
  | none =>
    rw [hread] at h
    exact (Prod.mk.inj h).2.symm
  | some prev =>
    rw [hread] at h
    dsimp only at h
    by_cases herr : prev.err ≠ 0
    · rw [if_pos herr] at h
      exact (Prod.mk.inj h).2.symm
    · rw [if_neg herr] at h
      obtain ⟨rfl, rfl⟩ := Prod.mk.inj h
      apply fsNvramWriteConfig_fail
      intro hzero
      rw [if_neg (not_not.mpr hzero)] at hret
      exact hret rfl

end Rewrite

section Files

variable {env env' : Env} {p : NvramParams} {file : List Byte} {fileSize : Nat}

theorem length_resize : (resize fileSize file).length = fileSize := by
  simp only [resize, List.length_append, List.length_take, List.length_replicate]
  omega

theorem getD_resize {i : Nat} (h : i < fileSize) :
    (resize fileSize file).getD i 0 = file.getD i 0 := by
  simp only [resize, List.getD_eq_getElem?_getD, List.getElem?_append, List.getElem?_take,
    List.getElem?_replicate, List.length_take, if_pos h]
  split
  · rfl
  · rw [List.getElem?_eq_none (by omega)]
    split <;> rfl

theorem mapAt_inside {offset i : Nat} (h : offset + i < file.length) :
    mapAt env file offset i = file.getD (offset + i) 0 := by
  simp [mapAt, List.getD_eq_getElem?_getD, List.getElem?_eq_getElem h]

theorem length_unmapAt {offset : Nat} {mem : Mem} (h : offset ≤ file.length) :
    (unmapAt file offset mem).length = file.length := by
  simp only [unmapAt, List.length_append, List.length_take, List.length_map, List.length_range]
  omega

theorem mapAt_unmapAt {offset i : Nat} {mem : Mem} (h : offset + i < file.length) :
    mapAt env (unmapAt file offset mem) offset i = mem i := by
  rw [mapAt_inside (by rwa [length_unmapAt (by omega)])]
  have htake : min offset file.length = offset := Nat.min_eq_left (by omega)
  simp [unmapAt, List.getD_eq_getElem?_getD, htake,
    show i < file.length - offset by omega]

theorem unmapAt_mapAt {offset : Nat} (h : offset ≤ file.length) :
    unmapAt file offset (mapAt env file offset) = file := by
  apply List.ext_getElem (length_unmapAt h)
  intro i hi hi'
  by_cases hlt : i < offset
  · simp [unmapAt, List.getElem_take, hlt, hi']
  · have hge : offset ≤ i := Nat.le_of_not_lt hlt
    have htake : min offset file.length = offset := Nat.min_eq_left h
    simp [unmapAt, List.getElem_append, htake, hlt, mapAt, Nat.add_sub_cancel' hge,
      List.getElem?_eq_getElem hi']

def magicAt (p : NvramParams) (file : List Byte) : BitVec 16 :=
  let shift := if hasFlag p.flags flagScale4 then 2 else 0
  mNtoh16 [file.getD (p.offset + 6 * 2 ^ shift) 0, file.getD (p.offset + 7 * 2 ^ shift) 0]

theorem accepted_ge {len : Nat} {flags : BitVec 32} (hacc : Accepted len flags) :
    1024 * lenDiv flags ≤ len := by
  obtain ⟨hmin, hdiv⟩ := hacc
  simp only [filesystemHeaderSize, sectorSize, lenDiv] at hmin hdiv ⊢
  split at hmin <;> split at hmin <;> simp_all <;> omega

theorem address1_head {len o : Nat} {addr flags : BitVec 32} (ho : o < 1024) :
    address1 (openFs len addr flags) o = o * 2 ^ if hasFlag flags flagScale4 then 2 else 0 := by
  have hlayout : layout1 (openFs len addr flags) o = o := by
    rw [layout1, normalFilesystemBlock1, if_neg (by omega)]
  rw [address1_eq, @uint_of_lt o (by omega), hlayout, openFs]
  dsimp only
  split <;> exact uint_of_lt (by omega)

theorem read16_magic (hacc : Accepted (p.area fileSize) p.flags)
    (hfit : p.offset + p.area fileSize ≤ file.length) :
    read16 (openFs (p.area fileSize) p.addr p.flags) (mapAt env file p.offset) 6 =
      magicAt p file := by
  have hge := accepted_ge hacc
  have hdiv : (if hasFlag p.flags flagScale4 then 4 else 1) ≤ lenDiv p.flags := by
    rw [lenDiv]
    split <;> split <;> decide
  rw [read16, readByte_eq, readByte_eq, address1_head (by decide), address1_head (by decide),
    magicAt, mapAt_inside, mapAt_inside]
  all_goals split <;> simp_all <;> omega

end Files

section ReadBack

variable {len : Nat} {addr flags : BitVec 32} {hacc : Accepted len flags} {hlen : len ≤ 2 ^ 32}
  {mem mem' : Mem}

theorem address1_lt (hacc : Accepted len flags) (hlen : len ≤ 2 ^ 32) {o : Nat}
    (ho : o < (openFs len addr flags).len) : address1 (openFs len addr flags) o < len := by
  have hlt := Nat.mul_lt_mul_of_pos_right (layout1_lt ho)
    (Nat.two_pow_pos (openFs len addr flags).shift)
  rwa [area_openFs hacc, ← address1_layout hacc hlen ho] at hlt

theorem readByte_unmapAt (hacc : Accepted len flags) (hlen : len ≤ 2 ^ 32) {env : Env}
    {file : List Byte} {offset o : Nat} (hfit : offset + len ≤ file.length)
    (ho : o < (openFs len addr flags).len) :
    readByte (openFs len addr flags) (mapAt env (unmapAt file offset mem) offset) o =
      readByte (openFs len addr flags) mem o := by
  have hlt := @address1_lt _ addr _ hacc hlen _ ho
  rw [readByte_eq, readByte_eq, mapAt_unmapAt (by omega)]

theorem writeConfig_keeps (P : Mem → Prop) {startup priv : List Byte} (hlen : len ≤ 2 ^ 32)
    (hstep : ∀ m o v, 8 ≤ o → o < (openFs len addr flags).len → P m →
      P (writeByte (openFs len addr flags) m o v)) (hmem : P mem)
    (h : fsNvramWriteConfig (openFs len addr flags) mem startup priv = (0, mem')) : P mem' := by
  obtain ⟨pad, old, head, phead, hpad, hfit, hold, hhead, hphead, rfl⟩ := fsNvramWriteConfig_eq h
  have hle : (openFs len addr flags).len ≤ 2 ^ 32 := Nat.le_trans (Nat.div_le_self _ _) hlen
  have holdlen : old ≤ (openFs len addr flags).len := hold ▸ oldLength_le _ _
  have hto : ∀ (m : Mem) (data : List Byte) (off n : Nat), 8 ≤ off →
      off + n ≤ (openFs len addr flags).len → n < 2 ^ 32 → P m →
        P (memcpyTo (openFs len addr flags) m off data n) := by
    intro m data off n hoff hin hn hm
    rw [memcpyTo, uint_of_lt hn]
    exact Loop.loop_invariant (fun _ => P) hm fun i hi m' => hstep m' _ _ (by omega) (by omega)
  have hclear : ∀ (m : Mem) (off n : Nat), 8 ≤ off → off + n ≤ (openFs len addr flags).len →
      n < 2 ^ 32 → P m → P (clear (openFs len addr flags) m off n) := by
    intro m off n hoff hin hn hm
    rw [clear, uint_of_lt hn]
    exact Loop.loop_invariant (fun _ => P) hm fun i hi m' => hstep m' _ _ (by omega) (by omega)
  have hsum : ∀ m, P m → P (updateChecksum (openFs len addr flags) m) := by
    intro m hm
    obtain ⟨a, b, c, d, hsum⟩ := updateChecksum_eq (openFs len addr flags) m
    rw [hsum]
    iterate 4 refine hstep _ _ _ (by omega) (by omega) ?_
    exact hm
  refine hsum _ ?_
  dsimp only
  split
  · refine hclear _ _ _ (by omega) (by omega) (by omega) ?_
    iterate 2 refine hto _ _ _ _ (by omega) (by omega) (by omega) ?_
    refine hclear _ _ _ (by omega) (by omega) (by omega) ?_
    iterate 2 refine hto _ _ _ _ (by omega) (by omega) (by omega) ?_
    exact hmem
  · iterate 2 refine hto _ _ _ _ (by omega) (by omega) (by omega) ?_
    refine hclear _ _ _ (by omega) (by omega) (by omega) ?_
    iterate 2 refine hto _ _ _ _ (by omega) (by omega) (by omega) ?_
    exact hmem

theorem read16_create (hacc : Accepted len flags) (hlen : len ≤ 2 ^ 32) :
    read16 (openFs len addr flags) (create (openFs len addr flags) mem) 6 = magicFilesystem := by
  have hlong := (@len_openFs_bounds len addr flags hacc).1
  rw [create, read16_write16 hacc hlen (by simp only [checksumOffset, filesystemHeaderSize]; omega)
      (by omega) (by simp only [checksumOffset, filesystemHeaderSize]; omega),
    if_neg (by decide), read16_write16 hacc hlen (by omega) (by omega) (.inl rfl), if_pos rfl]

theorem holds_written {p : NvramParams} {file : List Byte} {startup priv : List Byte}
    (hfit : p.offset + p.area file.length ≤ file.length) (hlong : file.length < 2 ^ 32)
    (hacc : Accepted (p.area file.length) p.flags)
    (hmagic : read16 (openFs (p.area file.length) p.addr p.flags) mem 6 = magicFilesystem)
    (h : fsNvramWriteConfig (openFs (p.area file.length) p.addr p.flags) mem startup priv =
      (0, mem')) (env : Env) :
    Holds env p (unmapAt file p.offset mem') (some startup) (some priv) := by
  have hlen : p.area file.length ≤ 2 ^ 32 := by omega
  have hsize := (@len_openFs_bounds _ p.addr _ hacc).1
  have hlength := @length_unmapAt file p.offset mem' (by omega)
  have hread := fun o h => @readByte_unmapAt _ p.addr _ mem' hacc hlen env _ _ o hfit h
  have hwindow : ∀ off n, off + n ≤ (openFs (p.area file.length) p.addr p.flags).len →
      (fsStore p.addr hacc hlen).window
        (mapAt env (unmapAt file p.offset mem') p.offset) off n =
        (fsStore p.addr hacc hlen).window mem' off n :=
    fun off n hin => ByteStore.window_congr fun i hi => hread _ (by omega)
  obtain ⟨pad, head, phead, hpad, hin, hhead, hphead, h1, h2, h3, h4⟩ :=
    @fsNvramWriteConfig_windows _ _ _ hacc hlen _ _ _ _ h
  have hopened : fsNvramOpen (mapAt env (unmapAt file p.offset mem') p.offset) (p.area file.length)
      p.addr p.flags = some (openFs (p.area file.length) p.addr p.flags,
        mapAt env (unmapAt file p.offset mem') p.offset) := by
    rw [fsNvramOpen_eq_some p.hasFlag_flags]
    refine ⟨hacc, ?_, rfl, rfl⟩
    rw [read16, hread _ (by omega), hread _ (by omega)]
    refine writeConfig_keeps (fun m => read16 (openFs (p.area file.length) p.addr p.flags) m 6 =
      magicFilesystem) hlen (fun m o v ho hin hm => ?_) hmagic h
    rwa [read16, readByte_writeByte hacc hlen _ _ _ _ hin (by omega),
      readByte_writeByte hacc hlen _ _ _ _ hin (by omega), if_neg (by omega), if_neg (by omega)]
  refine ⟨?_, ?_, _, _, by rw [hlength]; exact hopened, ?_⟩
  · rintro hnil
    rw [hnil] at hlength
    have hge := accepted_ge hacc
    have hpos : 0 < lenDiv p.flags := by
      rw [lenDiv]
      split <;> split <;> decide
    simp only [List.length_nil] at hlength
    omega
  · rwa [hlength]
  · exact fsNvramReadConfig_of_windows _ _ hpad hin hhead hphead
      ((hwindow _ _ (by omega)).trans h1) ((hwindow _ _ (by omega)).trans h2)
      ((hwindow _ _ (by omega)).trans h3) ((hwindow _ _ (by omega)).trans h4)

end ReadBack

section Push

variable {env : Env} {p : NvramParams} {file file' : List Byte} {fileSize : Nat}
  {startup priv s q : Option (List Byte)} {ret : Option Int}

theorem extracts_iff : Extracts env p file s q ↔ Holds env p file s q := by
  rw [Extracts, genericNvramExtractConfig, Holds]
  by_cases hnil : file.length = 0
  · simp [List.eq_nil_of_length_eq_zero hnil]
  · have hne : file ≠ [] := fun h => hnil (congrArg List.length h)
    rw [if_neg hnil]
    dsimp only
    by_cases hfit : file.length < p.offset + p.area file.length
    · rw [if_pos hfit]
      simp [Nat.not_le.mpr hfit]
    · rw [if_neg hfit]
      cases hopen : fsNvramOpen (mapAt env file p.offset) (p.area file.length) p.addr p.flags with
      | none => simp
      | some opened =>
        obtain ⟨fs, mem⟩ := opened
        cases hread : fsNvramReadConfig env.uninit env.heap fs mem with
        | none => simp [hread]
        | some r =>
          simp [hne, Nat.not_lt.mp hfit, hread, configs]
          rintro rfl
          rfl

theorem Holds.found (h : Holds env p file s q) :
    Accepted (p.area file.length) p.flags ∧ magicAt p file = magicFilesystem ∧
      fsNvramReadConfig env.uninit env.heap (openFs (p.area file.length) p.addr p.flags)
        (mapAt env file p.offset) = some (configs s q) := by
  obtain ⟨-, hfit, fs, mem, hopen, hread⟩ := h
  obtain ⟨hacc, hmagic, rfl, rfl⟩ := (fsNvramOpen_eq_some p.hasFlag_flags).mp hopen
  rw [read16_magic hacc hfit] at hmagic
  exact ⟨hacc, hmagic, hread⟩

def openedMem (env : Env) (p : NvramParams) (fileSize : Nat) (file : List Byte) : Mem :=
  if magicAt p (resize fileSize file) = magicFilesystem then
    mapAt env (resize fileSize file) p.offset
  else create (openFs (p.area fileSize) p.addr p.flags) (mapAt env (resize fileSize file) p.offset)

theorem push_opened (hfit : p.offset + p.area fileSize ≤ fileSize) (hpos : fileSize ≠ 0)
    (hacc : Accepted (p.area fileSize) p.flags) :
    genericNvramPushConfig env p fileSize file startup priv =
      ((rewriteConfig env (openFs (p.area fileSize) p.addr p.flags)
          (openedMem env p fileSize file) startup priv).1,
        unmapAt (resize fileSize file) p.offset
          (rewriteConfig env (openFs (p.area fileSize) p.addr p.flags)
            (openedMem env p fileSize file) startup priv).2) := by
  rw [genericNvramPushConfig]
  dsimp only
  rw [if_neg (Nat.not_lt.mpr hfit), if_neg hpos, fsNvramOpen_create hacc,
    read16_magic hacc (by rwa [length_resize])]
  dsimp only
  rw [rewriteConfig_forPush]
  rfl

theorem push_refused (h : ¬ (p.offset + p.area fileSize ≤ fileSize ∧ fileSize ≠ 0 ∧
      Accepted (p.area fileSize) p.flags)) :
    genericNvramPushConfig env p fileSize file startup priv =
      (some (-1), sizedFile p fileSize file) := by
  rw [genericNvramPushConfig, sizedFile]
  dsimp only
  by_cases hfit : fileSize < p.offset + p.area fileSize
  · rw [if_pos hfit, if_neg (Nat.not_le.mpr hfit)]
  · rw [if_neg hfit, if_pos (Nat.not_lt.mp hfit)]
    by_cases hpos : fileSize = 0
    · rw [if_pos hpos]
    · rw [if_neg hpos, fsNvramOpen_refused fun hacc => h ⟨Nat.not_lt.mp hfit, hpos, hacc⟩]

theorem push_failed (h : genericNvramPushConfig env p fileSize file startup priv = (ret, file'))
    (hret : ret ≠ some 0)
    (hmagic : p.offset + p.area fileSize ≤ fileSize → Accepted (p.area fileSize) p.flags →
      magicAt p (resize fileSize file) = magicFilesystem) :
    file' = sizedFile p fileSize file := by
  by_cases hopen : p.offset + p.area fileSize ≤ fileSize ∧ fileSize ≠ 0 ∧
      Accepted (p.area fileSize) p.flags
  · obtain ⟨hfit, hpos, hacc⟩ := hopen
    rw [push_opened hfit hpos hacc] at h
    obtain ⟨hret', rfl⟩ := Prod.mk.inj h
    have hmem : (rewriteConfig env (openFs (p.area fileSize) p.addr p.flags)
        (openedMem env p fileSize file) startup priv).2 =
          mapAt env (resize fileSize file) p.offset :=
      (rewriteConfig_fail (Prod.ext hret' rfl) hret).trans (if_pos (hmagic hfit hacc))
    rw [hmem, unmapAt_mapAt (by rw [length_resize]; omega), sizedFile, if_pos hfit]
  · rw [push_refused hopen] at h
    exact (Prod.mk.inj h).2.symm

theorem Holds.magic_resize (h : Holds env p file s q)
    (hfit : p.offset + p.area fileSize ≤ fileSize) (hacc : Accepted (p.area fileSize) p.flags) :
    magicAt p (resize fileSize file) = magicFilesystem := by
  have hge := accepted_ge hacc
  rw [← h.found.2.1, magicAt, magicAt]
  have hdiv : (if hasFlag p.flags flagScale4 then 4 else 1) ≤ lenDiv p.flags := by
    rw [lenDiv]
    split <;> split <;> decide
  rw [getD_resize, getD_resize]
  all_goals split <;> simp_all <;> omega

theorem readConfig_private {uninit : LzcTables} {heap : Nat → Byte} {fs : FsNvram} {mem : Mem}
    (h : fsNvramReadConfig uninit heap fs mem = some (configs s q)) (hq : q ≠ none) : s ≠ none := by
  rintro rfl
  rw [fsNvramReadConfig] at h
  dsimp only at h
  split at h
  · cases h
    exact hq rfl
  · split at h
    · cases h
    · obtain ⟨r, hr, h⟩ := Option.bind_eq_some_iff.mp h
      cases r with
      | error err =>
        cases h
        exact hq rfl
      | ok data =>
        dsimp only at h
        split at h
        · cases h
        · split at h
          · obtain ⟨d, hd, h⟩ := Option.bind_eq_some_iff.mp h
            cases h
          · cases h

theorem read16_openedMem (hfit : p.offset + p.area fileSize ≤ fileSize) (hsize : fileSize < 2 ^ 32)
    (hacc : Accepted (p.area fileSize) p.flags) :
    read16 (openFs (p.area fileSize) p.addr p.flags) (openedMem env p fileSize file) 6 =
      magicFilesystem := by
  rw [openedMem]
  split
  · rename_i hmagic
    rwa [read16_magic hacc (by rwa [length_resize])]
  · exact read16_create hacc (by omega)

theorem push_ok (h : genericNvramPushConfig env p fileSize file startup priv = (some 0, file'))
    (hsize : fileSize < 2 ^ 32) :
    p.offset + p.area fileSize ≤ fileSize ∧ Accepted (p.area fileSize) p.flags ∧
      ∃ prev, fsNvramReadConfig env.uninit env.heap (openFs (p.area fileSize) p.addr p.flags)
          (openedMem env p fileSize file) = some prev ∧
        44 + (startup.getD (prev.startupConfig.getD [])).length ≤ p.area fileSize ∧
        ∀ env', Holds env' p file' (some (startup.getD (prev.startupConfig.getD [])))
          (some (priv.getD (prev.privateConfig.getD []))) := by
  by_cases hopen : p.offset + p.area fileSize ≤ fileSize ∧ fileSize ≠ 0 ∧
      Accepted (p.area fileSize) p.flags
  · obtain ⟨hfit, hpos, hacc⟩ := hopen
    rw [push_opened hfit hpos hacc] at h
    obtain ⟨hret, rfl⟩ := Prod.mk.inj h
    obtain ⟨prev, hread, hwrite⟩ := rewriteConfig_ok (Prod.ext hret rfl)
    refine ⟨hfit, hacc, prev, hread, ?_, fun env' => ?_⟩
    · obtain ⟨pad, old, head, phead, hpad, hin, -⟩ := fsNvramWriteConfig_eq hwrite
      have hle : (openFs (p.area fileSize) p.addr p.flags).len ≤ p.area fileSize :=
        Nat.div_le_self _ _
      omega
    · have hwritten := @holds_written (openedMem env p fileSize file)
        (rewriteConfig env (openFs (p.area fileSize) p.addr p.flags)
          (openedMem env p fileSize file) startup priv).2 p (resize fileSize file)
        (startup.getD (prev.startupConfig.getD [])) (priv.getD (prev.privateConfig.getD []))
      rw [length_resize] at hwritten
      exact hwritten hfit hsize hacc (read16_openedMem hfit hsize hacc) hwrite env'
  · rw [push_refused hopen] at h
    cases h

theorem push_long (hsize : fileSize < 2 ^ 32) :
    (genericNvramPushConfig env p fileSize file (some (List.replicate fileSize 0)) none).1 ≠
      some 0 := by
  intro hret
  obtain ⟨hfit, -, prev, -, hlong, -⟩ := push_ok (Prod.ext hret rfl) hsize
  rw [Option.getD_some, List.length_replicate] at hlong
  omega

theorem fsNvramWriteConfig_empty {len : Nat} {addr flags : BitVec 32} (hacc : Accepted len flags)
    (mem : Mem) : (fsNvramWriteConfig (openFs len addr flags) mem [] []).1 = 0 := by
  have hlong := (@len_openFs_bounds len addr flags hacc).1
  have hpad : paddingAt (openFs len addr flags) 44 = 0 := rfl
  rw [fsNvramWriteConfig]
  simp only [filesystemHeaderSize, startupHeaderSize, privateHeaderSize, List.length_nil,
    Nat.add_zero, Nat.reduceAdd, hpad]
  rw [if_neg (by omega)]

theorem Extracts.unique {s' q' : Option (List Byte)} (h : Extracts env p file s q)
    (h' : Extracts env p file s' q') : s = s' ∧ q = q' := by
  have heq := Option.some.inj (Prod.mk.inj (Option.some.inj (h.symm.trans h'))).2
  exact ⟨congrArg ReadConfig.startupConfig heq, congrArg ReadConfig.privateConfig heq⟩

theorem push_without_private (hsize : fileSize < 2 ^ 32)
    (h : Holds env p (resize fileSize file) s none) :
    ∃ file', genericNvramPushConfig env p fileSize file (some []) none = (some 0, file') ∧
      Extracts env p file' (some []) (some []) := by
  obtain ⟨hacc, hmagic, hread⟩ := h.found
  obtain ⟨hne, hfit, -⟩ := h
  rw [length_resize] at hacc hfit hread
  have hpos : fileSize ≠ 0 := by
    rintro rfl
    exact hne (List.eq_nil_of_length_eq_zero length_resize)
  have hret : (rewriteConfig env (openFs (p.area fileSize) p.addr p.flags)
      (openedMem env p fileSize file) (some []) none).1 = some 0 := by
    have hempty := @fsNvramWriteConfig_empty _ p.addr _ hacc
      (mapAt env (resize fileSize file) p.offset)
    rw [openedMem, if_pos hmagic, rewriteConfig, hread]
    simp [configs, hempty]
  have hpush := @push_opened env p file fileSize (some []) none hfit hpos hacc
  rw [hret] at hpush
  obtain ⟨-, -, prev, hprev, -, hholds⟩ := push_ok hpush hsize
  rw [openedMem, if_pos hmagic, hread] at hprev
  cases hprev
  exact ⟨_, hpush, extracts_iff.mpr (hholds env)⟩

/-- The two functions keep their promises exactly when the file is long enough for the
filesystem, gets its size without losing a configuration, and stores a private one. -/
theorem pushRight_iff (p : NvramParams) (hsize : fileSize < 2 ^ 32) (file : List Byte) :
    PushRight p fileSize file ↔ Pushable p fileSize file := by
  constructor
  · intro h
    constructor
    · by_contra hshort
      rw [not_or, Nat.not_le] at hshort
      obtain ⟨hne, hshort⟩ := hshort
      apply h.outputs ⟨zeroTables, fun _ => 0, fun _ => 0⟩
      rw [genericNvramExtractConfig, if_neg (mt List.eq_nil_of_length_eq_zero hne)]
      exact if_pos hshort
    · intro before after s q hholds
      have hfile := push_failed (Prod.ext rfl rfl) (@push_long after p file fileSize hsize)
        hholds.magic_resize
      have hkept := h.kept after _ _ _ _ (Prod.ext rfl rfl) (push_long hsize) before after s q
        (extracts_iff.mpr hholds)
      rw [hfile, extracts_iff] at hkept
      refine ⟨hkept, fun hfit => ?_⟩
      rintro rfl
      rw [sizedFile, if_pos hfit] at hkept
      obtain ⟨file', hpush, hempty⟩ := push_without_private hsize hkept
      obtain ⟨s', q', hafter, -, -, hsame⟩ := h.exact after _ _ _ hpush after
      have hnone := (hsame before s none (extracts_iff.mpr hholds)).2 rfl
      have hsome := (hafter.unique hempty).2
      rw [hnone] at hsome
      cases hsome
  · rintro ⟨hlong, hpush⟩
    constructor
    · intro env hout
      rw [genericNvramExtractConfig] at hout
      split at hout
      · cases hout
      · rename_i hne
        dsimp only at hout
        rw [if_neg] at hout
        · split at hout
          · cases hout
          · obtain ⟨r, -, hr⟩ := Option.bind_eq_some_iff.mp hout
            exact absurd (Prod.mk.inj (Option.some.inj hr)).2 (Option.some_ne_none r)
        · rcases hlong with rfl | hlong
          · exact absurd rfl hne
          · exact Nat.not_lt.mpr hlong
    · intro env startup priv file' h env'
      obtain ⟨hfit, hacc, prev, hread, -, hholds⟩ := push_ok h hsize
      refine ⟨_, _, extracts_iff.mpr (hholds env'), ?_, ?_, ?_⟩
      · cases startup <;> simp
      · cases priv <;> simp
      · intro before s q hbefore
        rw [extracts_iff] at hbefore
        obtain ⟨hresized, hq⟩ := hpush before env s q hbefore
        rw [sizedFile, if_pos hfit] at hresized
        have hfound := hresized.found.2.2
        rw [length_resize] at hfound
        rw [openedMem, if_pos (hbefore.magic_resize hfit hacc), hfound] at hread
        cases hread
        obtain ⟨d, rfl⟩ := Option.ne_none_iff_exists'.mp (hq hfit)
        obtain ⟨d', rfl⟩ := Option.ne_none_iff_exists'.mp (readConfig_private hfound (hq hfit))
        exact ⟨by rintro rfl; rfl, by rintro rfl; rfl⟩
    · intro env startup priv ret file' h hret before after s q hbefore
      rw [extracts_iff] at hbefore ⊢
      rw [push_failed h hret hbefore.magic_resize]
      exact (hpush before after s q hbefore).1

theorem pushRight_iff_fresh : 4096 < 2 ^ 32 ∧
    PushRight ⟨0, 0, 0, 0⟩ 4096 (List.replicate 4096 0) := by
  refine ⟨by decide, (pushRight_iff ⟨0, 0, 0, 0⟩ (by decide) _).mpr ⟨.inr ?_, ?_⟩⟩
  · rw [List.length_replicate]
    decide
  · intro before after s q hholds
    have hmagic := hholds.found.2.1
    simp only [magicAt] at hmagic
    cases hmagic

theorem not_pushRight : ¬ PushRight ⟨2048, 0, 0, 0⟩ 4096 [0] :=
  fun h => h.outputs ⟨zeroTables, fun _ => 0, fun _ => 0⟩ rfl

end Push

end Dynamips.Nvram
