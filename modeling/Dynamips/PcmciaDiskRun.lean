import Dynamips.PcmciaDisk

/-! The transfers of a PCMCIA ATA disk over whole runs of register accesses. -/
set_option autoImplicit false

namespace Dynamips.PcmciaDisk

open Runs

inductive Address where
  | lba (lba : Nat)
  | chs (cyl head sect : BitVec 32)

/-- What the last command is to transfer: its sectors from `start`, and the words
that went through the data port since. It is straight while all of them went its
way. `before` is the file at the command. -/
structure Transfer where
  kind : Callback
  start : Nat
  count : Nat
  address : Address
  words : List Word
  straight : Bool
  before : Nat → Sector

def Transfer.Active (t : Transfer) : Prop := t.words.length < SECTOR_WORDS * t.count

instance (t : Transfer) : Decidable t.Active := inferInstanceAs (Decidable (_ < _))

structure Config where
  disk : Disk
  transfer : Option Transfer

structure Access where
  offset : BitVec 32
  op : Option (BitVec 64)

def addressOf (d : Disk) : Address :=
  if d.head &&& ATA_DH_LBA ≠ 0 then
    .lba (d.head.toNat % 16 * 2 ^ 24 + d.cylHigh.toNat * 2 ^ 16 + d.cylLow.toNat * 2 ^ 8 +
      d.sectNo.toNat)
  else
    .chs (BitVec.ofNat 32 (d.cylHigh.toNat * 2 ^ 8 + d.cylLow.toNat))
      (BitVec.ofNat 32 (d.head.toNat % 16)) (BitVec.ofNat 32 d.sectNo.toNat)

/-- The transfer of the command in the registers; none for an unknown one. -/
def started (before : Nat → Sector) (d : Disk) : Option Transfer :=
  if d.ataCmd = ATA_CMD_IDENT_DEVICE then some ⟨.ident, 0, 1, .lba 0, [], true, before⟩
  else if d.ataCmd = ATA_CMD_READ_SECTOR then
    some ⟨.read, (ataSectPos d).toNat, (sectors d).toNat, addressOf d, [], true, before⟩
  else if d.ataCmd = ATA_CMD_WRITE_SECTOR then
    some ⟨.write, (ataSectPos d).toNat, (sectors d).toNat, addressOf d, [], true, before⟩
  else none

def Transfer.word (t : Transfer) (d : Disk) : Option (BitVec 64) → Transfer
  | none =>
    { t with
      words := t.words ++ [d.dataBuffer d.dataPos]
      straight := t.straight && decide (t.kind ≠ .write) }
  | some data =>
    { t with
      words := t.words ++ [data.setWidth 16]
      straight := t.straight && decide (t.kind = .write) }

def Disk.commanded (d : Disk) (data : BitVec 64) : Disk :=
  { d with ataCmd := (data >>> 8).setWidth 8, head := data.setWidth 8, dataPos := 0, io := [] }

def follow (s : Config) (port : Port) (op : Option (BitVec 64)) : Option Transfer :=
  match port, op with
  | .command, some data => started s.disk.file (s.disk.commanded data)
  | .data, op => s.transfer.map fun t => if t.Active then t.word s.disk op else t
  | _, _ => s.transfer

def stepPort (s : Config) (port : Port) (op : Option (BitVec 64)) : Config where
  disk := (accessPort s.disk port op).1
  transfer := follow s port op

def step (mode : Bool) (s : Config) (a : Access) : Config := stepPort s (portOf mode a.offset) a.op

def Disk.total (d : Disk) : Nat := d.nrHeads.toNat * d.nrCylinders.toNat * d.sectsPerTrack.toNat

def Io.sect : Io → Nat
  | .read sect => sect.toNat
  | .write sect => sect.toNat

/-- A transfer changes the complete sectors of its words and no others, and its
words are the ones that the sectors have. -/
def ContentOk (file : Nat → Sector) (t : Transfer) : Prop :=
  match t.kind with
  | .ident => file = t.before
  | .read => file = t.before ∧ (t.straight = true → ∀ i < t.words.length,
      t.words[i]? = some (file (t.start + i / 256) (i % 256)))
  | .write => (∀ s, ¬ (t.start ≤ s ∧ s < t.start + t.words.length / 256) → file s = t.before s) ∧
      (t.straight = true → ∀ i < t.words.length / 256 * 256,
        t.words[i]? = some (file (t.start + i / 256) (i % 256)))

def AddressOk (d : Disk) (t : Transfer) : Prop :=
  match t.address with
  | .lba n => t.start = n
  | .chs cyl head sect => head < d.nrHeads → 1 ≤ sect → sect ≤ d.sectsPerTrack →
      lbaToChs d (BitVec.ofNat 32 t.start) = (cyl, head, sect)

structure StateOk (s : Config) : Prop where
  dataPos : s.disk.dataPos < SECTOR_WORDS
  content : ∀ t ∈ s.transfer, ContentOk s.disk.file t
  address : ∀ t ∈ s.transfer, AddressOk s.disk t

/-- What an access is to do: no sector outside of the disk is read or written, and
none at all by the data port outside of a transfer. -/
structure PortOk (s : Config) (port : Port) (op : Option (BitVec 64)) : Prop where
  inside : ∀ io ∈ (stepPort s port op).disk.io, io.sect < s.disk.total
  outside : port = .data → (∀ t ∈ s.transfer, ¬ t.Active) → (stepPort s port op).disk.io = []
  state : StateOk (stepPort s port op)

/-- A READ command starts inside of the disk; a data access that completes the
buffer moves on to a sector of the disk, or comes outside of a transfer with no
callback of an earlier one left to write a sector or to read another one. -/
def PortWithin (s : Config) (port : Port) (op : Option (BitVec 64)) : Prop :=
  match port, op with
  | .command, some data => (data >>> 8).setWidth 8 = ATA_CMD_READ_SECTOR →
      (ataSectPos { s.disk with head := data.setWidth 8 }).toNat < s.disk.total
  | .data, _ => s.disk.dataPos = 255 →
    match s.disk.ataCmdCallback with
    | some .read => s.disk.sectRemaining = 1 ∨ (∃ t ∈ s.transfer, t.Active ∧
        t.start + t.words.length / 256 + 1 < s.disk.total)
    | some .write => ∃ t ∈ s.transfer, t.Active ∧ t.start + t.words.length / 256 < s.disk.total
    | _ => True
  | _, _ => True

def AccessOk (mode : Bool) (s : Config) (a : Access) : Prop := PortOk s (portOf mode a.offset) a.op

def AccessWithin (mode : Bool) (s : Config) (a : Access) : Prop :=
  PortWithin s (portOf mode a.offset) a.op

structure Tracks (d : Disk) (t : Transfer) : Prop where
  count_le : t.count ≤ 256
  dataPos : d.dataPos = t.words.length % 256
  callback : d.ataCmdCallback = some t.kind
  remaining : t.kind ≠ .ident → d.sectRemaining.toNat = t.count - t.words.length / 256
  sectPos : t.kind ≠ .ident → d.sectPos.toNat = t.start + t.words.length / 256
  ident : t.kind = .ident → t.count = 1
  inside : t.kind = .read → t.start + t.words.length / 256 < d.total
  buffered : t.kind = .read → t.straight = true →
    d.dataBuffer = d.file (t.start + t.words.length / 256)
  collected : t.kind = .write → t.straight = true → ∀ j < t.words.length % 256,
    t.words[t.words.length / 256 * 256 + j]? = some (d.dataBuffer j)

/-- The disk that `diskInit` makes, over a file that is long enough. -/
structure GeometryOk (d : Disk) : Prop where
  nrHeads : d.nrHeads = 4
  sectsPerTrack : d.sectsPerTrack = 32
  nrCylinders : d.nrCylinders.toNat < 2 ^ 25
  fileSects : d.total ≤ d.fileSects

structure Follows (s : Config) : Prop extends StateOk s where
  geometry : GeometryOk s.disk
  tracks : ∀ t ∈ s.transfer, t.Active → Tracks s.disk t

variable {s : Config} {d : Disk} {t : Transfer} {port : Port} {op : Option (BitVec 64)}

theorem dataDone_of_ne (h : d.dataPos ≠ 255) : dataDone d = { d with dataPos := d.dataPos + 1 } :=
  if_neg fun heq => h (Nat.succ.inj heq)

theorem dataDone_of_eq (h : d.dataPos = 255) : dataDone d =
    match d.ataCmdCallback with
    | none => { d with dataPos := 0 }
    | some callback => ataCallback { d with dataPos := 0 } callback :=
  if_pos (by rw [h])

def Disk.core (d : Disk) :=
  (d.nrHeads, d.nrCylinders, d.sectsPerTrack, d.sectPos, d.sectRemaining, d.ataCmdCallback,
    d.dataPos, d.dataBuffer, d.file, d.fileSects)

theorem Follows.congr {d' : Disk} (h : Follows s) (hcore : d'.core = s.disk.core) :
    Follows ⟨d', s.transfer⟩ := by
  obtain ⟨d, tr⟩ := s
  obtain ⟨⟨hpos, hcontent, haddress⟩, ⟨h1, h2, h3, h4⟩, htracks⟩ := h
  cases d
  cases d'
  simp only [Disk.core, Prod.mk.injEq] at hcore
  obtain ⟨rfl, rfl, rfl, rfl, rfl, rfl, rfl, rfl, rfl, rfl⟩ := hcore
  exact ⟨⟨hpos, hcontent, haddress⟩, ⟨h1, h2, h3, h4⟩, fun t ht ha =>
    let k := htracks t ht ha
    ⟨k.1, k.2, k.3, k.4, k.5, k.6, k.7, k.8, k.9⟩⟩

theorem or_bytes (a b c e : Nat) (hb : b < 2 ^ 8) (hc : c < 2 ^ 8) (he : e < 2 ^ 8) :
    a <<< 24 ||| b <<< 16 ||| c <<< 8 ||| e = a * 2 ^ 24 + b * 2 ^ 16 + c * 2 ^ 8 + e := by
  have h1 := Nat.shiftLeft_add_eq_or_of_lt he c
  have h2 := Nat.shiftLeft_add_eq_or_of_lt (show c <<< 8 + e < 2 ^ 16 by
    rw [Nat.shiftLeft_eq]; omega) b
  have h3 := Nat.shiftLeft_add_eq_or_of_lt (show b <<< 16 + (c <<< 8 + e) < 2 ^ 24 by
    rw [Nat.shiftLeft_eq, Nat.shiftLeft_eq]; omega) a
  rw [Nat.or_assoc, Nat.or_assoc, ← h1, ← h2, ← h3]
  simp only [Nat.shiftLeft_eq]
  omega

theorem toNat_and_0f (x : Byte) : (x &&& 0x0f).toNat = x.toNat % 16 := by
  rw [BitVec.toNat_and]
  exact Nat.and_two_pow_sub_one_eq_mod x.toNat 4

theorem ataSectPos_lba (h : d.head &&& ATA_DH_LBA ≠ 0) :
    (ataSectPos d).toNat = d.head.toNat % 16 * 2 ^ 24 + d.cylHigh.toNat * 2 ^ 16 +
      d.cylLow.toNat * 2 ^ 8 + d.sectNo.toNat := by
  have h1 := d.cylHigh.isLt
  have h2 := d.cylLow.isLt
  have h3 := d.sectNo.isLt
  unfold ataSectPos
  simp only [if_pos h, BitVec.toNat_or, BitVec.toNat_shiftLeft, BitVec.toNat_setWidth,
    toNat_and_0f]
  rw [Nat.mod_eq_of_lt (a := d.head.toNat % 16) (by omega),
    Nat.mod_eq_of_lt (a := d.cylHigh.toNat) (by omega),
    Nat.mod_eq_of_lt (a := d.cylLow.toNat) (by omega),
    Nat.mod_eq_of_lt (a := d.sectNo.toNat) (by omega),
    Nat.mod_eq_of_lt (a := (d.head.toNat % 16) <<< 24) (by rw [Nat.shiftLeft_eq]; omega),
    Nat.mod_eq_of_lt (a := d.cylHigh.toNat <<< 16) (by rw [Nat.shiftLeft_eq]; omega),
    Nat.mod_eq_of_lt (a := d.cylLow.toNat <<< 8) (by rw [Nat.shiftLeft_eq]; omega),
    or_bytes _ _ _ _ h1 h2 h3]

theorem lbaToChs_chsToLba (hg : GeometryOk d) {cyl head sect : BitVec 32}
    (hcyl : cyl.toNat < 2 ^ 16) (hhead : head < d.nrHeads) (h1 : 1 ≤ sect)
    (h2 : sect ≤ d.sectsPerTrack) : lbaToChs d (chsToLba d cyl head sect) = (cyl, head, sect) := by
  rw [hg.nrHeads] at hhead
  rw [hg.sectsPerTrack] at h2
  simp only [BitVec.lt_def, BitVec.le_def] at hhead h1 h2
  have hfour : (4 : BitVec 32).toNat = 4 := rfl
  have hthree : (32 : BitVec 32).toNat = 32 := rfl
  have hone : (1 : BitVec 32).toNat = 1 := rfl
  rw [hfour] at hhead
  rw [hone] at h1
  rw [hthree] at h2
  have hlba : (chsToLba d cyl head sect).toNat = (cyl.toNat * 4 + head.toNat) * 32 + sect.toNat - 1 := by
    unfold chsToLba
    rw [hg.nrHeads, hg.sectsPerTrack]
    simp only [BitVec.toNat_sub, BitVec.toNat_add, BitVec.toNat_mul, hfour, hthree, hone]
    omega
  unfold lbaToChs
  rw [hg.nrHeads, hg.sectsPerTrack, Prod.mk.injEq, Prod.mk.injEq]
  refine ⟨BitVec.eq_of_toNat_eq ?_, BitVec.eq_of_toNat_eq ?_, BitVec.eq_of_toNat_eq ?_⟩
  · simp only [BitVec.toNat_udiv, BitVec.toNat_mul, hlba, hfour, hthree, Nat.reduceMul,
      Nat.reducePow, Nat.reduceMod]
    omega
  · simp only [BitVec.toNat_udiv, BitVec.toNat_umod, hlba, hfour, hthree]
    omega
  · simp only [BitVec.toNat_add, BitVec.toNat_umod, hlba, hthree, hone]
    omega

theorem addressOk_of_start (hg : GeometryOk d) (hstart : t.start = (ataSectPos d).toNat)
    (haddress : t.address = addressOf d) : AddressOk d t := by
  unfold AddressOk
  rw [haddress, hstart, addressOf]
  by_cases h : d.head &&& ATA_DH_LBA ≠ 0
  · rw [if_pos h]
    exact ataSectPos_lba h
  · rw [if_neg h]
    dsimp only
    intro hhead h1 h2
    have hhigh := d.cylHigh.isLt
    have hlow := d.cylLow.isLt
    have hpos : ataSectPos d = chsToLba d (BitVec.ofNat 32 (d.cylHigh.toNat * 2 ^ 8 + d.cylLow.toNat))
        (BitVec.ofNat 32 (d.head.toNat % 16)) (BitVec.ofNat 32 d.sectNo.toNat) := by
      unfold ataSectPos
      simp only [if_neg h]
      congr 1
      · apply BitVec.eq_of_toNat_eq
        simp only [BitVec.toNat_add, BitVec.toNat_shiftLeft, BitVec.toNat_setWidth,
          BitVec.toNat_ofNat, Nat.shiftLeft_eq]
        omega
      · apply BitVec.eq_of_toNat_eq
        rw [BitVec.toNat_setWidth, toNat_and_0f, BitVec.toNat_ofNat]
      · exact (BitVec.ofNat_toNat _ _).symm
    rw [BitVec.ofNat_toNat, BitVec.setWidth_eq, hpos]
    refine lbaToChs_chsToLba hg ?_ hhead h1 h2
    rw [BitVec.toNat_ofNat]
    omega

theorem toNat_sectors : (sectors d).toNat ≤ 256 ∧ 0 < (sectors d).toNat := by
  have hlt := d.sectCount.isLt
  unfold sectors
  split_ifs with h
  · decide
  · have hne : d.sectCount.toNat ≠ 0 := fun h0 => h (BitVec.eq_of_toNat_eq h0)
    rw [BitVec.toNat_setWidth]
    omega

theorem GeometryOk.congr {d' : Disk} (h : GeometryOk d) (h1 : d'.nrHeads = d.nrHeads)
    (h2 : d'.nrCylinders = d.nrCylinders) (h3 : d'.sectsPerTrack = d.sectsPerTrack)
    (h4 : d.fileSects ≤ d'.fileSects) : GeometryOk d' := by
  refine ⟨h1.trans h.nrHeads, h3.trans h.sectsPerTrack, ?_, ?_⟩
  · rw [h2]
    exact h.nrCylinders
  · rw [Disk.total, h1, h2, h3]
    exact Nat.le_trans h.fileSects h4

theorem follows_started {d' : Disk} {tr : Option Transfer} (hg : GeometryOk d')
    (hpos : d'.dataPos = 0) (hbefore : ∀ t ∈ tr, t.before = d'.file ∧ t.words = [])
    (haddress : ∀ t ∈ tr, AddressOk d' t) (htracks : ∀ t ∈ tr, Tracks d' t) : Follows ⟨d', tr⟩ := by
  refine ⟨⟨?_, fun t ht => ?_, haddress⟩, hg, fun t ht _ => htracks t ht⟩
  · dsimp only
    rw [hpos]
    decide
  · obtain ⟨hfile, hwords⟩ := hbefore t ht
    unfold ContentOk
    rw [hfile, hwords]
    cases t.kind with
    | ident => rfl
    | read => exact ⟨rfl, fun _ i hi => absurd hi (Nat.not_lt_zero i)⟩
    | write => exact ⟨fun _ _ => rfl, fun _ i hi => absurd hi (by simp)⟩

theorem tracks_started (hwords : t.words = []) (hcount : t.count ≤ 256) (hpos : d.dataPos = 0)
    (hcallback : d.ataCmdCallback = some t.kind)
    (hremaining : t.kind ≠ .ident → d.sectRemaining.toNat = t.count)
    (hsect : t.kind ≠ .ident → d.sectPos.toNat = t.start) (hident : t.kind = .ident → t.count = 1)
    (hinside : t.kind = .read → t.start < d.total)
    (hbuffered : t.kind = .read → d.dataBuffer = d.file t.start) : Tracks d t := by
  have hlen : t.words.length = 0 := by rw [hwords, List.length_nil]
  refine ⟨hcount, ?_, hcallback, ?_, ?_, hident, ?_, fun hk _ => ?_, fun _ _ j hj => ?_⟩
  · rw [hpos, hlen]
  · rwa [hlen]
  · rwa [hlen]
  · rwa [hlen]
  · rw [hlen]
    exact hbuffered hk
  · rw [hlen] at hj
    exact absurd hj (Nat.not_lt_zero j)

theorem command_spec (h : Follows s) (data : BitVec 64)
    (hw : PortWithin s .command (some data)) : Follows (stepPort s .command (some data)) := by
  have hg := h.geometry
  obtain ⟨hle, hcount⟩ := @toNat_sectors (s.disk.commanded data)
  change Follows ⟨ataHandleCmd (s.disk.commanded data),
    started s.disk.file (s.disk.commanded data)⟩
  by_cases hident : (s.disk.commanded data).ataCmd = ATA_CMD_IDENT_DEVICE
  · have heq : ataHandleCmd (s.disk.commanded data) = _ := if_pos hident
    have hst : started s.disk.file (s.disk.commanded data) = _ := if_pos hident
    rw [hst, heq]
    refine follows_started ⟨hg.1, hg.2, hg.3, hg.4⟩ rfl ?_ ?_ ?_
    · rintro t ⟨⟩
      exact ⟨rfl, rfl⟩
    · rintro t ⟨⟩
      rfl
    · rintro t ⟨⟩
      exact tracks_started rfl (Nat.le_of_ble_eq_true rfl) rfl rfl (fun hk => absurd rfl hk)
        (fun hk => absurd rfl hk) (fun _ => rfl) nofun nofun
  · by_cases hread : (s.disk.commanded data).ataCmd = ATA_CMD_READ_SECTOR
    · have heq : ataHandleCmd (s.disk.commanded data) = _ := (if_neg hident).trans (if_pos hread)
      have hst : started s.disk.file (s.disk.commanded data) = _ :=
        (if_neg hident).trans (if_pos hread)
      have hlt : (ataSectPos (s.disk.commanded data)).toNat < s.disk.total := hw hread
      have hfile := Nat.lt_of_lt_of_le hlt hg.fileSects
      rw [hst, heq]
      refine follows_started ⟨hg.1, hg.2, hg.3, hg.4⟩ rfl ?_ ?_ ?_
      · rintro t ⟨⟩
        exact ⟨rfl, rfl⟩
      · rintro t ⟨⟩
        exact addressOk_of_start ⟨hg.1, hg.2, hg.3, hg.4⟩ rfl rfl
      · rintro t ⟨⟩
        exact tracks_started rfl hle rfl rfl (fun _ => rfl) (fun _ => rfl) nofun (fun _ => hlt)
          (fun _ => if_pos hfile)
    · by_cases hwrite : (s.disk.commanded data).ataCmd = ATA_CMD_WRITE_SECTOR
      · have heq : ataHandleCmd (s.disk.commanded data) = _ :=
          (if_neg hident).trans ((if_neg hread).trans (if_pos hwrite))
        have hst : started s.disk.file (s.disk.commanded data) = _ :=
          (if_neg hident).trans ((if_neg hread).trans (if_pos hwrite))
        rw [hst, heq]
        refine follows_started ⟨hg.1, hg.2, hg.3, hg.4⟩ rfl ?_ ?_ ?_
        · rintro t ⟨⟩
          exact ⟨rfl, rfl⟩
        · rintro t ⟨⟩
          exact addressOk_of_start ⟨hg.1, hg.2, hg.3, hg.4⟩ rfl rfl
        · rintro t ⟨⟩
          exact tracks_started rfl hle rfl rfl (fun _ => rfl) (fun _ => rfl) nofun nofun nofun
      · have heq : ataHandleCmd (s.disk.commanded data) = _ :=
          (if_neg hident).trans ((if_neg hread).trans (if_neg hwrite))
        have hst : started s.disk.file (s.disk.commanded data) = none :=
          (if_neg hident).trans ((if_neg hread).trans (if_neg hwrite))
        rw [hst, heq]
        exact follows_started ⟨hg.1, hg.2, hg.3, hg.4⟩ rfl nofun nofun nofun

theorem command_io (s : Config) (data : BitVec 64) :
    (stepPort s .command (some data)).disk.io =
      if (data >>> 8).setWidth 8 = ATA_CMD_READ_SECTOR then
        [.read (ataSectPos { s.disk with head := data.setWidth 8 })] else [] := by
  change (ataHandleCmd (s.disk.commanded data)).io = _
  by_cases hread : (data >>> 8).setWidth 8 = ATA_CMD_READ_SECTOR
  · have hident : (data >>> 8).setWidth 8 ≠ ATA_CMD_IDENT_DEVICE := by
      rw [hread]
      decide
    have heq : ataHandleCmd (s.disk.commanded data) = _ := (if_neg hident).trans (if_pos hread)
    rw [heq, if_pos hread]
    rfl
  · rw [if_neg hread]
    by_cases hident : (data >>> 8).setWidth 8 = ATA_CMD_IDENT_DEVICE
    · have heq : ataHandleCmd (s.disk.commanded data) = _ := if_pos hident
      rw [heq]
      rfl
    · by_cases hwrite : (data >>> 8).setWidth 8 = ATA_CMD_WRITE_SECTOR
      · have heq : ataHandleCmd (s.disk.commanded data) = _ :=
          (if_neg hident).trans ((if_neg hread).trans (if_pos hwrite))
        rw [heq]
        rfl
      · have heq : ataHandleCmd (s.disk.commanded data) = _ :=
          (if_neg hident).trans ((if_neg hread).trans (if_neg hwrite))
        rw [heq]
        rfl

/-- The disk when a data access has read or filled its place of the buffer. -/
def Disk.given (d : Disk) : Option (BitVec 64) → Disk
  | none => { d with io := [] }
  | some data =>
    { d with io := [], dataBuffer := Function.update d.dataBuffer d.dataPos (data.setWidth 16) }

theorem stepPort_data (s : Config) (op : Option (BitVec 64)) :
    stepPort s .data op = ⟨dataDone (s.disk.given op),
      s.transfer.map fun t => if t.Active then t.word s.disk op else t⟩ := by
  cases op with
  | none => rfl
  | some data => rfl

theorem word_spec (d : Disk) (t : Transfer) (op : Option (BitVec 64)) :
    ∃ straight, t.word d op =
      { t with words := t.words ++ [(d.given op).dataBuffer d.dataPos], straight := straight } ∧
        (straight = true → t.straight = true ∧
          (t.kind = .read → (d.given op).dataBuffer = d.dataBuffer)) := by
  cases op with
  | none =>
    refine ⟨_, rfl, fun h => ⟨(Bool.and_eq_true_iff.mp h).1, fun _ => rfl⟩⟩
  | some data =>
    have hself : ((d.given (some data)).dataBuffer d.dataPos) = data.setWidth 16 :=
      Function.update_self ..
    refine ⟨t.straight && decide (t.kind = .write), ?_, fun h => ⟨(Bool.and_eq_true_iff.mp h).1, fun hk => ?_⟩⟩
    · rw [hself]
      rfl
    · have hwrite := of_decide_eq_true (Bool.and_eq_true_iff.mp h).2
      rw [hk] at hwrite
      cases hwrite

theorem given_of_ne (d : Disk) (op : Option (BitVec 64)) {j : Nat} (h : j ≠ d.dataPos) :
    (d.given op).dataBuffer j = d.dataBuffer j := by
  cases op with
  | none => rfl
  | some data => exact Function.update_of_ne h _ _

theorem getElem?_snoc_lt {l : List Word} {x : Word} {i : Nat} (h : i < l.length) :
    (l ++ [x])[i]? = l[i]? := List.getElem?_append_left h

theorem contentOk_word {file : Nat → Sector} {x : Word} {straight : Bool} (h : ContentOk file t)
    (hk : t.words.length % 256 ≠ 255) (hstraight : straight = true → t.straight = true)
    (hx : t.kind = .read → straight = true →
      x = file (t.start + t.words.length / 256) (t.words.length % 256)) :
    ContentOk file { t with words := t.words ++ [x], straight := straight } := by
  have hdiv : (t.words.length + 1) / 256 = t.words.length / 256 := by omega
  unfold ContentOk at h ⊢
  simp only [List.length_append, List.length_singleton, hdiv]
  cases hkind : t.kind with
  | ident =>
    rw [hkind] at h
    exact h
  | read =>
    rw [hkind] at h
    refine ⟨h.1, fun hs i hi => ?_⟩
    rcases Nat.lt_succ_iff_lt_or_eq.mp hi with hlt | rfl
    · rw [getElem?_snoc_lt hlt]
      exact h.2 (hstraight hs) i hlt
    · rw [List.getElem?_concat_length, hx hkind hs]
  | write =>
    rw [hkind] at h
    refine ⟨h.1, fun hs i hi => ?_⟩
    rw [getElem?_snoc_lt (by omega)]
    exact h.2 (hstraight hs) i hi

theorem given_fields (d : Disk) (op : Option (BitVec 64)) :
    (d.given op).nrHeads = d.nrHeads ∧ (d.given op).nrCylinders = d.nrCylinders ∧
      (d.given op).sectsPerTrack = d.sectsPerTrack ∧ (d.given op).sectPos = d.sectPos ∧
        (d.given op).sectRemaining = d.sectRemaining ∧
          (d.given op).ataCmdCallback = d.ataCmdCallback ∧ (d.given op).dataPos = d.dataPos ∧
            (d.given op).file = d.file ∧ (d.given op).fileSects = d.fileSects ∧
              (d.given op).io = [] := by
  cases op with
  | none => exact ⟨rfl, rfl, rfl, rfl, rfl, rfl, rfl, rfl, rfl, rfl⟩
  | some data => exact ⟨rfl, rfl, rfl, rfl, rfl, rfl, rfl, rfl, rfl, rfl⟩

theorem follows_data {d' : Disk} (h : Follows s) (hg : GeometryOk d')
    (hpos : d'.dataPos < SECTOR_WORDS)
    (hdone : ∀ t ∈ s.transfer, ¬ t.Active → ContentOk d'.file t)
    (hcontent : ∀ t ∈ s.transfer, t.Active → ContentOk d'.file (t.word s.disk op))
    (htracks : ∀ t ∈ s.transfer, t.Active → (t.word s.disk op).Active →
      Tracks d' (t.word s.disk op)) :
    Follows ⟨d', s.transfer.map fun t => if t.Active then t.word s.disk op else t⟩ := by
  have haddress : ∀ t ∈ s.transfer, AddressOk d' t := by
    intro t ht
    have hold := h.address t ht
    unfold AddressOk lbaToChs at hold ⊢
    rw [h.geometry.nrHeads, h.geometry.sectsPerTrack] at hold
    rwa [hg.nrHeads, hg.sectsPerTrack]
  refine ⟨⟨hpos, fun t' ht' => ?_, fun t' ht' => ?_⟩, hg, fun t' ht' hactive => ?_⟩
  · obtain ⟨t, ht, rfl⟩ := Option.mem_map.mp ht'
    by_cases ha : t.Active
    · rw [if_pos ha]
      exact hcontent t ht ha
    · rw [if_neg ha]
      exact hdone t ht ha
  · obtain ⟨t, ht, rfl⟩ := Option.mem_map.mp ht'
    by_cases ha : t.Active
    · rw [if_pos ha]
      obtain ⟨straight, hword, -⟩ := word_spec s.disk t op
      rw [hword]
      exact haddress t ht
    · rw [if_neg ha]
      exact haddress t ht
  · obtain ⟨t, ht, rfl⟩ := Option.mem_map.mp ht'
    by_cases ha : t.Active
    · rw [if_pos ha] at hactive ⊢
      exact htracks t ht ha hactive
    · rw [if_neg ha] at hactive
      exact absurd hactive ha

theorem data_spec_of_ne (h : Follows s) (hne : s.disk.dataPos ≠ 255)
    (op : Option (BitVec 64)) : Follows (stepPort s .data op) := by
  obtain ⟨h1, h2, h3, h4, h5, h6, h7, h8, h9, -⟩ := given_fields s.disk op
  have hpos : s.disk.dataPos < 256 := h.dataPos
  rw [stepPort_data, dataDone_of_ne (by rwa [h7])]
  refine follows_data h (h.geometry.congr h1 h2 h3 (Nat.le_of_eq h9.symm)) ?_ (fun t ht _ => ?_)
    (fun t ht ha => ?_) fun t ht ha _ => ?_
  · change (s.disk.given op).dataPos + 1 < 256
    omega
  · dsimp only
    rw [h8]
    exact h.content t ht
  · have hk := h.tracks t ht ha
    obtain ⟨straight, hword, hs⟩ := word_spec s.disk t op
    rw [hword]
    dsimp only
    rw [h8]
    refine contentOk_word (h.content t ht) (by rw [← hk.dataPos]; exact hne)
      (fun hst => (hs hst).1) ?_
    intro hkind hst
    rw [(hs hst).2 hkind, hk.buffered hkind (hs hst).1, hk.dataPos]
  · have hk := h.tracks t ht ha
    obtain ⟨straight, hword, hs⟩ := word_spec s.disk t op
    have hdp := hk.dataPos
    have hdiv : (t.words.length + 1) / 256 = t.words.length / 256 := by omega
    have hmod : (t.words.length + 1) % 256 = t.words.length % 256 + 1 := by omega
    rw [hword]
    refine ⟨hk.count_le, ?_, ?_, ?_, ?_, hk.ident, ?_, ?_, ?_⟩
    · simp only [List.length_append, List.length_singleton, hmod]
      rw [h7, hdp]
    · exact h6.trans hk.callback
    · simp only [List.length_append, List.length_singleton, hdiv]
      rw [h5]
      exact hk.remaining
    · simp only [List.length_append, List.length_singleton, hdiv]
      rw [h4]
      exact hk.sectPos
    · simp only [List.length_append, List.length_singleton, hdiv, Disk.total]
      rw [h1, h2, h3]
      exact hk.inside
    · simp only [List.length_append, List.length_singleton, hdiv]
      intro hkind hst
      rw [(hs hst).2 hkind, h8]
      exact hk.buffered hkind (hs hst).1
    · simp only [List.length_append, List.length_singleton, hdiv, hmod]
      intro hkind hst j hj
      rcases Nat.lt_succ_iff_lt_or_eq.mp hj with hlt | rfl
      · rw [getElem?_snoc_lt (by omega), given_of_ne _ _ (by omega)]
        exact hk.collected hkind (hs hst).1 j hlt
      · rw [Nat.div_add_mod', List.getElem?_concat_length, hdp]

theorem contentOk_read {file : Nat → Sector} {x : Word} {straight : Bool} (h : ContentOk file t)
    (hkind : t.kind = .read) (hstraight : straight = true → t.straight = true)
    (hx : straight = true → x = file (t.start + t.words.length / 256) (t.words.length % 256)) :
    ContentOk file { t with words := t.words ++ [x], straight := straight } := by
  unfold ContentOk at h ⊢
  simp only [hkind, List.length_append, List.length_singleton] at h ⊢
  refine ⟨h.1, fun hs i hi => ?_⟩
  rcases Nat.lt_succ_iff_lt_or_eq.mp hi with hlt | rfl
  · rw [getElem?_snoc_lt hlt]
    exact h.2 (hstraight hs) i hlt
  · rw [List.getElem?_concat_length, hx hs]

theorem contentOk_write {file : Nat → Sector} {buffer : Sector} {straight : Bool}
    (h : ContentOk file t) (hkind : t.kind = .write) (hk : t.words.length % 256 = 255)
    (hstraight : straight = true → t.straight = true)
    (hcollected : straight = true → ∀ j < 255,
      t.words[t.words.length / 256 * 256 + j]? = some (buffer j)) :
    ContentOk (Function.update file (t.start + t.words.length / 256) buffer)
      { t with words := t.words ++ [buffer 255], straight := straight } := by
  have hdiv : (t.words.length + 1) / 256 = t.words.length / 256 + 1 := by omega
  unfold ContentOk at h ⊢
  simp only [hkind, List.length_append, List.length_singleton, hdiv] at h ⊢
  constructor
  · intro sect hsect
    rw [Function.update_of_ne (by omega)]
    exact h.1 sect (by omega)
  · intro hs i hi
    by_cases hold : i < t.words.length / 256 * 256
    · rw [getElem?_snoc_lt (by omega), Function.update_of_ne (by omega)]
      exact h.2 (hstraight hs) i hold
    · have hsect : t.start + i / 256 = t.start + t.words.length / 256 := by omega
      rw [hsect, Function.update_self]
      by_cases hlast : i = t.words.length
      · rw [hlast, List.getElem?_concat_length, hk]
      · have hj := hcollected hs (i % 256) (by omega)
        have hi' : t.words.length / 256 * 256 + i % 256 = i := by omega
        rw [hi'] at hj
        rw [getElem?_snoc_lt (by omega), hj]

def Disk.rewound (d : Disk) : Disk := { d with dataPos := 0 }

theorem dataDone_given (hpos : d.dataPos = 255) (op : Option (BitVec 64)) :
    dataDone (d.given op) =
      match d.ataCmdCallback with
      | none => (d.given op).rewound
      | some callback => ataCallback (d.given op).rewound callback := by
  obtain ⟨-, -, -, -, -, h6, h7, -⟩ := given_fields d op
  rw [dataDone_of_eq (h7.trans hpos), ← h6]
  rfl

theorem data_spec_ident (h : Follows s) (hpos : s.disk.dataPos = 255)
    (hcallback : s.disk.ataCmdCallback = none ∨ s.disk.ataCmdCallback = some .ident)
    (op : Option (BitVec 64)) : Follows (stepPort s .data op) := by
  obtain ⟨h1, h2, h3, h4, h5, h6, h7, h8, h9, -⟩ := given_fields s.disk op
  have hident : ∀ t ∈ s.transfer, t.Active → t.kind = .ident := by
    intro t ht ha
    have hk := (h.tracks t ht ha).callback
    rcases hcallback with hc | hc
    · rw [hc] at hk
      cases hk
    · rw [hc] at hk
      exact (Option.some.inj hk).symm
  have hdisk : ∃ status, dataDone (s.disk.given op) =
      { s.disk.given op with dataPos := 0, ataStatus := status } := by
    rw [dataDone_given hpos]
    rcases hcallback with hc | hc
    · rw [hc]
      exact ⟨(s.disk.given op).ataStatus, rfl⟩
    · rw [hc]
      exact ⟨statusReady, rfl⟩
  obtain ⟨status, hdisk⟩ := hdisk
  rw [stepPort_data, hdisk]
  refine follows_data h (h.geometry.congr h1 h2 h3 (Nat.le_of_eq h9.symm)) (Nat.zero_lt_succ _)
    (fun t ht _ => ?_) (fun t ht ha => ?_) fun t ht ha hactive => ?_
  · dsimp only
    rw [h8]
    exact h.content t ht
  · have hcontent := h.content t ht
    obtain ⟨straight, hword, -⟩ := word_spec s.disk t op
    rw [hword]
    unfold ContentOk at hcontent ⊢
    simp only [hident t ht ha] at hcontent ⊢
    rw [h8]
    exact hcontent
  · obtain ⟨straight, hword, -⟩ := word_spec s.disk t op
    have hk := h.tracks t ht ha
    have hcount := hk.ident (hident t ht ha)
    have hdp := hk.dataPos
    rw [hword] at hactive
    simp only [Transfer.Active, SECTOR_WORDS, List.length_append, List.length_singleton, hcount]
      at hactive
    omega

theorem diskReadSector_eq {sect : BitVec 32} (h : sect.toNat < d.fileSects) :
    diskReadSector d sect =
      { d with dataBuffer := d.file sect.toNat, io := d.io ++ [.read sect] } := by
  unfold diskReadSector
  rw [if_pos h]

theorem pred_eq_zero_iff {x : BitVec 32} : x - 1 = 0 ↔ x = 1 := by
  constructor
  · intro h
    bv_omega
  · rintro rfl
    rfl

theorem toNat_pred {x : BitVec 32} (h : 0 < x.toNat) : (x - 1).toNat = x.toNat - 1 := by
  have hone : (1 : BitVec 32).toNat = 1 := rfl
  rw [BitVec.toNat_sub, hone]
  omega

theorem toNat_succ {x : BitVec 32} {n : Nat} (hn : n + 1 < 2 ^ 32) (h : x.toNat = n) :
    (x + 1).toNat = n + 1 := by
  have hone : (1 : BitVec 32).toNat = 1 := rfl
  rw [BitVec.toNat_add, hone, h]
  exact Nat.mod_eq_of_lt hn

theorem GeometryOk.total_lt (h : GeometryOk d) : d.total + 1 < 2 ^ 32 := by
  have hfour : (4 : BitVec 32).toNat = 4 := rfl
  have hthree : (32 : BitVec 32).toNat = 32 := rfl
  have hcyl := h.nrCylinders
  rw [Disk.total, h.nrHeads, h.sectsPerTrack, hfour, hthree]
  omega

theorem data_spec_read_last (h : Follows s) (hpos : s.disk.dataPos = 255)
    (hcallback : s.disk.ataCmdCallback = some .read) (hlast : s.disk.sectRemaining = 1)
    (op : Option (BitVec 64)) : Follows (stepPort s .data op) := by
  obtain ⟨h1, h2, h3, h4, h5, h6, h7, h8, h9, -⟩ := given_fields s.disk op
  have hkind : ∀ t ∈ s.transfer, t.Active → t.kind = .read := by
    intro t ht ha
    have hk := (h.tracks t ht ha).callback
    rw [hcallback] at hk
    exact (Option.some.inj hk).symm
  have hdisk : ∃ status, dataDone (s.disk.given op) =
      { (s.disk.given op).rewound with
        sectRemaining := (s.disk.given op).sectRemaining - 1, ataStatus := status } := by
    have hzero : (s.disk.given op).rewound.sectRemaining - 1 = 0 := by
      rw [Disk.rewound, h5, hlast]
      rfl
    rw [dataDone_given hpos, hcallback]
    exact ⟨statusReady, if_pos hzero⟩
  obtain ⟨status, hdisk⟩ := hdisk
  rw [stepPort_data, hdisk]
  refine follows_data h (h.geometry.congr h1 h2 h3 (Nat.le_of_eq h9.symm)) (Nat.zero_lt_succ _)
    (fun t ht _ => ?_) (fun t ht ha => ?_) fun t ht ha hactive => ?_
  · dsimp only [Disk.rewound]
    rw [h8]
    exact h.content t ht
  · have hk := h.tracks t ht ha
    obtain ⟨straight, hword, hs⟩ := word_spec s.disk t op
    rw [hword]
    dsimp only [Disk.rewound]
    rw [h8]
    refine contentOk_read (h.content t ht) (hkind t ht ha) (fun hst => (hs hst).1) fun hst => ?_
    rw [(hs hst).2 (hkind t ht ha), hk.buffered (hkind t ht ha) (hs hst).1, hk.dataPos]
  · obtain ⟨straight, hword, -⟩ := word_spec s.disk t op
    have hk := h.tracks t ht ha
    have hremaining := hk.remaining (by rw [hkind t ht ha]; decide)
    have hone : (1 : BitVec 32).toNat = 1 := rfl
    have hdp := hk.dataPos
    rw [hlast, hone] at hremaining
    rw [hword] at hactive
    simp only [Transfer.Active, SECTOR_WORDS, List.length_append, List.length_singleton]
      at hactive
    omega

/-- A read that goes on to the next sector. -/
theorem data_spec_read_next (h : Follows s) (hpos : s.disk.dataPos = 255)
    (hcallback : s.disk.ataCmdCallback = some .read) (hmore : s.disk.sectRemaining ≠ 1)
    (ht : t ∈ s.transfer) (ha : t.Active)
    (hinside : t.start + t.words.length / 256 + 1 < s.disk.total) (op : Option (BitVec 64)) :
    Follows (stepPort s .data op) := by
  obtain ⟨h1, h2, h3, h4, h5, h6, h7, h8, h9, -⟩ := given_fields s.disk op
  have hk := h.tracks t ht ha
  have hkind : t.kind = .read := by
    have hcb := hk.callback
    rw [hcallback] at hcb
    exact (Option.some.inj hcb).symm
  have hne : t.kind ≠ .ident := by
    rw [hkind]
    decide
  have hdp := hk.dataPos
  have htotal := h.geometry.total_lt
  have hdiv : (t.words.length + 1) / 256 = t.words.length / 256 + 1 := by omega
  have hmod : (t.words.length + 1) % 256 = 0 := by omega
  have hremaining := hk.remaining hne
  have hactive : t.words.length < 256 * t.count := ha
  have hpred := @toNat_pred s.disk.sectRemaining (by omega)
  have hsucc := toNat_succ (by omega) (hk.sectPos hne)
  have hone : (1 : BitVec 32).toNat = 1 := rfl
  have hdisk : dataDone (s.disk.given op) =
      { (s.disk.given op).rewound with
        sectRemaining := (s.disk.given op).sectRemaining - 1
        sectPos := (s.disk.given op).sectPos + 1
        dataBuffer := (s.disk.given op).file ((s.disk.given op).sectPos + 1).toNat
        io := (s.disk.given op).io ++ [.read ((s.disk.given op).sectPos + 1)]
        ataStatus := statusData } := by
    have hnonzero : (s.disk.given op).rewound.sectRemaining - 1 ≠ 0 := by
      intro hzero
      rw [Disk.rewound, h5] at hzero
      have hz := congrArg BitVec.toNat hzero
      rw [hpred] at hz
      exact hmore (BitVec.eq_of_toNat_eq (by rw [hone]; change _ = 0 at hz; omega))
    have hlong : ((s.disk.given op).sectPos + 1).toNat < (s.disk.given op).fileSects := by
      have hfile := h.geometry.fileSects
      rw [h4, hsucc, h9]
      omega
    rw [dataDone_given hpos, hcallback]
    refine (if_neg hnonzero).trans ?_
    have hread := @diskReadSector_eq { (s.disk.given op).rewound with
      sectRemaining := (s.disk.given op).sectRemaining - 1
      sectPos := (s.disk.given op).sectPos + 1 } _ hlong
    exact congrArg (fun d : Disk => { d with ataStatus := statusData }) hread
  have hcontent := h.content t ht
  obtain ⟨straight, hword, hs⟩ := word_spec s.disk t op
  rw [stepPort_data, hdisk]
  refine follows_data h (h.geometry.congr h1 h2 h3 (Nat.le_of_eq h9.symm)) (Nat.zero_lt_succ _)
    (fun t' ht' _ => ?_) (fun t' ht' _ => ?_) fun t' ht' _ _ => ?_
  · dsimp only [Disk.rewound]
    rw [h8]
    exact h.content t' ht'
  · obtain rfl := Option.mem_unique ht' ht
    rw [hword]
    dsimp only [Disk.rewound]
    rw [h8]
    refine contentOk_read hcontent hkind (fun hst => (hs hst).1) fun hst => ?_
    rw [(hs hst).2 hkind, hk.buffered hkind (hs hst).1, hdp]
  · obtain rfl := Option.mem_unique ht' ht
    rw [hword]
    refine ⟨hk.count_le, ?_, ?_, ?_, ?_, hk.ident, ?_, ?_, ?_⟩
    · simp only [List.length_append, List.length_singleton, hmod]
      rfl
    · exact h6.trans hk.callback
    · simp only [List.length_append, List.length_singleton, hdiv]
      rw [h5, hpred]
      intro _
      omega
    · simp only [List.length_append, List.length_singleton, hdiv]
      rw [h4, hsucc]
      exact fun _ => Nat.add_assoc ..
    · simp only [List.length_append, List.length_singleton, hdiv, Disk.total, Disk.rewound]
      rw [h1, h2, h3]
      exact fun _ => hinside
    · simp only [List.length_append, List.length_singleton, hdiv, Disk.rewound]
      rw [h4, hsucc]
      exact fun _ _ => rfl
    · intro hk'
      rw [hkind] at hk'
      cases hk'

/-- A write stores the sector. -/
theorem data_spec_write (h : Follows s) (hpos : s.disk.dataPos = 255)
    (hcallback : s.disk.ataCmdCallback = some .write) (ht : t ∈ s.transfer) (ha : t.Active)
    (hinside : t.start + t.words.length / 256 < s.disk.total) (op : Option (BitVec 64)) :
    Follows (stepPort s .data op) := by
  obtain ⟨h1, h2, h3, h4, h5, h6, h7, h8, h9, -⟩ := given_fields s.disk op
  have hk := h.tracks t ht ha
  have hkind : t.kind = .write := by
    have hcb := hk.callback
    rw [hcallback] at hcb
    exact (Option.some.inj hcb).symm
  have hne : t.kind ≠ .ident := by
    rw [hkind]
    decide
  have hdp := hk.dataPos
  have htotal := h.geometry.total_lt
  have hdiv : (t.words.length + 1) / 256 = t.words.length / 256 + 1 := by omega
  have hmod : (t.words.length + 1) % 256 = 0 := by omega
  have hremaining := hk.remaining hne
  have hactive : t.words.length < 256 * t.count := ha
  have hpred := @toNat_pred s.disk.sectRemaining (by omega)
  have hsect := hk.sectPos hne
  have hsucc := toNat_succ (by omega) hsect
  have hdisk : ∃ status, dataDone (s.disk.given op) =
      { (diskWriteSector (s.disk.given op).rewound (s.disk.given op).sectPos) with
        sectPos := (s.disk.given op).sectPos + 1
        sectRemaining := (s.disk.given op).sectRemaining - 1
        ataStatus := status } := by
    rw [dataDone_given hpos, hcallback]
    exact ⟨_, rfl⟩
  obtain ⟨status, hdisk⟩ := hdisk
  obtain ⟨straight, hword, hs⟩ := word_spec s.disk t op
  have hcontent := h.content t ht
  rw [stepPort_data, hdisk]
  refine follows_data h (h.geometry.congr h1 h2 h3 ?_) (Nat.zero_lt_succ _)
    (fun t' ht' hna => ?_) (fun t' ht' _ => ?_) fun t' ht' _ _ => ?_
  · rw [← h9]
    exact Nat.le_max_left _ _
  · obtain rfl := Option.mem_unique ht' ht
    exact absurd ha hna
  · obtain rfl := Option.mem_unique ht' ht
    rw [hword, hpos]
    dsimp only [Disk.rewound, diskWriteSector]
    rw [h8, h4, hsect]
    refine contentOk_write hcontent hkind (by omega) (fun hst => (hs hst).1) fun hst j hj => ?_
    rw [given_of_ne _ _ (by omega)]
    exact hk.collected hkind (hs hst).1 j (by omega)
  · obtain rfl := Option.mem_unique ht' ht
    rw [hword]
    refine ⟨hk.count_le, ?_, ?_, ?_, ?_, hk.ident, ?_, ?_, ?_⟩
    · simp only [List.length_append, List.length_singleton, hmod]
      rfl
    · exact h6.trans hk.callback
    · simp only [List.length_append, List.length_singleton, hdiv]
      rw [h5, hpred]
      intro _
      omega
    · simp only [List.length_append, List.length_singleton, hdiv]
      rw [h4, hsucc]
      exact fun _ => Nat.add_assoc ..
    · intro hk'
      rw [hkind] at hk'
      cases hk'
    · intro hk'
      rw [hkind] at hk'
      cases hk'
    · simp only [List.length_append, List.length_singleton, hmod]
      exact fun _ _ j hj => absurd hj (Nat.not_lt_zero j)

theorem data_io (s : Config) (op : Option (BitVec 64)) :
    (stepPort s .data op).disk.io =
      if s.disk.dataPos = 255 then
        match s.disk.ataCmdCallback with
        | some .read => if s.disk.sectRemaining = 1 then [] else [.read (s.disk.sectPos + 1)]
        | some .write => [.write s.disk.sectPos]
        | _ => []
      else [] := by
  obtain ⟨h1, h2, h3, h4, h5, h6, h7, h8, h9, hio⟩ := given_fields s.disk op
  rw [stepPort_data]
  by_cases hpos : s.disk.dataPos = 255
  · rw [if_pos hpos, dataDone_given hpos]
    cases hcallback : s.disk.ataCmdCallback with
    | none => exact hio
    | some callback =>
      cases callback with
      | ident => exact hio
      | read =>
        dsimp only [ataCallback, Disk.rewound]
        rw [h5]
        by_cases hlast : s.disk.sectRemaining = 1
        · rw [if_pos (pred_eq_zero_iff.mpr hlast), if_pos hlast]
          exact hio
        · rw [if_neg (mt pred_eq_zero_iff.mp hlast), if_neg hlast]
          dsimp only [diskReadSector]
          rw [hio, h4]
          rfl
      | write =>
        dsimp only [ataCallback, Disk.rewound, diskWriteSector]
        rw [hio, h4]
        rfl
  · rw [if_neg hpos, dataDone_of_ne (by rwa [h7])]
    exact hio

theorem follows_stepPort (h : Follows s) (hw : PortWithin s port op) :
    Follows (stepPort s port op) := by
  cases port with
  | data =>
    by_cases hpos : s.disk.dataPos = 255
    · have hw' := hw hpos
      cases hcallback : s.disk.ataCmdCallback with
      | none => exact data_spec_ident h hpos (.inl hcallback) op
      | some callback =>
        rw [hcallback] at hw'
        cases callback with
        | ident => exact data_spec_ident h hpos (.inr hcallback) op
        | read =>
          by_cases hlast : s.disk.sectRemaining = 1
          · exact data_spec_read_last h hpos hcallback hlast op
          · obtain ⟨t, ht, ha, hin⟩ := hw'.resolve_left hlast
            exact data_spec_read_next h hpos hcallback hlast ht ha hin op
        | write =>
          obtain ⟨t, ht, ha, hin⟩ := hw'
          exact data_spec_write h hpos hcallback ht ha hin op
    · exact data_spec_of_ne h hpos op
  | command =>
    cases op with
    | none => exact h.congr rfl
    | some data => exact command_spec h data hw
  | cis byte =>
    cases op with
    | none => exact h.congr rfl
    | some data => exact h.congr rfl
  | pinReplacement =>
    cases op with
    | none => exact h.congr rfl
    | some data => exact h.congr rfl
  | sector =>
    cases op with
    | none => exact h.congr rfl
    | some data => exact h.congr rfl
  | cylinder =>
    cases op with
    | none => exact h.congr rfl
    | some data => exact h.congr rfl
  | other =>
    cases op with
    | none => exact h.congr rfl
    | some data => exact h.congr rfl

/-- Of the data port, the sectors are inside of the disk and of a transfer exactly
where the condition says so. -/
theorem data_io_iff (h : Follows s) (op : Option (BitVec 64)) :
    ((∀ io ∈ (stepPort s .data op).disk.io, io.sect < s.disk.total) ∧
      ((∀ t ∈ s.transfer, ¬ t.Active) → (stepPort s .data op).disk.io = [])) ↔
        PortWithin s .data op := by
  rw [data_io]
  unfold PortWithin
  by_cases hpos : s.disk.dataPos = 255
  · rw [if_pos hpos]
    simp only [hpos, true_implies]
    have htotal := h.geometry.total_lt
    have hnone : (¬ ∃ t ∈ s.transfer, t.Active) → ∀ t ∈ s.transfer, ¬ t.Active :=
      fun hno t ht ha => hno ⟨t, ht, ha⟩
    cases hcallback : s.disk.ataCmdCallback with
    | none => simp
    | some callback =>
      cases callback with
      | ident => simp
      | read =>
        dsimp only
        by_cases hlast : s.disk.sectRemaining = 1
        · simp [hlast]
        · rw [if_neg hlast]
          constructor
          · rintro ⟨hin, hout⟩
            have hin := hin _ (List.mem_singleton.mpr rfl)
            obtain ⟨t, ht, ha⟩ := of_not_not fun hno => List.cons_ne_nil _ _ (hout (hnone hno))
            have hk := h.tracks t ht ha
            have hkind : t.kind = .read := by
              have hcb := hk.callback
              rw [hcallback] at hcb
              exact (Option.some.inj hcb).symm
            have hinside := hk.inside hkind
            have hsucc := toNat_succ (by omega) (hk.sectPos (by rw [hkind]; decide))
            rw [Io.sect, hsucc] at hin
            exact .inr ⟨t, ht, ha, hin⟩
          · intro hw
            obtain ⟨t, ht, ha, hlt⟩ := hw.resolve_left hlast
            have hk := h.tracks t ht ha
            have hkind : t.kind ≠ .ident := by
              intro hkind
              have hcb := hk.callback
              rw [hcallback, hkind] at hcb
              cases hcb
            have hsucc := toNat_succ (by omega) (hk.sectPos hkind)
            refine ⟨fun io hio => ?_, fun hno => absurd ha (hno t ht)⟩
            rw [List.mem_singleton.mp hio, Io.sect, hsucc]
            exact hlt
      | write =>
        dsimp only
        have hsect : ∀ t ∈ s.transfer, t.Active →
            s.disk.sectPos.toNat = t.start + t.words.length / 256 := by
          intro t ht ha
          have hk := h.tracks t ht ha
          refine hk.sectPos fun hkind => ?_
          have hcb := hk.callback
          rw [hcallback, hkind] at hcb
          cases hcb
        constructor
        · rintro ⟨hin, hout⟩
          have hin := hin _ (List.mem_singleton.mpr rfl)
          obtain ⟨t, ht, ha⟩ := of_not_not fun hno => List.cons_ne_nil _ _ (hout (hnone hno))
          rw [Io.sect, hsect t ht ha] at hin
          exact ⟨t, ht, ha, hin⟩
        · rintro ⟨t, ht, ha, hlt⟩
          refine ⟨fun io hio => ?_, fun hno => absurd ha (hno t ht)⟩
          rw [List.mem_singleton.mp hio, Io.sect, hsect t ht ha]
          exact hlt
  · simp [hpos]

theorem portOk_iff (h : Follows s) : PortOk s port op ↔ PortWithin s port op := by
  constructor
  · intro hok
    cases port with
    | data => exact (data_io_iff h op).mp ⟨hok.inside, hok.outside rfl⟩
    | command =>
      cases op with
      | none => trivial
      | some data =>
        intro hread
        have hin := hok.inside
        rw [command_io, if_pos hread] at hin
        exact hin _ (List.mem_singleton.mpr rfl)
    | cis byte => trivial
    | pinReplacement => trivial
    | sector => trivial
    | cylinder => trivial
    | other => trivial
  · intro hw
    have hstate := (follows_stepPort h hw).toStateOk
    cases port with
    | data =>
      obtain ⟨hin, hout⟩ := (data_io_iff h op).mpr hw
      exact ⟨hin, fun _ => hout, hstate⟩
    | command =>
      refine ⟨?_, nofun, hstate⟩
      cases op with
      | none => exact nofun
      | some data =>
        rw [command_io]
        by_cases hread : (data >>> 8).setWidth 8 = ATA_CMD_READ_SECTOR
        · rw [if_pos hread]
          intro io hio
          rw [List.mem_singleton.mp hio]
          exact hw hread
        · rw [if_neg hread]
          exact nofun
    | cis byte =>
      refine ⟨?_, nofun, hstate⟩
      cases op <;> exact nofun
    | pinReplacement =>
      refine ⟨?_, nofun, hstate⟩
      cases op <;> exact nofun
    | sector =>
      refine ⟨?_, nofun, hstate⟩
      cases op <;> exact nofun
    | cylinder =>
      refine ⟨?_, nofun, hstate⟩
      cases op <;> exact nofun
    | other =>
      refine ⟨?_, nofun, hstate⟩
      cases op <;> exact nofun

theorem toNat_nrCylinders (diskSize : BitVec 32) (file : Nat → Sector) :
    (diskInit diskSize file).nrCylinders.toNat < 2 ^ 25 := by
  have h128 : (128 : BitVec 32).toNat = 128 := rfl
  simp only [diskInit]
  rw [BitVec.toNat_udiv, h128]
  omega

theorem follows_init (diskSize : BitVec 32) (file : Nat → Sector) :
    Follows ⟨diskInit diskSize file, none⟩ :=
  ⟨⟨Nat.zero_lt_succ _, nofun, nofun⟩,
    ⟨rfl, rfl, toNat_nrCylinders diskSize file, Nat.le_refl _⟩, nofun⟩

/-- In every run of register accesses, the transfers keep to their sectors and the
data port to its transfers exactly when every access meets the condition. -/
theorem disk_ok_iff (mode : Bool) (diskSize : BitVec 32) (file : Nat → Sector)
    (accesses : List Access) :
    AllSteps (AccessOk mode) (history (step mode) ⟨diskInit diskSize file, none⟩ accesses) ↔
      AllSteps (AccessWithin mode)
        (history (step mode) ⟨diskInit diskSize file, none⟩ accesses) :=
  allSteps_history_iff (P := Follows) (fun _ _ h hw => follows_stepPort h hw)
    (fun _ _ h => portOk_iff h) (follows_init diskSize file) accesses

/-- The command register of the second handler, with a command and the head 0 in
LBA mode, and its data port. -/
def commandAccess (cmd : Byte) : Access := ⟨0x0e, some (cmd.setWidth 64 <<< 8 ||| 0x40)⟩

def dataAccess : Access := ⟨0x12, some 0x5a5a⟩

theorem idle_run {k : Nat} (hk : s.disk.dataPos + k ≤ 255) (htr : s.transfer = none) :
    ((List.replicate k dataAccess).foldl (step true) s).disk.dataPos = s.disk.dataPos + k ∧
      ((List.replicate k dataAccess).foldl (step true) s).disk.ataCmdCallback =
        s.disk.ataCmdCallback ∧
          ((List.replicate k dataAccess).foldl (step true) s).transfer = none := by
  induction k generalizing s with
  | zero => exact ⟨rfl, rfl, htr⟩
  | succ k ih =>
    have hstep : step true s dataAccess = stepPort s .data dataAccess.op := rfl
    rw [List.replicate_succ, List.foldl_cons, hstep, stepPort_data, htr,
      dataDone_of_ne (show (s.disk.given dataAccess.op).dataPos ≠ 255 from fun h => by
        change s.disk.dataPos = 255 at h
        omega)]
    obtain ⟨h1, h2, h3⟩ := @ih ⟨{ s.disk.given dataAccess.op with
      dataPos := (s.disk.given dataAccess.op).dataPos + 1 }, none⟩
        (by change s.disk.dataPos + 1 + k ≤ 255; omega) rfl
    refine ⟨h1.trans ?_, h2, h3⟩
    change s.disk.dataPos + 1 + k = _
    omega

/-- After a WRITE command and then one that the disk does not know, the data port
still writes the sector of the first. -/
theorem not_disk_ok : ¬ ∀ accesses : List Access,
    AllSteps (AccessOk true)
      (history (step true) ⟨diskInit 1 fun _ _ => 0, none⟩ accesses) := by
  intro h
  have hlast := h ((commandAccess ATA_CMD_WRITE_SECTOR :: commandAccess 0 ::
    List.replicate 255 dataAccess) ++ [dataAccess])
  rw [history_snoc, allSteps_snoc] at hlast
  obtain ⟨h1, h2, h3⟩ := @idle_run (step true (step true ⟨diskInit 1 fun _ _ => 0, none⟩
    (commandAccess ATA_CMD_WRITE_SECTOR)) (commandAccess 0)) 255 (Nat.le_refl _) rfl
  rw [List.foldl_cons, List.foldl_cons] at hlast
  generalize (List.replicate 255 dataAccess).foldl (step true) _ = s at hlast h1 h2 h3
  have hpos : s.disk.dataPos = 255 := h1
  have hcallback : s.disk.ataCmdCallback = some .write := h2
  have hio := hlast.2.outside rfl (by rw [h3]; exact nofun)
  change (stepPort s .data dataAccess.op).disk.io = [] at hio
  rw [data_io, if_pos hpos, hcallback] at hio
  exact List.cons_ne_nil _ _ hio

end Dynamips.PcmciaDisk
