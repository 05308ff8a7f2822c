import Dynamips.FsNvramLimit
import Dynamips.UncompressLzcRun

/-! What `fs_nvram_read_config` reads, and what its result depends on. -/
set_option autoImplicit false

namespace Dynamips.Nvram

def startupHeadAt (fs : FsNvram) (mem : Mem) : StartupHeader :=
  StartupHeader.ofBytes (memcpyFrom fs mem filesystemHeaderSize startupHeaderSize)

def privateOffset (fs : FsNvram) (head : StartupHeader) : Nat :=
  let off := (offsetOf fs (head.start + head.len)).toNat
  off + paddingAt fs off

def privateHeadAt (fs : FsNvram) (mem : Mem) : PrivateHeader :=
  PrivateHeader.ofBytes
    (memcpyFrom fs mem (privateOffset fs (startupHeadAt fs mem)) privateHeaderSize)

def PrivateRead (fs : FsNvram) (head : PrivateHeader) : Prop :=
  (offsetOf fs (head.start + head.len)).toNat ≤ fs.len ∧ head.magic = magicPrivateConfig ∧
    head.format = formatRaw

instance (fs : FsNvram) (head : PrivateHeader) : Decidable (PrivateRead fs head) :=
  inferInstanceAs (Decidable (_ ∧ _ ∧ _))

/-- The end of `fs_nvram_read_config`, from the private configuration on. -/
def readPrivate (fs : FsNvram) (mem : Mem) (head : PrivateHeader) :
    Except Int (List Byte × Nat) → Option ReadConfig
  | .error err => some (.error err)
  | .ok (startup, startupLen) =>
    if (offsetOf fs (head.start + head.len)).toNat > fs.len ∨ head.magic ≠ magicPrivateConfig then
      some ⟨0, some startup, startupLen, none, 0⟩
    else if head.format = formatRaw then do
      let data ← readData fs mem (offsetOf fs head.start).toNat head.len
      some ⟨0, some startup, startupLen, some data, head.len.toNat⟩
    else some (.error enotsup)

theorem fsNvramReadConfig_eq (uninit : LzcTables) (heap : Nat → Byte) (fs : FsNvram) (mem : Mem) :
    fsNvramReadConfig uninit heap fs mem =
      if (startupHeadAt fs mem).magic ≠ magicStartupConfig then some ⟨0, none, 0, none, 0⟩
      else if privateOffset fs (startupHeadAt fs mem) + privateHeaderSize > fs.len then
        some (.error enomem)
      else
        (readStartup uninit heap fs mem (startupHeadAt fs mem)).bind
          (readPrivate fs mem (privateHeadAt fs mem)) := by
  rfl

/-- The startup header is there and the private header is inside of the filesystem. -/
def HeadersRead (fs : FsNvram) (mem : Mem) : Prop :=
  (startupHeadAt fs mem).magic = magicStartupConfig ∧
    privateOffset fs (startupHeadAt fs mem) + privateHeaderSize ≤ fs.len

def KnownFormat (head : StartupHeader) : Prop :=
  head.format = formatRaw ∨ head.format = formatLzc

instance (fs : FsNvram) (mem : Mem) : Decidable (HeadersRead fs mem) :=
  inferInstanceAs (Decidable (_ ∧ _))

instance (head : StartupHeader) : Decidable (KnownFormat head) :=
  inferInstanceAs (Decidable (_ ∨ _))

def configReads (uninit : LzcTables) (heap : Nat → Byte) (fs : FsNvram) (mem : Mem) :
    List (Nat × Nat) :=
  let head := startupHeadAt fs mem
  let phead := privateHeadAt fs mem
  (filesystemHeaderSize, startupHeaderSize) ::
    if HeadersRead fs mem then
      (privateOffset fs head, privateHeaderSize) ::
        if KnownFormat head then
          ((offsetOf fs head.start).toNat, head.len.toNat) ::
            match readStartup uninit heap fs mem head with
            | some (.ok _) =>
              if PrivateRead fs phead then [((offsetOf fs phead.start).toNat, phead.len.toNat)]
              else []
            | _ => []
        else []
    else []

theorem forall_configReads (uninit : LzcTables) (heap : Nat → Byte) (fs : FsNvram) (mem : Mem)
    (p : Nat → Nat → Prop) :
    (∀ w ∈ configReads uninit heap fs mem, p w.1 w.2) ↔
      p filesystemHeaderSize startupHeaderSize ∧
        (HeadersRead fs mem →
          p (privateOffset fs (startupHeadAt fs mem)) privateHeaderSize ∧
            (KnownFormat (startupHeadAt fs mem) →
              p (offsetOf fs (startupHeadAt fs mem).start).toNat (startupHeadAt fs mem).len.toNat ∧
                ∀ s, readStartup uninit heap fs mem (startupHeadAt fs mem) = some (.ok s) →
                  PrivateRead fs (privateHeadAt fs mem) →
                    p (offsetOf fs (privateHeadAt fs mem).start).toNat
                      (privateHeadAt fs mem).len.toNat)) := by
  rw [configReads]
  simp only [List.forall_mem_cons]
  refine and_congr_right fun _ => ?_
  by_cases hheaders : HeadersRead fs mem
  · rw [if_pos hheaders]
    simp only [hheaders, true_imp_iff, List.forall_mem_cons]
    refine and_congr_right fun _ => ?_
    by_cases hformat : KnownFormat (startupHeadAt fs mem)
    · rw [if_pos hformat]
      simp only [hformat, true_imp_iff, List.forall_mem_cons]
      refine and_congr_right fun _ => ?_
      split
      · rename_i s hs
        rw [hs]
        split
        · rename_i hread
          simp [hread]
        · rename_i hread
          simp [hread]
      · rename_i hne
        simp only [List.not_mem_nil, false_imp_iff, implies_true, true_iff]
        exact fun s hs => absurd hs (hne s)
    · rw [if_neg hformat]
      simp [hformat]
  · rw [if_neg hheaders]
    simp [hheaders]

variable {fs : FsNvram} {mem mem' : Mem} {uninit uninit' : LzcTables} {heap heap' : Nat → Byte}

/-! The bounds. -/

def ReadsInside (uninit : LzcTables) (heap : Nat → Byte) (fs : FsNvram) (mem : Mem) : Prop :=
  ∀ w ∈ configReads uninit heap fs mem, ∀ i < uint w.2, uint (w.1 + i) < fs.len

def NoWrap (fs : FsNvram) (start len : BitVec 32) : Prop :=
  len = 0 ∨ (offsetOf fs start).toNat + len.toNat < 2 ^ 32 ∨ 2 ^ 32 ≤ fs.len

theorem inside_iff {off n : Nat} (hoff : off < 2 ^ 32) (hn : n < 2 ^ 32) :
    (∀ i < uint n, uint (off + i) < fs.len) ↔ n = 0 ∨ off + n ≤ fs.len ∨ 2 ^ 32 ≤ fs.len := by
  rw [uint_of_lt hn]
  constructor
  · intro h
    by_contra hc
    simp only [not_or, not_le] at hc
    obtain ⟨hpos, hlong, hsmall⟩ := hc
    by_cases hstart : fs.len ≤ off
    · have h0 := h 0 (by omega)
      rw [Nat.add_zero, uint_of_lt hoff] at h0
      omega
    · have hlast := h (fs.len - off) (by omega)
      rw [show off + (fs.len - off) = fs.len by omega, uint_of_lt hsmall] at hlast
      omega
  · intro h i hi
    rcases h with h | h | h
    · omega
    · have := Nat.mod_le (off + i) (2 ^ 32)
      rw [uint]
      omega
    · have := Nat.mod_lt (off + i) (Nat.two_pow_pos 32)
      rw [uint]
      omega

theorem offsetOf_add (fs : FsNvram) (start len : BitVec 32) :
    offsetOf fs (start + len) = offsetOf fs start + len := by
  rw [offsetOf, offsetOf]
  split
  · rw [BitVec.sub_eq_add_neg, BitVec.sub_eq_add_neg, BitVec.add_assoc, BitVec.add_assoc,
      BitVec.add_comm len]
  · rw [BitVec.add_assoc, BitVec.add_assoc, BitVec.add_comm len]

theorem data_inside_iff {start len : BitVec 32}
    (h : (offsetOf fs (start + len)).toNat ≤ fs.len) :
    (∀ i < uint len.toNat, uint ((offsetOf fs start).toNat + i) < fs.len) ↔
      NoWrap fs start len := by
  have hzero : len = 0 ↔ len.toNat = 0 := by
    rw [← BitVec.toNat_inj]
    rfl
  rw [inside_iff (offsetOf fs start).isLt len.isLt, NoWrap, hzero]
  rw [offsetOf_add, BitVec.toNat_add] at h
  have hstart := (offsetOf fs start).isLt
  have hlen := len.isLt
  omega

def StartupRead (fs : FsNvram) (mem : Mem) (head : StartupHeader) : Prop :=
  head.len.toNat + 1 < 2 ^ 32 ∧
    (head.format = formatRaw ∨
      head.format = formatLzc ∧ head.uncompressedLen.toNat + 1 < 2 ^ 32 ∧
        (decodeLzc (memcpyFrom fs mem (offsetOf fs head.start).toNat head.len.toNat)).isSome)

def inflated (bytes : List Byte) (outLen : Nat) (heap : Nat → Byte) : List Byte :=
  (List.range outLen).map fun j => if j < bytes.length then bytes.getD j 0 else heap j

theorem readStartup_raw {head : StartupHeader} (h : head.format = formatRaw) :
    readStartup uninit heap fs mem head =
      if head.len.toNat + 1 < 2 ^ 32 then
        some (.ok (memcpyFrom fs mem (offsetOf fs head.start).toNat head.len.toNat, head.len.toNat))
      else none := by
  rw [readStartup, if_pos h, readData]
  split <;> rfl

theorem readStartup_lzc {head : StartupHeader} (h : head.format = formatLzc) :
    ∃ err, err ≠ 0 ∧ readStartup uninit heap fs mem head =
      if head.len.toNat + 1 < 2 ^ 32 ∧ head.uncompressedLen.toNat + 1 < 2 ^ 32 then
        match decodeLzc (memcpyFrom fs mem (offsetOf fs head.start).toNat head.len.toNat) with
        | some bytes => some (.ok (inflated bytes head.uncompressedLen.toNat heap,
            head.uncompressedLen.toNat))
        | none => some (.error err)
      else none := by
  have hraw : head.format ≠ formatRaw := by
    rw [h]
    decide
  rw [readStartup, if_neg hraw, if_pos h, readData]
  generalize memcpyFrom fs mem (offsetOf fs head.start).toNat head.len.toNat = buf
  obtain ⟨err, out, hrun, hout⟩ := uncompressLZC_decode uninit buf heap head.uncompressedLen.toNat
  simp only [Option.bind_eq_bind]
  by_cases hlen : head.len.toNat + 1 < 2 ^ 32 ∧ head.uncompressedLen.toNat + 1 < 2 ^ 32
  · simp only [if_pos hlen, if_pos hlen.1, Option.bind_some, if_pos hlen.2, hrun]
    cases hdecode : decodeLzc buf with
    | none =>
      rw [hdecode] at hout
      exact ⟨err, hout, if_pos hout⟩
    | some bytes =>
      rw [hdecode] at hout
      obtain ⟨rfl, hdata⟩ := hout
      refine ⟨1, by decide, ?_⟩
      rw [if_neg (by decide)]
      simp only [inflated, Option.some.injEq, Except.ok.injEq, Prod.mk.injEq, and_true]
      refine List.map_congr_left fun j hj => ?_
      rw [List.mem_range] at hj
      rw [hdata j]
      simp only [hj, true_and]
  · refine ⟨1, by decide, ?_⟩
    rw [if_neg hlen]
    split
    · rename_i hlen1
      exact if_neg fun hc => hlen ⟨hlen1, hc⟩
    · rfl

theorem startupRead_iff {head : StartupHeader} (hformat : KnownFormat head) :
    (∃ s, readStartup uninit heap fs mem head = some (.ok s)) ↔ StartupRead fs mem head := by
  rw [StartupRead]
  rcases hformat with hraw | hlzc
  · rw [readStartup_raw hraw]
    split
    · rename_i hlen
      exact ⟨fun _ => ⟨hlen, Or.inl hraw⟩, fun _ => ⟨_, rfl⟩⟩
    · rename_i hlen
      simp only [reduceCtorEq, exists_false, false_iff]
      exact fun h => hlen h.1
  · obtain ⟨err, -, hrun⟩ := @readStartup_lzc fs mem uninit heap head hlzc
    have hraw : head.format ≠ formatRaw := by
      rw [hlzc]
      decide
    rw [hrun]
    split
    · rename_i hlen
      cases hdecode : decodeLzc (memcpyFrom fs mem (offsetOf fs head.start).toNat head.len.toNat) with
      | none => simp [hraw]
      | some bytes =>
        exact ⟨fun _ => ⟨hlen.1, Or.inr ⟨hlzc, hlen.2, rfl⟩⟩, fun _ => ⟨_, rfl⟩⟩
    · rename_i hlen
      simp only [reduceCtorEq, exists_false, false_iff]
      rintro ⟨h1, h | h⟩
      · exact hraw h
      · exact hlen ⟨h1, h.2.1⟩

theorem inside_of_le {off n : Nat} (h : off + n ≤ fs.len) : ∀ i < uint n, uint (off + i) < fs.len := by
  intro i hi
  have := Nat.mod_le n (2 ^ 32)
  have := Nat.mod_le (off + i) (2 ^ 32)
  rw [uint] at hi ⊢
  omega

theorem lenDiv_pos (flags : BitVec 32) : 0 < lenDiv flags := by
  rw [lenDiv]
  cases hasFlag flags flagScale4 <;> cases hasFlag flags flagWithBackup <;> decide

theorem sectorSize_le_len {len : Nat} {addr flags : BitVec 32} (hacc : Accepted len flags) :
    sectorSize ≤ (openFs len addr flags).len := by
  have hmod := @len_openFs_mod _ addr _ hacc
  have hpos : filesystemHeaderSize ≤ (openFs len addr flags).len :=
    (Nat.le_div_iff_mul_le (lenDiv_pos flags)).mpr hacc.1
  simp only [sectorSize, filesystemHeaderSize] at *
  omega

/-- The ends of the data in both headers, as far as they are read, do not wrap around. -/
def ReadsFit (fs : FsNvram) (mem : Mem) : Prop :=
  HeadersRead fs mem → KnownFormat (startupHeadAt fs mem) →
    NoWrap fs (startupHeadAt fs mem).start (startupHeadAt fs mem).len ∧
      (StartupRead fs mem (startupHeadAt fs mem) → PrivateRead fs (privateHeadAt fs mem) →
        NoWrap fs (privateHeadAt fs mem).start (privateHeadAt fs mem).len)

/-- The tests on the ends keep the reads inside exactly when no end wraps around. -/
theorem readsInside_iff {len : Nat} {flags : BitVec 32} (addr : BitVec 32)
    (hacc : Accepted len flags) (uninit : LzcTables) (heap : Nat → Byte) (mem : Mem) :
    ReadsInside uninit heap (openFs len addr flags) mem ↔ ReadsFit (openFs len addr flags) mem := by
  have hlen : filesystemHeaderSize + startupHeaderSize ≤ (openFs len addr flags).len :=
    Nat.le_trans (by decide) (@sectorSize_le_len _ addr _ hacc)
  generalize openFs len addr flags = fs at hlen ⊢
  rw [ReadsInside, forall_configReads uninit heap fs mem fun off n =>
    ∀ i < uint n, uint (off + i) < fs.len, and_iff_right (inside_of_le hlen), ReadsFit]
  refine imp_congr_right fun hheaders => ?_
  rw [and_iff_right (inside_of_le hheaders.2)]
  refine imp_congr_right fun hformat => ?_
  have hend : (offsetOf fs ((startupHeadAt fs mem).start + (startupHeadAt fs mem).len)).toNat ≤
      fs.len := by
    have hroom := hheaders.2
    rw [privateOffset] at hroom
    omega
  rw [data_inside_iff hend, ← @startupRead_iff fs mem uninit heap _ hformat]
  refine and_congr_right fun _ => ?_
  constructor
  · rintro h ⟨s, hs⟩ hread
    exact (data_inside_iff hread.1).mp (h s hs hread)
  · intro h s hs hread
    exact (data_inside_iff hread.1).mpr (h ⟨s, hs⟩ hread)

def zeroTables : LzcTables := ⟨fun _ => 0, fun _ => 0, fun _ => 0, fun _ => 0⟩

def imageOf (bytes : List Byte) : Mem := fun o => bytes.getD o 0

def startupImage (head : StartupHeader) (data : List Byte) : Mem :=
  imageOf ([0, 0, 0, 0, 0, 0, 0xF0, 0xA5] ++ head.toBytes ++ data)

/-- A startup configuration of 256 bytes that starts below the filesystem. -/
def wrapHeader : StartupHeader :=
  { startupHeaderFor (openFs 1024 0 0) 256 with start := 0xFFFFFF00, stop := 0 }

theorem not_readsInside : Accepted 1024 0 ∧
    (fsNvramOpen (startupImage wrapHeader []) 1024 0 0).map Prod.fst = some (openFs 1024 0 0) ∧
      ¬ReadsInside zeroTables (fun _ => 0) (openFs 1024 0 0) (startupImage wrapHeader []) := by
  refine ⟨accepted_of_plain (by decide) (by decide), rfl, fun h => ?_⟩
  have hfirst := h (0xFFFFFF08, 256) (by decide) 0 (by decide)
  exact absurd hfirst (by decide)

theorem readsInside_iff_wrap : Accepted 1024 0 ∧
    (ReadsInside zeroTables (fun _ => 0) (openFs 1024 0 0) (startupImage wrapHeader []) ↔
      ReadsFit (openFs 1024 0 0) (startupImage wrapHeader [])) :=
  ⟨accepted_of_plain (by decide) (by decide),
    readsInside_iff 0 (accepted_of_plain (by decide) (by decide)) _ _ _⟩

/-! What the result depends on. -/

/-- The compressed startup configuration, when there is one, has all of its bytes. -/
def StreamComplete (fs : FsNvram) (mem : Mem) : Prop :=
  let head := startupHeadAt fs mem
  head.magic = magicStartupConfig → head.format = formatLzc →
    ∀ bytes, decodeLzc (memcpyFrom fs mem (offsetOf fs head.start).toNat head.len.toNat) = some bytes →
      head.uncompressedLen.toNat ≤ bytes.length

def AllWritten (uninit : LzcTables) (heap : Nat → Byte) (fs : FsNvram) (mem : Mem)
    (startupLen : Nat) : Prop :=
  let head := startupHeadAt fs mem
  head.magic = magicStartupConfig → head.format = formatLzc →
    lzcWritten uninit (memcpyFrom fs mem (offsetOf fs head.start).toNat head.len.toNat) heap
      head.uncompressedLen.toNat = some startupLen

theorem inflated_eq {bytes : List Byte} {outLen : Nat} (h : outLen ≤ bytes.length) :
    inflated bytes outLen heap' = inflated bytes outLen heap := by
  rw [inflated, inflated]
  refine List.map_congr_left fun j hj => ?_
  rw [List.mem_range] at hj
  rw [if_pos (by omega), if_pos (by omega)]

theorem inflated_ne {bytes : List Byte} {outLen : Nat} (h : bytes.length < outLen) :
    inflated bytes outLen (fun j => heap j + 1) ≠ inflated bytes outLen heap := by
  intro hc
  have hbyte := congrArg (fun l => l.getD bytes.length 0) hc
  simp [inflated, h] at hbyte

theorem readPrivate_ok {head : PrivateHeader} {startup : List Byte} {startupLen : Nat}
    {r : ReadConfig} (h : readPrivate fs mem head (.ok (startup, startupLen)) = some r)
    (herr : r.err = 0) (startup' : List Byte) :
    r.startupConfig = some startup ∧ r.startupLen = startupLen ∧
      readPrivate fs mem head (.ok (startup', startupLen)) =
        some { r with startupConfig := some startup' } := by
  rw [readPrivate] at h ⊢
  split at h
  · rename_i hskip
    cases h
    rw [if_pos hskip]
    exact ⟨rfl, rfl, rfl⟩
  · rename_i hread
    rw [if_neg hread]
    split at h
    · rename_i hraw
      rw [if_pos hraw]
      cases hdata : readData fs mem (offsetOf fs head.start).toNat head.len with
      | none =>
        rw [hdata] at h
        cases h
      | some data =>
        rw [hdata] at h
        cases h
        exact ⟨rfl, rfl, rfl⟩
    · cases h
      cases herr

theorem readStartup_heap {head : StartupHeader} (h : head.format ≠ formatLzc) :
    readStartup uninit' heap' fs mem head = readStartup uninit heap fs mem head := by
  rw [readStartup, readStartup, if_neg h, if_neg h]

theorem readLzc_ok {head : StartupHeader} {phead : PrivateHeader} {r : ReadConfig}
    (hlzc : head.format = formatLzc)
    (h : (readStartup uninit heap fs mem head).bind (readPrivate fs mem phead) = some r)
    (herr : r.err = 0) :
    ∃ bytes,
      decodeLzc (memcpyFrom fs mem (offsetOf fs head.start).toNat head.len.toNat) = some bytes ∧
      r.startupConfig = some (inflated bytes head.uncompressedLen.toNat heap) ∧
      r.startupLen = head.uncompressedLen.toNat ∧
      ∀ uninit' heap',
        (readStartup uninit' heap' fs mem head).bind (readPrivate fs mem phead) =
          some { r with
            startupConfig := some (inflated bytes head.uncompressedLen.toNat heap') } := by
  obtain ⟨err, hne, hrun⟩ := @readStartup_lzc fs mem uninit heap head hlzc
  rw [hrun] at h
  split at h
  · rename_i hlen
    cases hdecode : decodeLzc (memcpyFrom fs mem (offsetOf fs head.start).toNat head.len.toNat) with
    | none =>
      rw [hdecode] at h
      cases h
      exact absurd herr hne
    | some bytes =>
      rw [hdecode] at h
      obtain ⟨hstartup, hstartupLen, -⟩ := readPrivate_ok h herr []
      refine ⟨bytes, rfl, hstartup, hstartupLen, fun uninit' heap' => ?_⟩
      obtain ⟨err', -, hrun'⟩ := @readStartup_lzc fs mem uninit' heap' head hlzc
      rw [hrun', if_pos hlen, hdecode]
      exact (readPrivate_ok h herr _).2.2
  · cases h

/-- A read that succeeds gives what the image holds and nothing of the heap exactly when the
compressed data is complete, which is when the decompressor writes all of it. -/
theorem readConfig_deterministic_iff {r : ReadConfig}
    (h : fsNvramReadConfig uninit heap fs mem = some r) (herr : r.err = 0) :
    ((∀ uninit' heap', fsNvramReadConfig uninit' heap' fs mem = some r) ↔
        StreamComplete fs mem) ∧
      (AllWritten uninit heap fs mem r.startupLen ↔ StreamComplete fs mem) := by
  simp only [fsNvramReadConfig_eq] at h ⊢
  split at h
  · rename_i hmagic
    simp only [if_pos hmagic, AllWritten, StreamComplete]
    exact ⟨⟨fun _ hc => absurd hc hmagic, fun _ _ _ => h⟩,
      ⟨fun _ hc => absurd hc hmagic, fun _ hc => absurd hc hmagic⟩⟩
  · rename_i hmagic
    split at h
    · cases h
      cases herr
    · rename_i hroom
      simp only [if_neg hmagic, if_neg hroom, AllWritten, StreamComplete]
      rw [not_not] at hmagic
      simp only [hmagic, true_imp_iff]
      by_cases hlzc : (startupHeadAt fs mem).format = formatLzc
      · obtain ⟨bytes, hdecode, hstartup, hstartupLen, hother⟩ := readLzc_ok hlzc h herr
        simp only [hlzc, true_imp_iff, hdecode, Option.some.injEq, forall_eq']
        refine ⟨⟨fun hsame => ?_, fun hcomplete uninit' heap' => ?_⟩, ?_⟩
        · by_contra hshort
          have hdiff := hsame uninit fun j => heap j + 1
          rw [hother, Option.some_inj] at hdiff
          have hdata := congrArg ReadConfig.startupConfig hdiff
          rw [hstartup, Option.some_inj] at hdata
          exact inflated_ne (by omega) hdata
        · rw [hother uninit' heap', inflated_eq hcomplete, ← hstartup]
        · rw [lzcWritten_eq hdecode, hstartupLen, Option.some_inj]
          omega
      · simp only [hlzc, false_imp_iff, and_true, iff_true]
        intro uninit' heap'
        rw [readStartup_heap hlzc]
        exact h

/-- A header of compressed data with no code, for one byte of configuration. -/
def emptyStream : StartupHeader :=
  { startupHeaderFor (openFs 1024 0 0) 3 with format := formatLzc, uncompressedLen := 1 }

/-- The one byte is what the heap held. -/
theorem not_deterministic :
    (fsNvramOpen (startupImage emptyStream [0x1F, 0x9D, 0x90]) 1024 0 0).map Prod.fst =
        some (openFs 1024 0 0) ∧
      fsNvramReadConfig zeroTables (fun _ => 0) (openFs 1024 0 0)
          (startupImage emptyStream [0x1F, 0x9D, 0x90]) = some ⟨0, some [0], 1, none, 0⟩ ∧
        fsNvramReadConfig zeroTables (fun _ => 1) (openFs 1024 0 0)
          (startupImage emptyStream [0x1F, 0x9D, 0x90]) = some ⟨0, some [1], 1, none, 0⟩ := by
  exact ⟨rfl, rfl, rfl⟩

/-- One code, for one byte. -/
theorem readConfig_deterministic_byte :
    fsNvramReadConfig zeroTables (fun _ => 0) (openFs 1024 0 0)
        (startupImage { emptyStream with len := 5 } [0x1F, 0x9D, 0x90, 0x41, 0]) =
          some ⟨0, some [0x41], 1, none, 0⟩ ∧
      ((∀ uninit' heap', fsNvramReadConfig uninit' heap' (openFs 1024 0 0)
          (startupImage { emptyStream with len := 5 } [0x1F, 0x9D, 0x90, 0x41, 0]) =
            some ⟨0, some [0x41], 1, none, 0⟩) ↔
        StreamComplete (openFs 1024 0 0)
          (startupImage { emptyStream with len := 5 } [0x1F, 0x9D, 0x90, 0x41, 0])) := by
  have hread : fsNvramReadConfig zeroTables (fun _ => 0) (openFs 1024 0 0)
      (startupImage { emptyStream with len := 5 } [0x1F, 0x9D, 0x90, 0x41, 0]) =
        some ⟨0, some [0x41], 1, none, 0⟩ := by
    decide
  exact ⟨hread, (readConfig_deterministic_iff hread rfl).1⟩

end Dynamips.Nvram
