import Dynamips.Bootflash
import Mathlib.Data.Finset.Card
import Mathlib.Order.Interval.Finset.Nat

/-! What every access of a boot flash touches, and what its buffered writes and
block erases leave in the array. -/
set_option autoImplicit false

namespace Dynamips.Bootflash

open Runs

variable (m : FlashModel)

def chipOf (byte : Nat) : Nat := byte / m.mode.bytes % m.nrFlashCount

def cellOf (byte : Nat) : Nat := byte / m.mode.bytes / m.nrFlashCount

def chipCells : Nat := m.totalSize / (m.nrFlashCount * m.mode.bytes)

def InBlock (pos offset byte : Nat) : Prop :=
  chipOf m byte = pos ∧ cellOf m byte / m.blkSize = offset / m.blkSize

instance (pos offset byte : Nat) : Decidable (InBlock m pos offset byte) :=
  inferInstanceAs (Decidable (_ ∧ _))

/-- A byte of the addressed chip inside of the device, or a slot inside of the
write buffer. -/
def TouchOk (pos : Nat) : Touch → Prop
  | .array byte => byte < m.totalSize ∧ chipOf m byte = pos
  | .wbuf slot => slot < FLASH_BUF_SIZE

/-- The pairs of the write buffer are programmed, one for each announced cell,
and no other byte. -/
structure Programs (pos : Nat) (chip : FlashData) (array array' : Nat → Byte) : Prop where
  announced : ∀ k < chip.wbCount, chip.wbOffset + k ∈ chip.collected.map Prod.fst
  pairs : ∀ p ∈ chip.collected, ∀ b, chipOf m b = pos → cellOf m b = p.1 →
    array' b = dataByte m p.2 b
  others : ∀ b, (chipOf m b = pos → cellOf m b ∉ chip.collected.map Prod.fst) →
    array' b = array b

/-- The block of an offset becomes all ones, and no other byte is written. -/
structure Erases (pos offset : Nat) (array : Nat → Byte) (d' : Flashset) : Prop where
  touched : ∀ b, .array b ∈ d'.touched ↔ InBlock m pos offset b
  array : ∀ b, d'.array b = if InBlock m pos offset b then 0xff else array b

structure TurnOk (d : Flashset) (t : Turn) : Prop where
  touched : ∀ x ∈ (turn m d t).touched, TouchOk m (flashPos m t.1) x
  untouched : ∀ b, .array b ∉ (turn m d t).touched → (turn m d t).array b = d.array b
  programs : ∀ data, t.2 = some data → (d.flash (flashPos m t.1)).state = .writeBufConfirm →
    confirms data = true →
      Programs m (flashPos m t.1) (d.flash (flashPos m t.1)) d.array (turn m d t).array
  erases : ∀ data, t.2 = some data → (d.flash (flashPos m t.1)).state = .blkErase →
    confirms data = true →
      Erases m (flashPos m t.1) (t.1 >>> m.nrFlashBits >>> m.mode.offsetShift) d.array (turn m d t)

/-- The turns that the chip has a place for: a read or a programmed cell inside
of the chip, an announced range that is inside of it and had no cell given twice,
and an erase at the start of a block. -/
def TurnWithin (d : Flashset) (t : Turn) : Prop :=
  let chip := d.flash (flashPos m t.1)
  let offset := t.1 >>> m.nrFlashBits >>> m.mode.offsetShift
  match chip.state, t.2 with
  | .readArray, none => offset < chipCells m
  | .wbProg, some _ => offset < chipCells m
  | .writeBufConfirm, some data => confirms data = true →
    chip.wbOffset + chip.wbCount ≤ chipCells m ∧ (chip.collected.map Prod.fst).Nodup
  | .blkErase, some data => confirms data = true →
    offset % m.blkSize = 0 ∧ offset < chipCells m
  | _, _ => True

instance (d : Flashset) (t : Turn) : Decidable (TurnWithin m d t) := by
  unfold TurnWithin
  dsimp only
  split <;> infer_instance

def AccessOk (h : HostShifts) (d : Flashset) (a : Access) : Prop :=
  AllSteps (TurnOk m) (history (turn m) d (turns m h a))

def AccessWithin (h : HostShifts) (d : Flashset) (a : Access) : Prop :=
  AllSteps (TurnWithin m) (history (turn m) d (turns m h a))

instance (h : HostShifts) (d : Flashset) (a : Access) : Decidable (AccessWithin m h d a) :=
  inferInstanceAs (Decidable (AllSteps _ _))

structure Geometry : Prop where
  blkSize_pos : 0 < m.blkSize
  totalSize_eq : m.totalSize = chipCells m * m.nrFlashCount * m.mode.bytes
  blocks : chipCells m % m.blkSize = 0

variable {m} {d : Flashset} {pos offset b n : Nat} {data : Word} {f : Nat → Word}

theorem geometry (h : m ∈ flashModels) : Geometry m := by
  simp only [flashModels, List.mem_cons, List.not_mem_nil, or_false] at h
  rcases h with rfl | rfl | rfl | rfl | rfl | rfl | rfl <;> exact ⟨by decide, by decide, by decide⟩

theorem bytes_pos (mode : Mode) : 0 < mode.bytes := by cases mode <;> decide

theorem nrFlashCount_pos : 0 < m.nrFlashCount := by
  rw [FlashModel.nrFlashCount, Nat.one_shiftLeft]
  exact Nat.two_pow_pos _

theorem flashPos_eq (x : Nat) : flashPos m x = x % m.nrFlashCount := by
  rw [flashPos, FlashModel.nrFlashCount, Nat.one_shiftLeft, Nat.and_two_pow_sub_one_eq_mod]

theorem flashPos_lt (x : Nat) : flashPos m x < m.nrFlashCount := by
  rw [flashPos_eq]
  exact Nat.mod_lt _ nrFlashCount_pos

theorem div_mod_iff {x c p o : Nat} (hp : p < c) : x = o * c + p ↔ x % c = p ∧ x / c = o := by
  constructor
  · rintro rfl
    have hc : 0 < c := by omega
    constructor
    · rw [Nat.add_comm, Nat.add_mul_mod_self_right, Nat.mod_eq_of_lt hp]
    · rw [Nat.add_comm, Nat.add_mul_div_right _ _ hc, Nat.div_eq_of_lt hp, Nat.zero_add]
  · rintro ⟨rfl, rfl⟩
    rw [Nat.mul_comm]
    exact (Nat.div_add_mod x c).symm

theorem mem_cell (hpos : pos < m.nrFlashCount) :
    b ∈ cell m pos offset ↔ chipOf m b = pos ∧ cellOf m b = offset := by
  have hshift : offset <<< m.nrFlashBits = offset * m.nrFlashCount := by
    rw [FlashModel.nrFlashCount, Nat.one_shiftLeft, Nat.shiftLeft_eq]
  unfold cell chipOf cellOf
  rw [hshift, ← div_mod_iff hpos]
  cases hmode : m.mode with
  | byte => simp [Mode.bytes]
  | word =>
    simp only [Mode.bytes, List.mem_cons, List.not_mem_nil, or_false, Nat.shiftLeft_eq]
    omega

theorem foldl_update (g : Nat → Byte) (l : List Nat) (array : Nat → Byte) :
    l.foldl (fun a b => Function.update a b (g b)) array b = if b ∈ l then g b else array b := by
  induction l generalizing array with
  | nil => simp
  | cons x l ih =>
    rw [List.foldl_cons, ih]
    by_cases hl : b ∈ l
    · simp [hl]
    · by_cases hx : b = x
      · simp [hx]
      · simp [hl, hx]

theorem flashWrite_array (hpos : pos < m.nrFlashCount) :
    (flashWrite m d pos offset data).array b =
      if chipOf m b = pos ∧ cellOf m b = offset then dataByte m data b else d.array b := by
  have hfold := foldl_update (b := b) (dataByte m data) (cell m pos offset) d.array
  simp only [mem_cell hpos] at hfold
  exact hfold

theorem flashWriteRange_array (hpos : pos < m.nrFlashCount) :
    (flashWriteRange m d pos offset f n).array b =
      if chipOf m b = pos ∧ offset ≤ cellOf m b ∧ cellOf m b < offset + n then
        dataByte m (f (cellOf m b - offset)) b
      else d.array b := by
  induction n with
  | zero =>
    rw [if_neg (by omega)]
    rfl
  | succ n ih =>
    rw [flashWriteRange, flashWrite_array hpos, ih]
    by_cases hlast : chipOf m b = pos ∧ cellOf m b = offset + n
    · rw [if_pos hlast, if_pos (by omega), hlast.2, Nat.add_sub_cancel_left]
    · rw [if_neg hlast]
      by_cases hin : chipOf m b = pos ∧ offset ≤ cellOf m b ∧ cellOf m b < offset + n
      · rw [if_pos hin, if_pos (by omega)]
      · rw [if_neg hin, if_neg (by omega)]

theorem flashWriteRange_touched (hpos : pos < m.nrFlashCount) (hd : d.touched = []) (x : Touch) :
    x ∈ (flashWriteRange m d pos offset f n).touched ↔
      ∃ b, x = .array b ∧ chipOf m b = pos ∧ offset ≤ cellOf m b ∧ cellOf m b < offset + n := by
  induction n with
  | zero =>
    rw [flashWriteRange, hd]
    simp only [List.not_mem_nil, Nat.add_zero, false_iff, not_exists]
    omega
  | succ n ih =>
    rw [flashWriteRange, flashWrite, List.mem_append, ih, List.mem_map]
    constructor
    · rintro (⟨b, rfl, hchip, hlo, hhi⟩ | ⟨b, hb, rfl⟩)
      · exact ⟨b, rfl, hchip, hlo, by omega⟩
      · obtain ⟨hchip, hcell⟩ := (mem_cell hpos).mp hb
        exact ⟨b, rfl, hchip, by omega, by omega⟩
    · rintro ⟨b, rfl, hchip, hlo, hhi⟩
      by_cases hlast : cellOf m b = offset + n
      · exact .inr ⟨b, (mem_cell hpos).mpr ⟨hchip, hlast⟩, rfl⟩
      · exact .inl ⟨b, rfl, hchip, hlo, by omega⟩

theorem flashWriteRange_flash : (flashWriteRange m d pos offset f n).flash = d.flash := by
  induction n with
  | zero => rfl
  | succ n ih => exact ih

theorem lt_totalSize_iff (hg : Geometry m) : b < m.totalSize ↔ cellOf m b < chipCells m := by
  rw [cellOf, Nat.div_lt_iff_lt_mul nrFlashCount_pos, Nat.div_lt_iff_lt_mul (bytes_pos m.mode),
    ← hg.totalSize_eq]

theorem range_within_iff (hg : Geometry m) (hpos : pos < m.nrFlashCount) (hn : 0 < n) :
    (∀ b, chipOf m b = pos → offset ≤ cellOf m b → cellOf m b < offset + n → b < m.totalSize) ↔
      offset + n ≤ chipCells m := by
  constructor
  · intro h
    have hmem : ∃ b, b ∈ cell m pos (offset + n - 1) := by
      unfold cell
      cases m.mode with
      | byte => exact ⟨_, List.mem_cons_self⟩
      | word => exact ⟨_, List.mem_cons_self⟩
    obtain ⟨b, hb⟩ := hmem
    obtain ⟨hchip, hcell⟩ := (mem_cell hpos).mp hb
    have hlt := (lt_totalSize_iff hg).mp (h b hchip (by omega) (by omega))
    omega
  · intro h b _ _ hhi
    exact (lt_totalSize_iff hg).mpr (by omega)

theorem cell_touchOk_iff (hg : Geometry m) (hpos : pos < m.nrFlashCount) :
    (∀ x ∈ (cell m pos offset).map .array, TouchOk m pos x) ↔ offset < chipCells m := by
  have hone := @range_within_iff m pos offset 1 hg hpos Nat.one_pos
  rw [← Nat.succ_le_iff, Nat.succ_eq_add_one, ← hone, List.forall_mem_map]
  constructor
  · intro h b hchip hlo hhi
    exact (h b ((mem_cell hpos).mpr ⟨hchip, by omega⟩)).1
  · intro h b hb
    obtain ⟨hchip, hcell⟩ := (mem_cell hpos).mp hb
    exact ⟨h b hchip (by omega) (by omega), hchip⟩

theorem range_touchOk_iff (hg : Geometry m) (hpos : pos < m.nrFlashCount) (hn : 0 < n)
    (hd : d.touched = []) :
    (∀ x ∈ (flashWriteRange m d pos offset f n).touched, TouchOk m pos x) ↔
      offset + n ≤ chipCells m := by
  rw [← range_within_iff hg hpos hn]
  constructor
  · intro h b hchip hlo hhi
    exact (h (.array b) ((flashWriteRange_touched hpos hd _).mpr ⟨b, rfl, hchip, hlo, hhi⟩)).1
  · intro h x hx
    obtain ⟨b, rfl, hchip, hlo, hhi⟩ := (flashWriteRange_touched hpos hd x).mp hx
    exact ⟨h b hchip hlo hhi, hchip⟩

theorem range_untouched (hpos : pos < m.nrFlashCount) (hd : d.touched = [])
    (hb : .array b ∉ (flashWriteRange m d pos offset f n).touched) :
    (flashWriteRange m d pos offset f n).array b = d.array b := by
  rw [flashWriteRange_array hpos, if_neg]
  rintro ⟨hchip, hlo, hhi⟩
  exact hb ((flashWriteRange_touched hpos hd _).mpr ⟨b, rfl, hchip, hlo, hhi⟩)

theorem nodup_iff_all {l : List Nat} (hlen : l.length = n)
    (hrange : ∀ x ∈ l, offset ≤ x ∧ x < offset + n) :
    l.Nodup ↔ ∀ k < n, offset + k ∈ l := by
  have hsub : l.toFinset ⊆ Finset.Ico offset (offset + n) := by
    intro x hx
    obtain ⟨hlo, hhi⟩ := hrange x (List.mem_toFinset.mp hx)
    exact Finset.mem_Ico.mpr ⟨hlo, hhi⟩
  have hcard : (Finset.Ico offset (offset + n)).card = n := by
    rw [Nat.card_Ico, Nat.add_sub_cancel_left]
  constructor
  · intro hnodup k hk
    have hle : (Finset.Ico offset (offset + n)).card ≤ l.toFinset.card := by
      rw [hcard, List.toFinset_card_of_nodup hnodup, hlen]
    rw [← List.mem_toFinset, Finset.eq_of_subset_of_card_le hsub hle]
    exact Finset.mem_Ico.mpr ⟨by omega, by omega⟩
  · intro hall
    have heq : l.toFinset = Finset.Ico offset (offset + n) := by
      refine Finset.Subset.antisymm hsub fun x hx => ?_
      obtain ⟨hlo, hhi⟩ := Finset.mem_Ico.mp hx
      have hmem := hall (x - offset) (by omega)
      rw [Nat.add_sub_cancel' hlo] at hmem
      exact List.mem_toFinset.mpr hmem
    rw [← Multiset.coe_nodup, ← Multiset.toFinset_card_eq_card_iff_nodup]
    exact (congrArg Finset.card heq).trans (hcard.trans hlen.symm)

structure Collects (chip : FlashData) : Prop where
  count_pos : 0 < chip.wbCount
  count_le : chip.wbCount ≤ FLASH_BUF_SIZE
  filled : chip.collected.length + chip.wbRemain = chip.wbCount
  slots : ∀ p ∈ chip.collected, chip.wbOffset ≤ p.1 ∧ p.1 < chip.wbOffset + chip.wbCount
  buffer : (chip.collected.map Prod.fst).Nodup → ∀ p ∈ chip.collected,
    chip.wbuf (p.1 - chip.wbOffset) = p.2

def ChipOk (chip : FlashData) : Prop :=
  (chip.state = .writeBufData → Collects chip ∧ 0 < chip.wbRemain) ∧
    (chip.state = .writeBufConfirm → Collects chip ∧ chip.wbRemain = 0)

def ChipsOk (d : Flashset) : Prop := ∀ pos, ChipOk (d.flash pos)

variable {chip : FlashData}

theorem chipOk_of_state (h1 : chip.state ≠ .writeBufData) (h2 : chip.state ≠ .writeBufConfirm) :
    ChipOk chip := ⟨fun h => absurd h h1, fun h => absurd h h2⟩

theorem chipOk_flashCmd (h1 : chip.state ≠ .writeBufData) (h2 : chip.state ≠ .writeBufConfirm)
    (cmd : Word) : ChipOk (flashCmd chip offset cmd) := by
  unfold flashCmd
  dsimp only
  split_ifs
  · exact chipOk_of_state (by simp) (by simp)
  · exact chipOk_of_state (by simp) (by simp)
  · exact chipOk_of_state (by simp) (by simp)
  · exact chipOk_of_state (by simp) (by simp)
  · exact chipOk_of_state (by simp) (by simp)
  · exact chipOk_of_state (by simp) (by simp)
  · exact chipOk_of_state (by simp) (by simp)
  · exact chipOk_of_state h1 h2

theorem chipsOk_setChip (h : ChipsOk d) (hchip : ChipOk chip) : ChipsOk (d.setChip pos chip) := by
  intro p
  dsimp only [Flashset.setChip]
  by_cases hp : p = pos
  · rw [hp, Function.update_self]
    exact hchip
  · rw [Function.update_of_ne hp]
    exact h p

theorem ChipsOk.congr {d' : Flashset} (h : ChipsOk d) (hd : d'.flash = d.flash) : ChipsOk d' := by
  intro p
  rw [hd]
  exact h p

theorem chipOk_collect (h : Collects chip) (hremain : 0 < chip.wbRemain)
    (hslot : chip.wbOffset ≤ offset ∧ offset < chip.wbOffset + chip.wbCount) :
    ChipOk { chip with
      state := if chip.wbRemain - 1 = 0 then .writeBufConfirm else .writeBufData
      wbRemain := chip.wbRemain - 1
      wbuf := Function.update chip.wbuf (offset - chip.wbOffset) data
      collected := chip.collected ++ [(offset, data)] } := by
  have hcollects : Collects { chip with
      state := if chip.wbRemain - 1 = 0 then .writeBufConfirm else .writeBufData
      wbRemain := chip.wbRemain - 1
      wbuf := Function.update chip.wbuf (offset - chip.wbOffset) data
      collected := chip.collected ++ [(offset, data)] } := by
    have hfilled := h.filled
    refine ⟨h.count_pos, h.count_le, ?_, ?_, ?_⟩
    · simp only [List.length_append, List.length_singleton]
      omega
    · intro p hp
      rcases List.mem_append.mp hp with hp | hp
      · exact h.slots p hp
      · rw [List.mem_singleton.mp hp]
        exact hslot
    · intro hnodup p hp
      dsimp only at hnodup ⊢
      rw [List.map_append, List.nodup_append] at hnodup
      obtain ⟨hold, -, hdisj⟩ := hnodup
      rcases List.mem_append.mp hp with hp | hp
      · have hne := hdisj p.1 (List.mem_map_of_mem hp) offset (by simp)
        have hlo := (h.slots p hp).1
        rw [Function.update_of_ne (by omega)]
        exact h.buffer hold p hp
      · rw [List.mem_singleton.mp hp, Function.update_self]
  constructor
  · intro hstate
    refine ⟨hcollects, Nat.pos_of_ne_zero fun hzero => ?_⟩
    rw [if_pos hzero] at hstate
    cases hstate
  · intro hstate
    refine ⟨hcollects, ?_⟩
    by_contra hne
    rw [if_neg hne] at hstate
    cases hstate

theorem chipsOk_turn (h : ChipsOk d) (t : Turn) : ChipsOk (turn m d t) := by
  obtain ⟨x, op⟩ := t
  have h0 : ChipsOk { d with touched := [] } := h
  have hpos := h (flashPos m x)
  have hcmd : ∀ data offset, (d.flash (flashPos m x)).state ≠ .writeBufData →
      (d.flash (flashPos m x)).state ≠ .writeBufConfirm →
        ChipsOk ({ d with touched := [] }.setChip (flashPos m x)
          (flashCmd (d.flash (flashPos m x)) offset data)) :=
    fun data offset h1 h2 => chipsOk_setChip h0 (chipOk_flashCmd h1 h2 data)
  unfold turn flashAccess
  dsimp only
  cases hstate : (d.flash (flashPos m x)).state with
  | readArray =>
    cases op with
    | none => exact h0.congr rfl
    | some data => exact hcmd data _ (by simp [hstate]) (by simp [hstate])
  | readId =>
    cases op with
    | none => exact h0
    | some data => exact hcmd data _ (by simp [hstate]) (by simp [hstate])
  | readQuery => exact h0
  | readStatus =>
    cases op with
    | none => exact chipsOk_setChip h0 (chipOk_of_state (by simp) (by simp))
    | some data => exact chipsOk_setChip h0 (chipOk_of_state (by simp) (by simp))
  | writeBufCnt =>
    cases op with
    | none => exact h0
    | some data =>
      refine chipsOk_setChip h0 ⟨fun _ => ⟨⟨?_, ?_, ?_, ?_, ?_⟩, ?_⟩, fun hs => ?_⟩
      · exact Nat.succ_pos _
      · have hle : (data &&& 0x1f).toNat ≤ 31 := by
          rw [BitVec.toNat_and]
          exact Nat.and_le_right
        exact Nat.succ_le_succ hle
      · exact Nat.zero_add _
      · simp
      · simp
      · exact Nat.succ_pos _
      · cases hs
  | writeBufData =>
    cases op with
    | none => exact h0
    | some data =>
      obtain ⟨hcollects, hremain⟩ := hpos.1 hstate
      dsimp only
      by_cases hslot : (d.flash (flashPos m x)).wbOffset ≤ x >>> m.nrFlashBits >>> m.mode.offsetShift ∧
          x >>> m.nrFlashBits >>> m.mode.offsetShift <
            (d.flash (flashPos m x)).wbOffset + (d.flash (flashPos m x)).wbCount
      · rw [if_pos hslot]
        exact chipsOk_setChip (h0.congr rfl) (chipOk_collect hcollects hremain hslot)
      · rw [if_neg hslot]
        exact h0
  | writeBufConfirm =>
    cases op with
    | none => exact h0
    | some data =>
      refine chipsOk_setChip ?_ (chipOk_of_state (by simp) (by simp))
      split_ifs
      · exact h0.congr flashWriteRange_flash
      · exact h0
  | wbProg =>
    cases op with
    | none => exact h0
    | some data =>
      exact chipsOk_setChip (h0.congr rfl) (chipOk_of_state (by simp) (by simp))
  | wbProgDone =>
    cases op with
    | none => exact h0
    | some data => exact hcmd data _ (by simp [hstate]) (by simp [hstate])
  | blkErase =>
    cases op with
    | none => exact h0
    | some data =>
      dsimp only
      split_ifs
      · exact chipsOk_setChip (h0.congr flashWriteRange_flash) (chipOk_of_state (by simp) (by simp))
      · exact h0
  | blkEraseDone =>
    cases op with
    | none => exact h0
    | some data => exact hcmd data _ (by simp [hstate]) (by simp [hstate])
  | config => exact h0

theorem turnOk_of_quiet {t : Turn}
    (htouched : ∀ x ∈ (turn m d t).touched, ∃ slot, x = .wbuf slot ∧ slot < FLASH_BUF_SIZE)
    (harray : (turn m d t).array = d.array)
    (hstate : ∀ data, t.2 = some data → confirms data = true →
      (d.flash (flashPos m t.1)).state ≠ .writeBufConfirm ∧
        (d.flash (flashPos m t.1)).state ≠ .blkErase) : TurnOk m d t where
  touched x hx := by
    obtain ⟨slot, rfl, hslot⟩ := htouched x hx
    exact hslot
  untouched b _ := by rw [harray]
  programs data ht hs hc := absurd hs (hstate data ht hc).1
  erases data ht hs hc := absurd hs (hstate data ht hc).2

section
variable {x : Nat}

theorem turnOk_read (hg : Geometry m) (hstate : (d.flash (flashPos m x)).state = .readArray) :
    TurnOk m d (x, none) ↔ x >>> m.nrFlashBits >>> m.mode.offsetShift < chipCells m := by
  have hturn : turn m d (x, none) = (flashRead m { d with touched := [] } (flashPos m x)
      (x >>> m.nrFlashBits >>> m.mode.offsetShift)).1 := by
    unfold turn flashAccess
    simp only [hstate]
  rw [← cell_touchOk_iff hg (flashPos_lt x)]
  constructor
  · intro h
    have htouched := h.touched
    rw [hturn] at htouched
    exact htouched
  · intro h
    refine ⟨?_, fun b _ => ?_, fun _ hop => absurd hop (by simp), fun _ hop => absurd hop (by simp)⟩
    · rw [hturn]
      exact h
    · rw [hturn]
      rfl

theorem turnOk_prog (hg : Geometry m) (hstate : (d.flash (flashPos m x)).state = .wbProg) :
    TurnOk m d (x, some data) ↔ x >>> m.nrFlashBits >>> m.mode.offsetShift < chipCells m := by
  have hturn : turn m d (x, some data) = (flashWrite m { d with touched := [] } (flashPos m x)
      (x >>> m.nrFlashBits >>> m.mode.offsetShift) data).setChip (flashPos m x)
        { d.flash (flashPos m x) with state := .wbProgDone } := by
    unfold turn flashAccess
    simp only [hstate]
  rw [← cell_touchOk_iff hg (flashPos_lt x)]
  constructor
  · intro h
    have htouched := h.touched
    rw [hturn] at htouched
    exact htouched
  · intro h
    refine ⟨?_, fun b hb => ?_, fun _ _ hs => absurd hs (by simp [hstate]),
      fun _ _ hs => absurd hs (by simp [hstate])⟩
    · rw [hturn]
      exact h
    · rw [hturn] at hb ⊢
      refine (flashWrite_array (flashPos_lt x)).trans (if_neg fun hin => hb ?_)
      exact List.mem_map_of_mem ((mem_cell (flashPos_lt x)).mpr hin)

theorem turnOk_confirm (hg : Geometry m) (hchips : ChipsOk d)
    (hstate : (d.flash (flashPos m x)).state = .writeBufConfirm) (hc : confirms data = true) :
    TurnOk m d (x, some data) ↔
      (d.flash (flashPos m x)).wbOffset + (d.flash (flashPos m x)).wbCount ≤ chipCells m ∧
        ((d.flash (flashPos m x)).collected.map Prod.fst).Nodup := by
  have hturn : turn m d (x, some data) = (flashWriteRange m { d with touched := [] }
      (flashPos m x) (d.flash (flashPos m x)).wbOffset (d.flash (flashPos m x)).wbuf
        (d.flash (flashPos m x)).wbCount).setChip (flashPos m x)
          { d.flash (flashPos m x) with state := .readArray } := by
    unfold turn flashAccess
    simp only [hstate, hc, if_true]
  obtain ⟨hcollects, hremain⟩ := (hchips (flashPos m x)).2 hstate
  have hpos := flashPos_lt (m := m) x
  have hlen : ((d.flash (flashPos m x)).collected.map Prod.fst).length =
      (d.flash (flashPos m x)).wbCount := by
    have hfilled := hcollects.filled
    rw [List.length_map]
    omega
  have hnodup := nodup_iff_all hlen (List.forall_mem_map.mpr hcollects.slots)
  rw [← @range_touchOk_iff m { d with touched := [] } (flashPos m x) _ _
    (d.flash (flashPos m x)).wbuf hg hpos hcollects.count_pos rfl]
  constructor
  · intro h
    have htouched := h.touched
    rw [hturn] at htouched
    exact ⟨htouched, hnodup.mpr (h.programs data rfl hstate hc).announced⟩
  · rintro ⟨htouched, hnd⟩
    have hall := hnodup.mp hnd
    refine ⟨?_, fun b hb => ?_, fun _ _ _ _ => ⟨hall, ?_, ?_⟩,
      fun _ _ hs => absurd hs (by simp [hstate])⟩
    · rw [hturn]
      exact htouched
    · rw [hturn] at hb ⊢
      exact range_untouched hpos rfl hb
    · intro p hp b hchip hcell
      obtain ⟨hlo, hhi⟩ := hcollects.slots p hp
      rw [hturn]
      refine (flashWriteRange_array hpos).trans ?_
      rw [if_pos ⟨hchip, by omega, by omega⟩, hcell, hcollects.buffer hnd p hp]
    · intro b hb
      rw [hturn]
      refine (flashWriteRange_array hpos).trans (if_neg ?_)
      rintro ⟨hchip, hlo, hhi⟩
      have hmem := hall (cellOf m b - (d.flash (flashPos m x)).wbOffset) (by omega)
      rw [Nat.add_sub_cancel' hlo] at hmem
      exact hb hchip hmem

theorem block_iff (hg : Geometry m) (h : offset % m.blkSize = 0) :
    InBlock m pos offset b ↔
      chipOf m b = pos ∧ offset ≤ cellOf m b ∧ cellOf m b < offset + m.blkSize := by
  have hdiv := Nat.div_mul_cancel (Nat.dvd_of_mod_eq_zero h)
  have hpos := hg.blkSize_pos
  unfold InBlock
  rw [Nat.div_eq_iff hpos, hdiv]
  omega

theorem dataByte_ones (b : Nat) : dataByte m 0xffff b = 0xff := by
  unfold dataByte
  cases m.mode with
  | byte => rfl
  | word =>
    dsimp only
    split_ifs
    · rfl
    · rfl

theorem turnOk_erase (hg : Geometry m) (hstate : (d.flash (flashPos m x)).state = .blkErase)
    (hc : confirms data = true) :
    TurnOk m d (x, some data) ↔
      x >>> m.nrFlashBits >>> m.mode.offsetShift % m.blkSize = 0 ∧
        x >>> m.nrFlashBits >>> m.mode.offsetShift < chipCells m := by
  have hturn : turn m d (x, some data) = (flashWriteRange m { d with touched := [] }
      (flashPos m x) (x >>> m.nrFlashBits >>> m.mode.offsetShift) (fun _ => 0xffff)
        m.blkSize).setChip (flashPos m x) { d.flash (flashPos m x) with state := .blkEraseDone } := by
    unfold turn flashAccess
    simp only [hstate, hc, if_true]
  have hpos := flashPos_lt (m := m) x
  have hrange := @range_touchOk_iff m { d with touched := [] } (flashPos m x)
    (x >>> m.nrFlashBits >>> m.mode.offsetShift) _ (fun _ => 0xffff) hg hpos hg.blkSize_pos rfl
  have htouch := @flashWriteRange_touched m { d with touched := [] } (flashPos m x)
    (x >>> m.nrFlashBits >>> m.mode.offsetShift) m.blkSize (fun _ => 0xffff) hpos rfl
  have harray := fun b => @flashWriteRange_array m { d with touched := [] } (flashPos m x)
    (x >>> m.nrFlashBits >>> m.mode.offsetShift) b m.blkSize (fun _ => 0xffff) hpos
  generalize ho : x >>> m.nrFlashBits >>> m.mode.offsetShift = offset at *
  constructor
  · intro h
    have htouched := h.touched
    have hblock := (h.erases data rfl hstate hc).touched
    rw [hturn] at htouched hblock
    have hwithin := hrange.mp htouched
    have hblk := hg.blkSize_pos
    -- the first cell of the block is touched, so that the erase starts there
    obtain ⟨b, hb⟩ : ∃ b, b ∈ cell m (flashPos m x) (offset / m.blkSize * m.blkSize) := by
      unfold cell
      cases m.mode with
      | byte => exact ⟨_, List.mem_cons_self⟩
      | word => exact ⟨_, List.mem_cons_self⟩
    obtain ⟨hchip, hcell⟩ := (mem_cell hpos).mp hb
    have hin : InBlock m (flashPos m x) offset b := ⟨hchip, by rw [hcell, Nat.mul_div_cancel _ hblk]⟩
    rw [← ho] at hin
    obtain ⟨b', heq, -, hlo, -⟩ := (htouch _).mp ((hblock b).mpr hin)
    cases heq
    have hdiv := Nat.div_add_mod offset m.blkSize
    rw [Nat.mul_comm] at hdiv
    exact ⟨by omega, by omega⟩
  · rintro ⟨halign, hlt⟩
    have hwithin : offset + m.blkSize ≤ chipCells m := by
      obtain ⟨q, rfl⟩ := Nat.dvd_of_mod_eq_zero halign
      obtain ⟨k, hk⟩ := Nat.dvd_of_mod_eq_zero hg.blocks
      rw [hk] at hlt ⊢
      exact Nat.mul_le_mul_left _ (Nat.lt_of_mul_lt_mul_left hlt)
    refine ⟨?_, fun b hb => ?_, fun _ _ hs => absurd hs (by simp [hstate]), fun _ _ _ _ => ⟨?_, ?_⟩⟩
    · rw [hturn]
      exact hrange.mpr hwithin
    · rw [hturn] at hb ⊢
      exact range_untouched hpos rfl hb
    · intro b
      rw [hturn, ho, block_iff hg halign]
      refine (htouch _).trans ⟨?_, fun h => ⟨b, rfl, h⟩⟩
      rintro ⟨b', heq, h⟩
      cases heq
      exact h
    · intro b
      rw [hturn, ho]
      refine (harray b).trans ?_
      simp only [dataByte_ones, block_iff hg halign]

end

theorem turnOk_iff_of_quiet {t : Turn} {d' : Flashset} (hturn : turn m d t = d')
    (htouched : d'.touched = []) (harray : d'.array = d.array)
    (hstate : ∀ data, t.2 = some data → confirms data = true →
      (d.flash (flashPos m t.1)).state ≠ .writeBufConfirm ∧
        (d.flash (flashPos m t.1)).state ≠ .blkErase) (hwithin : TurnWithin m d t) :
    TurnOk m d t ↔ TurnWithin m d t := by
  refine iff_of_true (turnOk_of_quiet ?_ ?_ hstate) hwithin
  · rw [hturn, htouched]
    simp
  · rw [hturn, harray]

/-- A turn is right exactly when the chip has a place for it. -/
theorem turnOk_iff (hg : Geometry m) (hchips : ChipsOk d) (t : Turn) :
    TurnOk m d t ↔ TurnWithin m d t := by
  obtain ⟨x, op⟩ := t
  have hturn : turn m d (x, op) =
      (flashAccess m d (flashPos m x) (x >>> m.nrFlashBits) op).1 := rfl
  unfold flashAccess at hturn
  cases hstate : (d.flash (flashPos m x)).state with
  | readArray =>
    cases op with
    | none =>
      rw [turnOk_read hg hstate]
      simp only [TurnWithin, hstate]
    | some data =>
      simp only [hstate] at hturn
      exact turnOk_iff_of_quiet hturn rfl rfl (by simp [hstate])
        (by simp only [TurnWithin, hstate])
  | readId | readQuery | readStatus | writeBufCnt | wbProgDone | blkEraseDone | config =>
    cases op with
    | none =>
      simp only [hstate] at hturn
      exact turnOk_iff_of_quiet hturn rfl rfl (by simp [hstate])
        (by simp only [TurnWithin, hstate])
    | some data =>
      simp only [hstate] at hturn
      exact turnOk_iff_of_quiet hturn rfl rfl (by simp [hstate])
        (by simp only [TurnWithin, hstate])
  | writeBufData =>
    cases op with
    | none =>
      simp only [hstate] at hturn
      exact turnOk_iff_of_quiet hturn rfl rfl (by simp [hstate])
        (by simp only [TurnWithin, hstate])
    | some data =>
      obtain ⟨hcollects, -⟩ := (hchips (flashPos m x)).1 hstate
      have hle := hcollects.count_le
      simp only [hstate] at hturn
      by_cases hslot : (d.flash (flashPos m x)).wbOffset ≤
          x >>> m.nrFlashBits >>> m.mode.offsetShift ∧
            x >>> m.nrFlashBits >>> m.mode.offsetShift <
              (d.flash (flashPos m x)).wbOffset + (d.flash (flashPos m x)).wbCount
      · rw [if_pos hslot] at hturn
        refine iff_of_true (turnOk_of_quiet ?_ ?_ (by simp [hstate]))
          (by simp only [TurnWithin, hstate])
        · intro y hy
          rw [hturn] at hy
          exact ⟨_, List.mem_singleton.mp hy, by omega⟩
        · rw [hturn]
          rfl
      · rw [if_neg hslot] at hturn
        exact turnOk_iff_of_quiet hturn rfl rfl (by simp [hstate])
          (by simp only [TurnWithin, hstate])
  | writeBufConfirm =>
    cases op with
    | none =>
      simp only [hstate] at hturn
      exact turnOk_iff_of_quiet hturn rfl rfl (by simp [hstate])
        (by simp only [TurnWithin, hstate])
    | some data =>
      by_cases hc : confirms data = true
      · rw [turnOk_confirm hg hchips hstate hc]
        simp only [TurnWithin, hstate, hc, true_implies]
      · simp only [hstate, if_neg hc] at hturn
        refine turnOk_iff_of_quiet hturn rfl rfl ?_ ?_
        · rintro data' heq hc'
          cases heq
          exact absurd hc' hc
        · simp only [TurnWithin, hstate]
          exact fun hc' => absurd hc' hc
  | wbProg =>
    cases op with
    | none =>
      simp only [hstate] at hturn
      exact turnOk_iff_of_quiet hturn rfl rfl (by simp [hstate])
        (by simp only [TurnWithin, hstate])
    | some data =>
      rw [turnOk_prog hg hstate]
      simp only [TurnWithin, hstate]
  | blkErase =>
    cases op with
    | none =>
      simp only [hstate] at hturn
      exact turnOk_iff_of_quiet hturn rfl rfl (by simp [hstate])
        (by simp only [TurnWithin, hstate])
    | some data =>
      by_cases hc : confirms data = true
      · rw [turnOk_erase hg hstate hc]
        simp only [TurnWithin, hstate, hc, true_implies]
      · simp only [hstate, if_neg hc] at hturn
        refine turnOk_iff_of_quiet hturn rfl rfl ?_ ?_
        · rintro data' heq hc'
          cases heq
          exact absurd hc' hc
        · simp only [TurnWithin, hstate]
          exact fun hc' => absurd hc' hc

theorem chipsOk_turns (h : ChipsOk d) (ts : List Turn) : ChipsOk (ts.foldl (turn m) d) := by
  induction ts generalizing d with
  | nil => exact h
  | cons t ts ih => exact ih (chipsOk_turn h t)

theorem chipsOk_init (array : Nat → Byte) : ChipsOk (flashsetInit array) :=
  fun _ => chipOk_of_state (by simp [flashsetInit]) (by simp [flashsetInit])

variable {h : HostShifts}

theorem accessOk_iff (hg : Geometry m) (hchips : ChipsOk d) (a : Access) :
    AccessOk m h d a ↔ AccessWithin m h d a :=
  allSteps_history_iff (P := ChipsOk) (fun _ t hc _ => chipsOk_turn hc t)
    (fun _ t hc => turnOk_iff hg hc t) hchips (turns m h a)

/-- In every run of accesses of the guest, each turn touches and leaves what it is
to exactly when the chips had a place for every turn. -/
theorem bootflash_ok_iff (hm : m ∈ flashModels) (array : Nat → Byte) (accesses : List Access) :
    AllSteps (AccessOk m h)
        (history (fun d a => (devBootflashAccess m h d a).1) (flashsetInit array) accesses) ↔
      AllSteps (AccessWithin m h)
        (history (fun d a => (devBootflashAccess m h d a).1) (flashsetInit array) accesses) := by
  refine allSteps_history_iff (P := ChipsOk) (fun d a hc _ => ?_)
    (fun d a hc => accessOk_iff (geometry hm) hc a) (chipsOk_init array) accesses
  rw [devBootflashAccess_turns]
  exact chipsOk_turns hc _

def maskedShifts : HostShifts where
  shl x n := x <<< (n.toNat % 64)
  shr x n := x >>> (n.toNat % 64)

def bootflash7200 : FlashModel :=
  ⟨"c7200-bootflash-4mb", 4 * 1048576, .byte, 2, 0x10000, 0x89, 0xa2⟩

def bufferedWrite : List Access :=
  [⟨1, .byte, some 0xe8⟩, ⟨1, .byte, some 1⟩, ⟨5, .byte, some 0x5a⟩, ⟨1, .byte, some 0xa5⟩,
    ⟨1, .byte, some 0xd0⟩]

theorem bootflash_ok_bufferedWrite :
    AllSteps (AccessOk bootflash7200 maskedShifts)
      (history (fun d a => (devBootflashAccess bootflash7200 maskedShifts d a).1)
        (flashsetInit fun _ => 0xff) bufferedWrite) := by
  refine (bootflash_ok_iff (by decide) _ _).mpr ?_
  decide

def unalignedErase : List Access := [⟨4, .byte, some 0x20⟩, ⟨4, .byte, some 0xd0⟩]

theorem not_bootflash_ok : ¬ ∀ accesses : List Access,
    AllSteps (AccessOk bootflash7200 maskedShifts)
      (history (fun d a => (devBootflashAccess bootflash7200 maskedShifts d a).1)
        (flashsetInit fun _ => 0xff) accesses) := by
  intro h
  have hg : Geometry bootflash7200 := geometry (by decide)
  have haccess := h unalignedErase ⟨_, _⟩ (List.mem_cons_of_mem _ List.mem_cons_self)
  have hchips : ChipsOk (devBootflashAccess bootflash7200 maskedShifts (flashsetInit fun _ => 0xff)
      ⟨4, .byte, some 0x20⟩).1 := by
    rw [devBootflashAccess_turns]
    exact chipsOk_turns (chipsOk_init _) _
  have hwithin := (accessOk_iff hg hchips _).mp haccess
  revert hwithin
  decide

end Dynamips.Bootflash
