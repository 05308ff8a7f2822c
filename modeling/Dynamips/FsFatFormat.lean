import Dynamips.FsFat

/-! The volumes that the formatter lays out on the PCMCIA disks. -/
set_option autoImplicit false

namespace Dynamips.FsFat

variable {p : Sector} {i a : Nat} {bytes : List Byte}

@[simp] theorem length_volumeName (name : List Byte) : (volumeName name).length = 11 := by
  simp only [volumeName, List.length_take, List.length_append, List.length_replicate]
  omega

theorem toNat_bytes16 (v : BitVec 16) :
    (v.setWidth 8).toNat + 256 * ((v >>> 8).setWidth 8).toNat = v.toNat := by
  have hv := v.isLt
  simp only [BitVec.toNat_setWidth, BitVec.toNat_ushiftRight, Nat.shiftRight_eq_div_pow]
  omega

theorem boot16_fields (fat16 : Fat16Data) (volumeId : BitVec 32) :
    u16 (boot16 fat16 volumeId) 0xB = 512 ∧
      boot16 fat16 volumeId 0xD = fat16.sects_per_cluster ∧
      u16 (boot16 fat16 volumeId) 0xE = fat16.reserved_sectors.toNat ∧
      boot16 fat16 volumeId 0x10 = fat16.nr_fats ∧
      u16 (boot16 fat16 volumeId) 0x11 = fat16.root_entry_count.toNat ∧
      u16 (boot16 fat16 volumeId) 0x13 = 0 ∧
      u16 (boot16 fat16 volumeId) 0x16 = fat16.fat_sectors.toNat ∧
      u32 (boot16 fat16 volumeId) 0x20 = fat16.volume_sectors.toNat := by
  have hreserved := toNat_bytes16 fat16.reserved_sectors
  have hroot := toNat_bytes16 fat16.root_entry_count
  have hfat := toNat_bytes16 fat16.fat_sectors
  have hvolume := fat16.volume_sectors.isLt
  refine ⟨?_, ?_, ?_, ?_, ?_, ?_, ?_, ?_⟩ <;>
    simp [u16, u32, boot16, set_u16, set_u32, put, Nat.shiftRight_eq_div_pow] <;> omega

/-- The classes of the table: the sectors of a volume and of its clusters. -/
def SizeClass (n c : Nat) : Prop :=
  (n ≤ 32680 ∧ c = 2) ∨ (32680 < n ∧ n ≤ 262144 ∧ c = 4) ∨ (262144 < n ∧ n ≤ 524288 ∧ c = 8) ∨
    (524288 < n ∧ n ≤ 1048576 ∧ c = 16) ∨ (1048576 < n ∧ n ≤ 2097152 ∧ c = 32) ∨
      (2097152 < n ∧ n ≤ 4194304 ∧ c = 64) ∨ (4194304 < n ∧ n ≤ 8388608 ∧ c = 128)

variable {n lba volumeId : BitVec 32} {sectsPerTrack heads : BitVec 16} {name : Option (List Byte)}
  {fat16 : Fat16Data}

theorem row_class {row : BitVec 32 × Byte}
    (h : (cluster_size_table16.find? fun row => decide (n ≤ row.1)) = some row) :
    SizeClass n.toNat row.2.toNat := by
  simp only [cluster_size_table16, List.find?_cons, BitVec.le_def, List.find?_nil] at h
  repeat' split at h
  all_goals simp at *
  all_goals
    subst h
    simp [SizeClass]
    omega

theorem row_none (h : (cluster_size_table16.find? fun row => decide (n ≤ row.1)) = none) :
    8388608 < n.toNat := by
  have hlast := List.find?_eq_none.mp h (8388608, 128) (by decide)
  simpa [BitVec.le_def] using hlast

/-- The layout of a volume of `n` sectors. -/
structure Layout (n : Nat) (fat16 : Fat16Data) : Prop where
  volume : fat16.volume_sectors.toNat = n
  reserved : fat16.reserved_sectors = 1
  root : fat16.root_entry_count = 512
  fats : fat16.nr_fats = 2
  size : SizeClass n fat16.sects_per_cluster.toNat
  fat : fat16.fat_sectors.toNat = (n / fat16.sects_per_cluster.toNat + 1) / 256 + 1

theorem SizeClass.pos {n c : Nat} (h : SizeClass n c) : 0 < c ∧ n / c ≤ 65536 := by
  simp only [SizeClass] at h
  obtain ⟨h, rfl⟩ | ⟨h, h', rfl⟩ | ⟨h, h', rfl⟩ | ⟨h, h', rfl⟩ | ⟨h, h', rfl⟩ | ⟨h, h', rfl⟩ |
    ⟨h, h', rfl⟩ := h <;> omega

theorem layout_of_prepare (h : prepareFat16 n sectsPerTrack heads name = some fat16) :
    Layout n.toNat fat16 := by
  rw [prepareFat16, Option.map_eq_some_iff] at h
  obtain ⟨row, hrow, rfl⟩ := h
  have hclass := row_class hrow
  have hlt := hclass.pos.2
  refine ⟨rfl, rfl, rfl, rfl, hclass, ?_⟩
  have hone : (1 : BitVec 32).toNat = 1 := rfl
  have hwidth : (256 : BitVec 32).toNat = 256 := rfl
  have hspc := row.2.isLt
  simp only [BitVec.toNat_setWidth, BitVec.toNat_add, BitVec.toNat_udiv, hone, hwidth]
  rw [Nat.mod_eq_of_lt (show row.2.toNat < 2 ^ 32 by omega)]
  generalize n.toNat / row.2.toNat = clusters at hlt ⊢
  have hmod : (clusters + 1) % 2 ^ 32 = clusters + 1 := Nat.mod_eq_of_lt (by omega)
  rw [hmod]
  omega

theorem Layout.counts (layout : Layout n.toNat fat16) : fat16.reserved_sectors.toNat = 1 ∧
    fat16.nr_fats.toNat = 2 ∧ fat16.root_entry_count.toNat = 512 := by
  rw [layout.reserved, layout.fats, layout.root]
  exact ⟨rfl, rfl, rfl⟩

theorem Layout.reserved_setWidth (layout : Layout n.toNat fat16) :
    fat16.reserved_sectors.setWidth 32 = BitVec.ofNat 32 1 := by
  rw [layout.reserved]
  rfl

def metaSectors (fat16 : Fat16Data) : Nat := 1 + 2 * fat16.fat_sectors.toNat + 32

theorem fatWrites_lba (layout : Layout n.toNat fat16) (ifat : Nat) :
    (fatWrites fat16 lba ifat).map Prod.fst = (List.range fat16.fat_sectors.toNat).map fun i =>
      lba + BitVec.ofNat 32 (1 + (ifat * fat16.fat_sectors.toNat + i)) := by
  obtain ⟨k, hk⟩ : ∃ k, fat16.fat_sectors.toNat = k + 1 := ⟨_, layout.fat⟩
  simp only [fatWrites, layout.reserved_setWidth, hk, Nat.add_sub_cancel, List.map_cons, List.map_map,
    List.range_succ_eq_map, List.range'_eq_map_range]
  refine congrArg₂ List.cons ?_ (List.map_congr_left fun i _ => ?_)
  · rw [BitVec.add_assoc, ← BitVec.ofNat_add]
    rfl
  · simp only [Function.comp_apply]
    rw [BitVec.add_comm, BitVec.add_assoc, BitVec.add_assoc, ← BitVec.ofNat_add, ← BitVec.ofNat_add]
    congr 2
    omega

theorem rootdirWrites_lba (layout : Layout n.toNat fat16) :
    (rootdirWrites fat16 lba).map Prod.fst = (List.range 32).map fun i =>
      lba + BitVec.ofNat 32 (1 + (2 * fat16.fat_sectors.toNat + i)) := by
  have hroot : rootdirSectors fat16 = 32 := by
    rw [rootdirSectors, layout.root]
    rfl
  simp only [rootdirWrites, layout.reserved_setWidth, layout.counts.2.1, hroot, List.map_map]
  refine List.map_congr_left fun i _ => ?_
  simp only [Function.comp_apply]
  rw [BitVec.add_assoc, BitVec.add_assoc, ← BitVec.ofNat_add, ← BitVec.ofNat_add]

theorem formatWrites_lba (layout : Layout n.toNat fat16) :
    (formatWrites fat16 lba volumeId).map Prod.fst =
      lba :: (List.range (2 * fat16.fat_sectors.toNat + 32)).map fun i =>
        lba + BitVec.ofNat 32 (1 + i) := by
  have htwo : List.range fat16.nr_fats.toNat = [0, 1] := by
    rw [layout.counts.2.1]
    rfl
  have hsplit : 2 * fat16.fat_sectors.toNat + 32 =
      fat16.fat_sectors.toNat + (fat16.fat_sectors.toNat + 32) := by omega
  simp only [formatWrites, htwo, List.flatMap_cons, List.flatMap_nil, List.append_nil,
    List.map_cons, List.map_append, fatWrites_lba layout, rootdirWrites_lba layout]
  rw [hsplit, List.range_add, List.map_append, List.range_add, List.map_append, List.map_append,
    List.append_assoc]
  simp only [List.map_map, Nat.zero_mul, Nat.zero_add, Nat.one_mul]
  congr 3
  refine List.map_congr_left fun i _ => ?_
  simp only [Function.comp_apply]
  congr 2
  omega

theorem writeSectors_subset (ok : Nat → Bool) (k : Nat) (writes : List (BitVec 32 × Sector)) :
    (writeSectors ok k writes).1 ⊆ writes := by
  induction writes generalizing k with
  | nil => exact List.Subset.refl _
  | cons w writes ih =>
    rw [writeSectors]
    split
    · exact List.cons_subset_cons w (ih _)
    · exact List.cons_subset_cons w (List.nil_subset _)

theorem writeSectors_all {ok : Nat → Bool} {k : Nat} {writes : List (BitVec 32 × Sector)}
    (h : (writeSectors ok k writes).2 = true) : (writeSectors ok k writes).1 = writes := by
  induction writes generalizing k with
  | nil => rfl
  | cons w writes ih =>
    rw [writeSectors] at h ⊢
    split at h
    · rename_i hok
      rw [if_pos hok, ih h]
    · cases h

theorem writeSectors_true (k : Nat) (writes : List (BitVec 32 × Sector)) :
    writeSectors (fun _ => true) k writes = (writes, true) := by
  induction writes generalizing k with
  | nil => rfl
  | cons w writes ih => simp [writeSectors, ih]

theorem mem_formatWrites (layout : Layout n.toNat fat16) {w : BitVec 32 × Sector}
    (h : w ∈ formatWrites fat16 lba volumeId) :
    w = (lba, boot16 fat16 volumeId) ∨
      ∃ i < 2 * fat16.fat_sectors.toNat + 32, w.1 = lba + BitVec.ofNat 32 (1 + i) := by
  have hmap := List.tail_eq_of_cons_eq (@formatWrites_lba n lba volumeId _ layout)
  cases h with
  | head => exact Or.inl rfl
  | tail _ h =>
    right
    have hmem := @List.mem_map_of_mem _ _ _ _ Prod.fst h
    rw [hmap, List.mem_map] at hmem
    obtain ⟨i, hi, hw⟩ := hmem
    exact ⟨i, List.mem_range.mp hi, hw.symm⟩

theorem boot16_layout (layout : Layout n.toNat fat16) :
    totalSectors (boot16 fat16 volumeId) = n.toNat ∧
      firstDataSector (boot16 fat16 volumeId) = metaSectors fat16 ∧
      countOfClusters (boot16 fat16 volumeId) =
        (n.toNat - metaSectors fat16) / fat16.sects_per_cluster.toNat ∧
      fatEntries (boot16 fat16 volumeId) = fat16.fat_sectors.toNat * 256 := by
  obtain ⟨hbps, hspc, hreserved, hfats, hroot, htotal16, hfat, htotal⟩ :=
    boot16_fields fat16 volumeId
  obtain ⟨hone, htwo, hentries⟩ := layout.counts
  have hsectors : totalSectors (boot16 fat16 volumeId) = n.toNat := by
    simp only [totalSectors, htotal16, htotal, layout.volume, ne_eq, not_true_eq_false, if_false]
  have hfirst : firstDataSector (boot16 fat16 volumeId) = metaSectors fat16 := by
    simp only [firstDataSector, hbps, hreserved, hfats, hroot, hfat, hone, htwo, hentries,
      metaSectors]
  refine ⟨hsectors, hfirst, ?_, ?_⟩
  · rw [countOfClusters, hsectors, hfirst, hspc]
  · simp only [fatEntries, hfat, hbps]
    omega

def CountFits (n : Nat) (fat16 : Fat16Data) : Prop :=
  4085 ≤ (n - metaSectors fat16) / fat16.sects_per_cluster.toNat ∧
    (n - metaSectors fat16) / fat16.sects_per_cluster.toNat < 65525

theorem formatted_iff (layout : Layout n.toNat fat16) (hroom : metaSectors fat16 ≤ n.toNat)
    (hend : lba.toNat + n.toNat < 2 ^ 32) :
    (∀ ok, Formatted lba n (writeSectors ok 0 (formatWrites fat16 lba volumeId))) ↔
      CountFits n.toNat fat16 := by
  obtain ⟨htotal, hfirst, hcount, hentries⟩ := @boot16_layout n volumeId _ layout
  have hadd : ∀ i < metaSectors fat16, (lba + BitVec.ofNat 32 i).toNat = lba.toNat + i := by
    intro i hi
    rw [BitVec.toNat_add, BitVec.toNat_ofNat]
    omega
  have hmeta : metaSectors fat16 = 1 + (2 * fat16.fat_sectors.toNat + 32) := by
    rw [metaSectors]
    omega
  constructor
  · intro h
    have hall := (h fun _ => true).volume
    rw [writeSectors_true] at hall
    obtain ⟨boot, hboot, -, -, -, hfat16⟩ := hall rfl
    cases mem_formatWrites layout hboot with
    | inl heq =>
      cases heq
      rwa [IsFat16, hcount] at hfat16
    | inr hother =>
      obtain ⟨i, hi, heq⟩ := hother
      have hnat : lba.toNat = (lba + BitVec.ofNat 32 (1 + i)).toNat := congrArg BitVec.toNat heq
      rw [hadd (1 + i) (by omega)] at hnat
      omega
  · intro hfits ok
    constructor
    · intro w hw
      cases mem_formatWrites layout (writeSectors_subset _ _ _ hw) with
      | inl heq =>
        have hpos : 0 < n.toNat := by omega
        rw [heq]
        exact ⟨Nat.le_refl _, Nat.lt_add_of_pos_right hpos⟩
      | inr hother =>
        obtain ⟨i, hi, heq⟩ := hother
        rw [heq, hadd (1 + i) (by omega)]
        omega
    · intro hok
      rw [writeSectors_all hok]
      refine ⟨boot16 fat16 volumeId, List.mem_cons_self, htotal, fun i hi => ?_, ?_, ?_⟩
      · rw [hfirst] at hi
        have hmem : lba + BitVec.ofNat 32 i ∈
            (formatWrites fat16 lba volumeId).map Prod.fst := by
          rw [formatWrites_lba layout, List.mem_cons, List.mem_map]
          cases i with
          | zero => exact Or.inl (BitVec.add_zero lba)
          | succ i =>
            refine Or.inr ⟨i, List.mem_range.mpr (by omega), ?_⟩
            rw [Nat.add_comm 1 i]
        obtain ⟨w, hw, heq⟩ := List.mem_map.mp hmem
        exact ⟨w.2, by rwa [← heq]⟩
      · rw [hcount, hentries, layout.fat]
        have hle : (n.toNat - metaSectors fat16) / fat16.sects_per_cluster.toNat ≤
            n.toNat / fat16.sects_per_cluster.toNat := Nat.div_le_div_right (Nat.sub_le _ _)
        generalize n.toNat / fat16.sects_per_cluster.toNat = clusters at hle ⊢
        omega
      · rwa [IsFat16, hcount]

theorem nrCylinders_diskInit (diskSize : BitVec 32) (file : Nat → PcmciaDisk.Sector) :
    (PcmciaDisk.diskInit diskSize file).nrCylinders.toNat =
      diskSize.toNat * 2048 % 4294967296 / 128 := by
  have hsize := diskSize.isLt
  have hmb : (1048576 : BitVec 64).toNat = 1048576 := rfl
  have hsect : (512 : BitVec 64).toNat = 512 := rfl
  have hcyl : (128 : BitVec 32).toNat = 128 := rfl
  simp only [PcmciaDisk.diskInit]
  rw [BitVec.toNat_udiv, BitVec.toNat_setWidth, BitVec.toNat_udiv, BitVec.toNat_mul,
    BitVec.toNat_setWidth, hmb, hsect, hcyl]
  omega

theorem diskPartition_diskInit (diskSize : BitVec 32) (file : Nat → PcmciaDisk.Sector) :
    (diskPartition (PcmciaDisk.diskInit diskSize file)).1.toNat = 32 ∧
      (diskPartition (PcmciaDisk.diskInit diskSize file)).2.toNat =
        (2048 * (diskSize.toNat % 2097152) + 4294967264) % 4294967296 := by
  have hcyl := nrCylinders_diskInit diskSize file
  have hheads : (PcmciaDisk.diskInit diskSize file).nrHeads = 4 := rfl
  have htrack : (PcmciaDisk.diskInit diskSize file).sectsPerTrack = 32 := rfl
  generalize PcmciaDisk.diskInit diskSize file = d at hcyl hheads htrack ⊢
  have hlba : PcmciaDisk.chsToLba d 0 1 1 = 32 := by
    simp only [PcmciaDisk.chsToLba, hheads, htrack]
    rfl
  have hthirty : (32 : BitVec 32).toNat = 32 := rfl
  have hfour : (4 : BitVec 32).toNat = 4 := rfl
  simp only [diskPartition, hlba, hheads, htrack]
  refine ⟨hthirty, ?_⟩
  rw [BitVec.toNat_sub, BitVec.toNat_mul, BitVec.toNat_mul, hthirty, hfour, hcyl]
  omega

/-- The sizes in MB, modulo 2 ^ 21, whose volume the guest does not take for FAT16. -/
def misreadSizes : List Nat := [1, 2, 3, 4, 2048, 4096]

theorem SizeClass.le {n c : Nat} (h : SizeClass n c) : n ≤ 8388608 := by
  simp only [SizeClass] at h
  omega

theorem countFits_iff {s : Nat} (layout : Layout (2048 * s - 32) fat16) (hs : 0 < s) :
    metaSectors fat16 ≤ 2048 * s - 32 ∧
      (CountFits (2048 * s - 32) fat16 ↔ s ∉ misreadSizes) := by
  have hfat := layout.fat
  have hclass := layout.size
  simp only [CountFits, metaSectors, misreadSizes, List.mem_cons, List.not_mem_nil, or_false]
  simp only [SizeClass] at hclass
  generalize fat16.sects_per_cluster.toNat = c at hfat hclass ⊢
  obtain ⟨h, rfl⟩ | ⟨h, h', rfl⟩ | ⟨h, h', rfl⟩ | ⟨h, h', rfl⟩ | ⟨h, h', rfl⟩ | ⟨h, h', rfl⟩ |
    ⟨h, h', rfl⟩ := hclass <;> omega

theorem diskFormat_iff {d : PcmciaDisk.Disk} {s : Nat} (hs : s < 2097152)
    (hlba : (diskPartition d).1.toNat = 32)
    (hn : (diskPartition d).2.toNat = (2048 * s + 4294967264) % 4294967296)
    (name : List Byte) (volumeId : BitVec 32) :
    (∀ ok, Formatted (diskPartition d).1 (diskPartition d).2 (diskFormat d ok name volumeId)) ↔
      s ∉ misreadSizes := by
  simp only [diskFormat, fs_fat_format16]
  cases hprep : prepareFat16 (diskPartition d).2 (d.sectsPerTrack.setWidth 16)
      (d.nrHeads.setWidth 16) (some name) with
  | none =>
    have hlarge := row_none (Option.map_eq_none_iff.mp hprep)
    simp only [misreadSizes, List.mem_cons, List.not_mem_nil, or_false]
    constructor
    · intro _
      omega
    · intro _ _
      exact ⟨fun w hw => (by cases hw), fun hok => (by cases hok)⟩
  | some fat16 =>
    have layout := layout_of_prepare hprep
    have hle := layout.size.le
    have hsize : (diskPartition d).2.toNat = 2048 * s - 32 := by omega
    rw [hsize] at layout
    obtain ⟨hroom, hcount⟩ := countFits_iff layout (by omega)
    rw [← hsize] at layout hroom hcount
    rw [← hcount]
    exact formatted_iff layout hroom (by omega)

/-- A disk gets a FAT16 volume for every size but six. -/
theorem formatsFat16_iff (diskSize : BitVec 32) :
    FormatsFat16 diskSize ↔ diskSize.toNat % 2097152 ∉ misreadSizes := by
  have hs : diskSize.toNat % 2097152 < 2097152 := Nat.mod_lt _ (by decide)
  constructor
  · intro h
    obtain ⟨hlba, hn⟩ := diskPartition_diskInit diskSize fun _ _ => 0
    exact (diskFormat_iff hs hlba hn [] 0).mp fun ok => h _ ok [] 0
  · intro h file ok name volumeId
    obtain ⟨hlba, hn⟩ := diskPartition_diskInit diskSize file
    exact (diskFormat_iff hs hlba hn name volumeId).mpr h ok

theorem not_formatsFat16 : ¬ ∀ diskSize, FormatsFat16 diskSize := by
  intro h
  obtain ⟨hlba, hn⟩ := diskPartition_diskInit 1 fun _ _ => 0
  have hone := (diskFormat_iff (by decide) hlba hn [] 0).mp fun ok => h 1 _ ok [] 0
  exact hone (by decide)

end Dynamips.FsFat
