import Dynamips.FsNvramRoundTrip
set_option autoImplicit false

/-! Beyond 4 GiB the offsets no longer fit the `u_int` arithmetic of the address
maps: a byte of the data lands on the magic number of its own header. -/

namespace Dynamips.Nvram
open Function (update)
open Loop

section Collision

variable {len : Nat} {addr flags : BitVec 32}

theorem uint_scaled {x shift : Nat} (h : shift = 0 ∨ shift = 2) :
    uint (x * 2 ^ shift) / 2 ^ shift % sectorSize = x % sectorSize := by
  simp only [uint, sectorSize]
  rcases h with rfl | rfl <;> omega

theorem uint_mod (n : Nat) : uint n % sectorSize = n % sectorSize := by
  simp only [uint, sectorSize]
  omega

theorem len_openFs_mod (hacc : Accepted len flags) :
    (openFs len addr flags).len % sectorSize = 0 := by
  obtain ⟨-, hdiv⟩ := hacc
  rw [Nat.mul_comm, Nat.mod_mul] at hdiv
  have hpos : 0 < lenDiv flags := by
    simp only [lenDiv]
    cases hasFlag flags flagScale4 <;> cases hasFlag flags flagWithBackup <;> decide
  exact (Nat.mul_eq_zero.mp (Nat.eq_zero_of_add_eq_zero_left hdiv)).resolve_left (by omega)

theorem backup_openFs_mod (hacc : Accepted len flags) :
    (openFs len addr flags).backup % sectorSize = 0 := by
  have hlen := @len_openFs_mod _ addr _ hacc
  simp only [openFs, normalFilesystemBlock1, sectorSize] at hlen ⊢
  split <;> omega

theorem layout1_mod (fs : FsNvram) (o : Nat) : layout1 fs o % sectorSize = o % sectorSize := by
  rw [layout1]
  split
  · simp only [backupFilesystemBlock1, sectorSize]
    omega
  · rfl

theorem layout2_mod (hacc : Accepted len flags) (o : Nat) :
    layout2 (openFs len addr flags) o % sectorSize = o % sectorSize := by
  have hlen := @len_openFs_mod _ addr _ hacc
  have hbackup := @backup_openFs_mod _ addr _ hacc
  rw [layout2]
  split
  · split
    · rw [Nat.add_mod, hbackup, Nat.zero_add, Nat.mod_mod]
    · rw [Nat.add_mod, hlen, Nat.zero_add, Nat.mod_mod]
  · rfl

theorem address1_mod (o : Nat) :
    address1 (openFs len addr flags) o / 2 ^ (openFs len addr flags).shift % sectorSize =
      o % sectorSize := by
  rw [address1_eq, uint_scaled shift_openFs, layout1_mod, uint_mod]

theorem address2_mod (hacc : Accepted len flags) (o : Nat) :
    address2 (openFs len addr flags) o / 2 ^ (openFs len addr flags).shift % sectorSize =
      o % sectorSize := by
  rw [address2_eq, uint_scaled shift_openFs, layout2_mod hacc, uint_mod]

def wrap (fs : FsNvram) : Nat := 2 ^ (32 - fs.shift)

theorem uint_wrap {fs : FsNvram} (h : fs.shift = 0 ∨ fs.shift = 2) (x : Nat) :
    uint ((wrap fs + x) * 2 ^ fs.shift) = uint (x * 2 ^ fs.shift) := by
  rw [uint, uint, wrap]
  rcases h with h | h <;> rw [h] <;> omega

theorem wrap_lt_area (hacc : Accepted len flags) (hlen : 2 ^ 32 < len) :
    wrap (openFs len addr flags) <
      (openFs len addr flags).len * if hasFlag flags flagWithBackup then 2 else 1 := by
  have harea := @area_openFs _ addr _ hacc
  have hpow : wrap (openFs len addr flags) * 2 ^ (openFs len addr flags).shift = 2 ^ 32 := by
    rcases @shift_openFs len addr flags with h | h <;>
      rw [wrap, h] <;> rfl
  exact Nat.lt_of_mul_lt_mul_right (by rw [hpow, harea]; exact hlen)

theorem wrap_mod : wrap (openFs len addr flags) % sectorSize = 0 ∧
    2 ^ 30 ≤ wrap (openFs len addr flags) ∧ wrap (openFs len addr flags) ≤ 2 ^ 32 := by
  rcases @shift_openFs len addr flags with h | h <;>
    rw [wrap, h] <;> decide

theorem address1_eight : address1 (openFs len addr flags) 8 =
    uint (8 * 2 ^ (openFs len addr flags).shift) := by
  have h8 : layout1 (openFs len addr flags) (uint 8) = 8 := if_neg (by
    rintro ⟨-, h⟩
    exact absurd h (by decide))
  rw [address1_eq, h8]

theorem address1_collides {j : Nat} (h : layout1 (openFs len addr flags) (uint j) =
      wrap (openFs len addr flags) + 8 ∨ layout1 (openFs len addr flags) (uint j) = 8) :
    address1 (openFs len addr flags) j = address1 (openFs len addr flags) 8 := by
  rw [address1_eight, address1_eq]
  rcases h with h | h
  · rw [h, uint_wrap shift_openFs]
  · rw [h]

theorem address2_collides {j : Nat} (h : layout2 (openFs len addr flags) (uint j) =
      wrap (openFs len addr flags) + 8) :
    address2 (openFs len addr flags) j = address1 (openFs len addr flags) 8 := by
  rw [address1_eight, address2_eq, h, uint_wrap shift_openFs]

theorem exists_collision (hacc : Accepted len flags) (hlen : 2 ^ 32 < len) :
    ∃ j, j % sectorSize = 8 ∧ 44 ≤ j ∧ j + 24 ≤ (openFs len addr flags).len ∧ j - 43 < 2 ^ 32 ∧
      (address1 (openFs len addr flags) j = address1 (openFs len addr flags) 8 ∨
        address2 (openFs len addr flags) j = address1 (openFs len addr flags) 8) := by
  have hmod := @len_openFs_mod _ addr _ hacc
  have harea := @wrap_lt_area _ addr _ hacc hlen
  obtain ⟨hwmod, hwge, hwle⟩ := @wrap_mod len addr flags
  have hflags : (openFs len addr flags).flags = flags := rfl
  generalize hN : (openFs len addr flags).len = N at *
  generalize hM : wrap (openFs len addr flags) = M at *
  simp only [sectorSize] at *
  cases hb : hasFlag flags flagWithBackup with
  | false =>
    rw [hb] at harea
    simp only [Bool.false_eq_true, if_false, Nat.mul_one] at harea
    refine ⟨M + 8, by omega, by omega, by omega, by omega, .inl (address1_collides ?_)⟩
    rw [layout1, hflags, hb, hM]
    simp only [Bool.false_eq_true, false_and, if_false, uint]
    omega
  | true =>
    rw [hb] at harea
    simp only [if_true] at harea
    by_cases hbig : M + 1024 ≤ backupFilesystemBlock1 + N
    · simp only [backupFilesystemBlock1] at hbig
      refine ⟨M + 8 - 114688, by omega, by omega, by omega, by omega, .inl (address1_collides (.inl ?_))⟩
      have huint : uint (M + 8 - 114688) = M + 8 - 114688 := uint_of_lt (by omega)
      rw [layout1, hflags, hb, hM, huint, if_pos ⟨rfl, by simp only [normalFilesystemBlock1]; omega⟩]
      simp only [backupFilesystemBlock1]
      omega
    · simp only [backupFilesystemBlock1] at hbig
      refine ⟨M + 8 - N, by omega, by omega, by omega, by omega, .inr (address2_collides ?_)⟩
      have huint : uint (M + 8 - N) = M + 8 - N := uint_of_lt (by omega)
      rw [layout2, hflags, hb, hM, huint, if_pos rfl,
        if_neg (by simp only [backupFilesystemBlock1]; omega), hN]
      omega

theorem writeByte_zero (hacc : Accepted len flags) {mem : Mem} {o : Nat} {val : Byte}
    (h : mem (address1 (openFs len addr flags) 8) = 0) (hval : val = 0 ∨ o % sectorSize ≠ 8) :
    writeByte (openFs len addr flags) mem o val (address1 (openFs len addr flags) 8) = 0 := by
  rw [writeByte_eq, Function.update_apply, Function.update_apply]
  rcases hval with rfl | hmod
  · simp [h]
  · have h8 := @address1_mod len addr flags 8
    have hne1 : address1 (openFs len addr flags) 8 ≠ address1 (openFs len addr flags) o := by
      intro hc
      have ho := @address1_mod len addr flags o
      rw [← hc, h8] at ho
      exact hmod ho.symm
    have hne2 : address1 (openFs len addr flags) 8 ≠ address2 (openFs len addr flags) o := by
      intro hc
      have ho := @address2_mod _ addr _ hacc o
      rw [← hc, h8] at ho
      exact hmod ho.symm
    rw [if_neg hne2, if_neg hne1, h]

theorem writeByte_collides {mem : Mem} {j : Nat}
    (hj : address1 (openFs len addr flags) j = address1 (openFs len addr flags) 8 ∨
      address2 (openFs len addr flags) j = address1 (openFs len addr flags) 8) :
    writeByte (openFs len addr flags) mem j 0 (address1 (openFs len addr flags) 8) = 0 := by
  rw [writeByte_eq, Function.update_apply, Function.update_apply]
  rcases hj with hj | hj <;> simp [hj]

theorem loop_zero (hacc : Accepted len flags) {mem : Mem} {off n : Nat} (v : Nat → Byte)
    (h : mem (address1 (openFs len addr flags) 8) = 0)
    (hval : ∀ i < n, v i = 0 ∨ (off + i) % sectorSize ≠ 8) :
    loop (fun i mem => writeByte (openFs len addr flags) mem (off + i) (v i)) n mem
      (address1 (openFs len addr flags) 8) = 0 :=
  loop_invariant (fun _ (mem : Mem) => mem (address1 (openFs len addr flags) 8) = 0) h
    fun i hi _ hmem => writeByte_zero hacc hmem (hval i hi)

theorem memcpyTo_collides (hacc : Accepted len flags) {mem : Mem} {j : Nat} (h44 : 44 ≤ j)
    (hsmall : j - 43 < 2 ^ 32)
    (hj : address1 (openFs len addr flags) j = address1 (openFs len addr flags) 8 ∨
      address2 (openFs len addr flags) j = address1 (openFs len addr flags) 8) :
    memcpyTo (openFs len addr flags) mem 44 (List.replicate (j - 43) 0) (j - 43)
      (address1 (openFs len addr flags) 8) = 0 := by
  rw [memcpyTo, uint_of_lt hsmall]
  have hzero : ∀ i, (List.replicate (j - 43) (0 : Byte)).getD i 0 = 0 := by
    intro i
    rw [List.getD_eq_getElem?_getD, List.getElem?_replicate]
    split <;> rfl
  have hinv := loop_invariant
    (f := fun i mem => writeByte (openFs len addr flags) mem (44 + i)
      ((List.replicate (j - 43) 0).getD i 0))
    (fun i (mem : Mem) => j < 44 + i → mem (address1 (openFs len addr flags) 8) = 0)
    (n := j - 43) (s := mem) (by omega)
    (by
      intro i _ m hm hi
      simp only [hzero]
      by_cases heq : 44 + i = j
      · rw [heq]
        exact writeByte_collides hj
      · exact writeByte_zero hacc (hm (by omega)) (.inl rfl))
  exact hinv (by omega)

theorem paddingAt_le (o : Nat) : paddingAt (openFs len addr flags) o ≤ 7 := by
  rw [paddingAt]
  split
  · simp only [openFs]
    split <;> omega
  · omega

theorem fsNvramWriteConfig_collides (hacc : Accepted len flags) {j : Nat}
    (hmod : j % sectorSize = 8) (h44 : 44 ≤ j) (hroom : j + 24 ≤ (openFs len addr flags).len)
    (hsmall : j - 43 < 2 ^ 32)
    (hj : address1 (openFs len addr flags) j = address1 (openFs len addr flags) 8 ∨
      address2 (openFs len addr flags) j = address1 (openFs len addr flags) 8) (mem : Mem) :
    ∃ mem', fsNvramWriteConfig (openFs len addr flags) mem (List.replicate (j - 43) 0) [] =
        (0, mem') ∧ mem' (address1 (openFs len addr flags) 8) = 0 := by
  have hpad := @paddingAt_le len addr flags (44 + (j - 43))
  have hcode : (fsNvramWriteConfig (openFs len addr flags) mem
      (List.replicate (j - 43) 0) []).1 = 0 := by
    rw [fsNvramWriteConfig, if_neg]
    have htotal : filesystemHeaderSize + startupHeaderSize = 44 := rfl
    simp only [htotal, privateHeaderSize, List.length_replicate, List.length_nil]
    omega
  have hrun : fsNvramWriteConfig (openFs len addr flags) mem (List.replicate (j - 43) 0) [] =
      (0, (fsNvramWriteConfig (openFs len addr flags) mem (List.replicate (j - 43) 0) []).2) :=
    Prod.ext hcode rfl
  refine ⟨_, hrun, ?_⟩
  obtain ⟨pad, old, head, phead, hpadeq, -, -, -, -, hmem⟩ := fsNvramWriteConfig_eq hrun
  rw [List.length_replicate] at hpadeq
  rw [← hpadeq] at hpad
  rw [hmem]
  simp only [List.length_replicate, List.length_nil]
  generalize memcpyTo (openFs len addr flags) mem 8 head.toBytes 36 = mem1
  have hdata := @memcpyTo_collides _ _ _ hacc mem1 _ h44 hsmall hj
  have hclear := @loop_zero _ _ _ hacc _ (44 + (j - 43)) (uint pad) (fun _ => 0) hdata
    (fun _ _ => .inl rfl)
  have hheader := @loop_zero _ _ _ hacc _ (44 + (j - 43) + pad) (uint 16)
    (fun i => phead.toBytes.getD i 0) hclear (by
      intro i hi
      have hi16 : i < 16 := hi
      simp only [sectorSize] at hmod ⊢
      omega)
  have hpriv := @loop_zero _ _ _ hacc _ (44 + (j - 43) + pad + 16) (uint 0)
    (fun i => ([] : List Byte).getD i 0) hheader (fun _ _ => .inl rfl)
  generalize hlast : (if 44 + (j - 43) + pad + 16 + 0 < old then _ else _ : Mem) = last
  have hzero : last (address1 (openFs len addr flags) 8) = 0 := by
    rw [← hlast]
    split
    · exact loop_zero hacc (fun _ => 0) hpriv (fun _ _ => .inl rfl)
    · exact hpriv
  obtain ⟨a, b, c, d, hsum⟩ := updateChecksum_eq (openFs len addr flags) last
  rw [hsum]
  have h12 : 12 % sectorSize ≠ 8 := by decide
  have h13 : 13 % sectorSize ≠ 8 := by decide
  exact writeByte_zero hacc (writeByte_zero hacc (writeByte_zero hacc (writeByte_zero hacc hzero
    (.inr h12)) (.inr h13)) (.inr h12)) (.inr h13)

theorem fsNvramReadConfig_collides {mem : Mem} (h : mem (address1 (openFs len addr flags) 8) = 0)
    (uninit : LzcTables) (heap : Nat → Byte) :
    fsNvramReadConfig uninit heap (openFs len addr flags) mem = some ⟨0, none, 0, none, 0⟩ := by
  have hfirst : (memcpyFrom (openFs len addr flags) mem filesystemHeaderSize
      startupHeaderSize).getD 0 0 = 0 := by
    have h8 : readByte (openFs len addr flags) mem 8 = 0 := by
      rw [readByte_eq]
      exact h
    exact h8
  rw [fsNvramReadConfig, if_pos]
  intro hmagic
  have hhigh := mNtoh16_high (memcpyFrom (openFs len addr flags) mem filesystemHeaderSize
    startupHeaderSize)
  have hmagic' : mNtoh16 (memcpyFrom (openFs len addr flags) mem filesystemHeaderSize
    startupHeaderSize) = magicStartupConfig := hmagic
  rw [hfirst, hmagic'] at hhigh
  exact absurd hhigh (by decide)

/-- A memory area with the filesystem magic number and nothing else. -/
def magicOnly (fs : FsNvram) : Mem :=
  update (update (fun _ => 0) (address1 fs 6) 0xF0) (address1 fs 7) 0xA5

theorem fsNvramOpen_magicOnly (hacc : Accepted len flags) :
    fsNvramOpen (magicOnly (openFs len addr flags)) len addr flags =
      some (openFs len addr flags, magicOnly (openFs len addr flags)) := by
  have hne : address1 (openFs len addr flags) 6 ≠ address1 (openFs len addr flags) 7 := by
    intro hc
    have h6 := @address1_mod len addr flags 6
    rw [hc, address1_mod] at h6
    exact absurd h6 (by decide)
  have hread : read16 (openFs len addr flags) (magicOnly (openFs len addr flags)) 6 =
      magicFilesystem := by
    have hbyte6 : magicOnly (openFs len addr flags) (address1 (openFs len addr flags) 6) = 0xF0 := by
      rw [magicOnly, Function.update_of_ne hne, Function.update_self]
    have hbyte7 : magicOnly (openFs len addr flags) (address1 (openFs len addr flags) 7) = 0xA5 :=
      Function.update_self _ _ _
    rw [read16, readByte_eq, readByte_eq, hbyte6, hbyte7]
    rfl
  have haccept : ¬ (len < filesystemHeaderSize * lenDiv flags ∨
      len % (sectorSize * lenDiv flags) ≠ 0) := by
    rw [not_or, Nat.not_lt, not_not]
    exact hacc
  rw [fsNvramOpen, if_neg haccept]
  exact if_neg (not_not.mpr hread)

theorem not_roundTrips (hacc : Accepted len flags) (hlen : 2 ^ 32 < len) :
    ¬ RoundTrips len addr flags := by
  obtain ⟨j, hmod, h44, hroom, hsmall, hj⟩ := @exists_collision _ addr _ hacc hlen
  obtain ⟨mem', hwrite, hzero⟩ := fsNvramWriteConfig_collides hacc hmod h44 hroom hsmall hj
    (magicOnly (openFs len addr flags))
  intro h
  let uninit : LzcTables := ⟨fun _ => 0, fun _ => 0, fun _ => 0, fun _ => 0⟩
  have hread := h _ _ _ (fsNvramOpen_magicOnly hacc) _ _ _ hwrite uninit (fun _ => 0)
  rw [fsNvramReadConfig_collides hzero] at hread
  simp at hread

/-- Exactly the areas of at most 4 GiB give back what was written to them. -/
theorem roundTrips_iff (hacc : Accepted len flags) :
    RoundTrips len addr flags ↔ len ≤ 2 ^ 32 := by
  constructor
  · intro h
    by_contra hlen
    exact not_roundTrips hacc (Nat.lt_of_not_le hlen) h
  · exact roundTrips_of_le

end Collision

theorem accepted_of_plain {len : Nat} (h : 8 ≤ len) (hdiv : len % 1024 = 0) : Accepted len 0 := by
  have hone : lenDiv 0 = 1 := by decide
  rw [Accepted, hone]
  exact ⟨h, hdiv⟩

theorem roundTrips_iff_plain : Accepted 0x20000 0 ∧ (RoundTrips 0x20000 0 0 ↔ 0x20000 ≤ 2 ^ 32) :=
  ⟨accepted_of_plain (by decide) (by decide),
    roundTrips_iff (accepted_of_plain (by decide) (by decide))⟩

/-- One sector more than 4 GiB: 2^32 - 35 zero bytes of startup data erase their
own magic number. -/
theorem not_roundTrips_plain : ¬ RoundTrips (2 ^ 32 + 1024) 0 0 :=
  not_roundTrips (accepted_of_plain (by omega) (by omega)) (by omega)

end Dynamips.Nvram
