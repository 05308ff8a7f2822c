import Dynamips.PhysMemCopy

/-! When the copies of physical memory transfer a range byte for byte. -/
set_option autoImplicit false

namespace Dynamips

variable {W : Type}

def valueAt (handler : DevHandler W) (vm : Vm W) (p : Piece) : Option (List Byte) :=
  (readPiece handler vm p).map Prod.fst

structure Stores (handler : DevHandler W) (pieces : List Piece) (good : Vm W → Prop) : Prop where
  read : ∀ vm, good vm → ∀ p ∈ pieces, ∀ bytes vm', readPiece handler vm p = some (bytes, vm') →
    good vm' ∧ ∀ q ∈ pieces, valueAt handler vm' q = valueAt handler vm q
  write : ∀ vm, good vm → ∀ p ∈ pieces, ∀ bytes : List Byte, bytes.length = p.2 →
    ∃ vm', writePiece handler vm p bytes = some vm' ∧ good vm' ∧
      valueAt handler vm' p = some bytes ∧
      ∀ q ∈ pieces, q ≠ p → valueAt handler vm' q = valueAt handler vm q

/-- The copies of a range are the accesses to its bytes, and give back the bytes that
were written. -/
def Transfers (vm₀ : Vm W) (paddr : BitVec 64) (len : Nat) : Prop :=
  ∃ pieces, Tiles vm₀ paddr len pieces ∧
    ∀ handler, KeepsBoard handler → ∀ vm, SameBoard vm₀ vm →
      (∀ buf : List Byte, buf.length = len →
        physmemCopyFromVm handler vm buf paddr = readPieces handler pieces vm ∧
        physmemCopyToVm handler vm buf paddr = writePieces handler pieces buf vm) ∧
      ∀ good, Stores handler pieces good → good vm → ∀ buf buf' : List Byte, buf.length = len →
        buf'.length = len → ∃ vm' vm'', physmemCopyToVm handler vm buf paddr = some vm' ∧
          physmemCopyFromVm handler vm' buf' paddr = some (buf, vm'')

def Covered (vm : Vm W) (paddr : BitVec 64) (len : Nat) : Prop :=
  ∀ i < len, devLookup vm (paddr + BitVec.ofNat 64 i) false ≠ none

variable {vm₀ vm vm' : Vm W} {handler : DevHandler W} {paddr data : BitVec 64} {n : Nat}
  {op : MtsOp}

def Holds (handler : DevHandler W) (vm : Vm W) : List Piece → List Byte → Prop
  | [], buf => buf = []
  | p :: pieces, buf => valueAt handler vm p = some (buf.take p.2) ∧
      Holds handler vm pieces (buf.drop p.2)

theorem Holds.congr {pieces : List Piece} {buf : List Byte} (h : Holds handler vm pieces buf)
    (hval : ∀ q ∈ pieces, valueAt handler vm' q = valueAt handler vm q) :
    Holds handler vm' pieces buf := by
  induction pieces generalizing buf with
  | nil => exact h
  | cons p pieces ih =>
    refine ⟨?_, ih h.2 fun q hq => hval q (List.mem_cons_of_mem p hq)⟩
    rw [hval p List.mem_cons_self]
    exact h.1

theorem Stores.readPieces {all pieces : List Piece} {good : Vm W → Prop}
    (stores : Stores handler all good) (hsub : pieces ⊆ all) (hgood : good vm) {buf : List Byte}
    (h : Holds handler vm pieces buf) :
    ∃ vm', Dynamips.readPieces handler pieces vm = some (buf, vm') := by
  induction pieces generalizing vm buf with
  | nil =>
    cases h
    exact ⟨vm, rfl⟩
  | cons p pieces ih =>
    obtain ⟨hval, hrest⟩ := h
    rw [valueAt, Option.map_eq_some_iff] at hval
    obtain ⟨⟨bytes, mid⟩, hread, rfl⟩ := hval
    obtain ⟨hmid, hsame⟩ := stores.read vm hgood p (hsub List.mem_cons_self) _ _ hread
    have htail : pieces ⊆ all := fun q hq => hsub (List.mem_cons_of_mem p hq)
    obtain ⟨vm', hvm'⟩ := ih htail hmid (hrest.congr fun q hq => hsame q (htail hq))
    refine ⟨vm', ?_⟩
    have hbuf : buf.take p.2 ++ buf.drop p.2 = buf := List.take_append_drop _ _
    simp only [Dynamips.readPieces, hread, Option.bind_some, hvm', Option.map_some, hbuf]

theorem Tiles.mem {len : Nat} {pieces : List Piece} (h : Tiles vm paddr len pieces) {q : Piece}
    (hq : q ∈ pieces) : ∃ k, q.1 = paddr + BitVec.ofNat 64 k ∧ k < len := by
  induction pieces generalizing paddr len with
  | nil => cases hq
  | cons p pieces ih =>
    obtain ⟨haddr, hwidth, hle, -, hrest⟩ := h
    cases hq with
    | head => exact ⟨0, by simpa using haddr, by omega⟩
    | tail _ hq =>
      obtain ⟨k, hk, hlt⟩ := ih hrest hq
      refine ⟨p.2 + k, ?_, by omega⟩
      rw [hk, BitVec.add_assoc, ← BitVec.ofNat_add]

theorem Tiles.fresh {len : Nat} {p : Piece} {pieces : List Piece} (hlen : len < 2 ^ 64)
    (h : Tiles vm paddr len (p :: pieces)) : p ∉ pieces := by
  obtain ⟨haddr, hwidth, hle, -, hrest⟩ := h
  intro hp
  obtain ⟨k, hk, hlt⟩ := hrest.mem hp
  rw [haddr] at hk
  have hnat := congrArg BitVec.toNat hk
  simp only [BitVec.toNat_add, BitVec.toNat_ofNat] at hnat
  omega

theorem Stores.writePieces {all pieces : List Piece} {good : Vm W → Prop} {len : Nat}
    (stores : Stores handler all good) (hsub : pieces ⊆ all) (hlen : len < 2 ^ 64)
    (tiles : Tiles vm₀ paddr len pieces) (hgood : good vm) {buf : List Byte}
    (hbuf : buf.length = len) :
    ∃ vm', Dynamips.writePieces handler pieces buf vm = some vm' ∧ good vm' ∧
      Holds handler vm' pieces buf ∧
      ∀ q ∈ all, q ∉ pieces → valueAt handler vm' q = valueAt handler vm q := by
  induction pieces generalizing vm paddr len buf with
  | nil =>
    have hz : len = 0 := tiles
    exact ⟨vm, rfl, hgood, List.length_eq_zero_iff.mp (hbuf.trans hz), fun _ _ _ => rfl⟩
  | cons p pieces ih =>
    have hfresh := tiles.fresh hlen
    obtain ⟨-, -, hle, -, hrest⟩ := tiles
    have hp : p ∈ all := hsub List.mem_cons_self
    obtain ⟨mid, hwrite, hmid, hval, hother⟩ :=
      stores.write vm hgood p hp (buf.take p.2) (List.length_take_of_le (by omega))
    obtain ⟨vm', hvm', hgood', hholds, hsame⟩ :=
      ih (fun q hq => hsub (List.mem_cons_of_mem p hq)) (by omega) hrest hmid
        (show (buf.drop p.2).length = len - p.2 by rw [List.length_drop, hbuf])
    refine ⟨vm', ?_, hgood', ⟨?_, hholds⟩, fun q hq hnot => ?_⟩
    · simp only [Dynamips.writePieces, hwrite, Option.bind_some, hvm']
    · rw [hsame p hp hfresh, hval]
    · rw [List.mem_cons, not_or] at hnot
      rw [hsame q hq hnot.2, hother q hq hnot.1]

theorem transfers_of_fits (whole : PagesWhole vm₀) {len : Nat} (hlen : len < 2 ^ 64)
    (hfit : CopyFits vm₀ paddr len) : Transfers vm₀ paddr len := by
  have tiles := tiles_copyPieces (Nat.le_refl len) hfit
  refine ⟨copyPieces vm₀ len paddr len, tiles, fun handler keeps vm h => ?_⟩
  have hfrom : ∀ vm, SameBoard vm₀ vm → ∀ buf : List Byte, buf.length = len →
      physmemCopyFromVm handler vm buf paddr =
        readPieces handler (copyPieces vm₀ len paddr len) vm := by
    intro vm h buf hbuf
    subst hbuf
    exact copyFromVm_pieces whole keeps h (Nat.le_refl _) hfit
  have hto : ∀ buf : List Byte, buf.length = len → physmemCopyToVm handler vm buf paddr =
      writePieces handler (copyPieces vm₀ len paddr len) buf vm := by
    intro buf hbuf
    subst hbuf
    exact copyToVm_pieces whole keeps h (Nat.le_refl _) hfit
  refine ⟨fun buf hbuf => ⟨hfrom vm h buf hbuf, hto buf hbuf⟩,
    fun good stores hgood buf buf' hbuf hbuf' => ?_⟩
  obtain ⟨vm', hwrite, hgood', hholds, -⟩ :=
    stores.writePieces (List.Subset.refl _) hlen tiles hgood hbuf
  obtain ⟨vm'', hread⟩ := stores.readPieces (List.Subset.refl _) hgood' hholds
  refine ⟨vm', vm'', by rw [hto buf hbuf, hwrite], ?_⟩
  rw [hfrom vm' (writePieces_board keeps h hwrite) buf' hbuf', hread]

/-- Devices that answer 0 to an access that stays inside of one, and `v` to any other. -/
def answering (v : BitVec 64) : DevHandler W := fun dev offset n _ _ vm =>
  (none, if InDevice vm (dev.physAddr + offset.setWidth 64) n then 0 else v, vm)

theorem keepsBoard_answering (v : BitVec 64) : KeepsBoard (@answering W v) :=
  fun _ _ _ _ _ _ _ h => h

theorem getHptr_answering (v : BitVec 64) (hmapped : vm.mapped paddr = false)
    (hdev : devLookup vm paddr false ≠ none) (hn : n ≠ 0) :
    physmemGetHptr (answering v) vm paddr n op data =
      some (none, if InDevice vm paddr n then 0 else v, vm) := by
  obtain ⟨dev, hdev⟩ := Option.ne_none_iff_exists'.mp hdev
  have hcovers := List.find?_some hdev
  have haddr : dev.physAddr + ((paddr - dev.physAddr).setWidth 32).setWidth 64 = paddr := by
    simp only [VDevice.covers, Bool.and_eq_true, decide_eq_true_eq, BitVec.lt_def,
      BitVec.toNat_setWidth] at hcovers
    have hl := dev.physLen.isLt
    have hp := paddr.isLt
    have hd := dev.physAddr.isLt
    have hlt := hcovers.2.2
    apply BitVec.eq_of_toNat_eq
    rw [BitVec.toNat_sub] at hlt
    rw [BitVec.toNat_add, BitVec.toNat_setWidth, BitVec.toNat_setWidth, BitVec.toNat_sub]
    omega
  simp only [Vm.mapped, hdev, Option.any_some, VDevice.mapped, Bool.or_eq_false_iff] at hmapped
  have hdirect : ¬ (dev.hostAddr ≠ 0 ∧ ¬ dev.has vdeviceFlagNoMtsMmap) := by
    simpa using hmapped.2
  simp only [physmemGetHptr, hdev, hmapped.1, hdirect, hn, if_false, Bool.false_eq_true,
    answering, haddr]

theorem SameBoard.inDevice (h : SameBoard vm₀ vm) : InDevice vm paddr n ↔ InDevice vm₀ paddr n := by
  simp only [InDevice, devLookup_congr h.devList]

theorem readPiece_answering (v : BitVec 64) (h : SameBoard vm₀ vm) {p : Piece} (hn : p.2 ≠ 0)
    (hin : InDevice vm₀ p.1 p.2) :
    readPiece (answering v) vm p = readPiece (answering 0) vm p := by
  have hget : physmemGetHptr (answering v) vm p.1 p.2 .read 0 =
      physmemGetHptr (answering 0) vm p.1 p.2 .read 0 := by
    by_cases hmapped : vm.mapped p.1
    · rw [getHptr_mapped h.sparse hmapped, getHptr_mapped h.sparse hmapped]
    · by_cases hdev : devLookup vm p.1 false = none
      · simp only [physmemGetHptr, hdev]
      · rw [getHptr_answering v (Bool.eq_false_iff.mpr hmapped) hdev hn,
          getHptr_answering 0 (Bool.eq_false_iff.mpr hmapped) hdev hn,
          if_pos (h.inDevice.mpr hin), if_pos (h.inDevice.mpr hin)]
  simp only [readPiece, physmemCopyWordFromVm, hget]

theorem readPieces_answering (v : BitVec 64) (h : SameBoard vm₀ vm) {pieces : List Piece}
    {len : Nat} (tiles : Tiles vm₀ paddr len pieces) :
    readPieces (answering v) pieces vm = readPieces (answering 0) pieces vm := by
  induction pieces generalizing vm paddr len with
  | nil => rfl
  | cons p pieces ih =>
    obtain ⟨rfl, hwidth, -, hin, hrest⟩ := tiles
    rw [readPieces, readPieces, readPiece_answering v h (by omega) hin]
    cases hread : readPiece (answering 0) vm p with
    | none => rfl
    | some res =>
      have hnext := ih (readPiece_board (keepsBoard_answering 0) h hread) hrest
      simp only [Option.bind_some, hnext]

theorem pagePtr_total (hpages : ∀ k, vm.hostPage k ≠ none) (h : vm.mapped paddr) :
    ∃ ptr vm', vm.pagePtr paddr op = some (ptr, vm') ∧ vm'.hostPage = vm.hostPage := by
  obtain ⟨dev, hdev, -⟩ := mapped_eq_true h
  obtain ⟨page, hpage⟩ := Option.ne_none_iff_exists'.mp (hpages vm.pageAlloc)
  simp only [Vm.pagePtr, hdev, Option.bind_some]
  by_cases hsp : dev.has vdeviceFlagSparse
  · simp only [hsp, if_true, devSparseGetHostAddr, vmAllocHostPage, hpage, Option.map_some,
      Option.bind_eq_bind, Option.bind_some]
    split
    · exact ⟨_, _, rfl, rfl⟩
    · split
      · exact ⟨_, _, rfl, rfl⟩
      · cases op <;> exact ⟨_, _, rfl, rfl⟩
  · simp only [hsp, Bool.false_eq_true, if_false]
    exact ⟨_, _, rfl, rfl⟩

def answered (vm : Vm W) (paddr v : BitVec 64) (r : Nat) : List Byte :=
  if r = 3 then List.replicate 3 (v.setWidth 8)
  else storeBytes (((if InDevice vm paddr r then 0 else v).setWidth (8 * r)).setWidth 64) r

theorem unmappedFromVm_answering (v : BitVec 64) (hmapped : vm.mapped paddr = false)
    (hdev : devLookup vm paddr false ≠ none) {r : Nat} (hr : r ≠ 0) :
    unmappedFromVm (answering v) vm paddr (List.replicate r (v.setWidth 8)) =
      some (answered vm paddr v r, vm) := by
  simp only [unmappedFromVm, List.length_replicate, answered]
  split
  · rename_i hthree
    rw [hthree]
  · simp only [physmemCopyWordFromVm, getHptr_answering v hmapped hdev hr, Option.map_some]

theorem answered_fits {v w : BitVec 64} {r : Nat} (h : r ≠ 3 ∧ InDevice vm paddr r) :
    answered vm paddr v r = answered vm paddr w r := by
  simp only [answered, h.1, h.2, if_false, if_true]

theorem answered_unfit {r : Nat} (hr : 0 < r) (hle : r ≤ 4) (h : ¬ (r ≠ 3 ∧ InDevice vm paddr r))
    (back back' : List Byte) :
    answered vm paddr 0 r ++ back ≠ answered vm paddr (-1) r ++ back' := by
  intro heq
  have hcases : r = 1 ∨ r = 2 ∨ r = 3 ∨ r = 4 := by omega
  have hhead := congrArg (fun l => l.head?) heq
  obtain rfl | rfl | rfl | rfl := hcases <;>
    simp [answered, storeBytes] at h hhead <;> simp [h] at hhead

theorem Covered.drop {len : Nat} (h : Covered vm paddr len) (r : Nat) :
    Covered vm (paddr + BitVec.ofNat 64 r) (len - r) := by
  intro i hi
  rw [BitVec.add_assoc, ← BitVec.ofNat_add]
  exact h (r + i) (by omega)

theorem copyFromVm_answering (h : SameBoard vm₀ vm) (whole : PagesWhole vm₀)
    (hpages : ∀ k, vm.hostPage k ≠ none) {fuel len : Nat} (hfuel : len ≤ fuel)
    (hcov : Covered vm₀ paddr len) :
    ∃ (out : BitVec 64 → List Byte) (vm' : Vm W),
      (∀ v, copyFromVm (answering v) fuel vm (List.replicate len (v.setWidth 8)) paddr =
        some (out v, vm')) ∧ (¬ StepsFit vm₀ fuel paddr len → out 0 ≠ out (-1)) := by
  induction fuel generalizing vm paddr len with
  | zero =>
    rw [Nat.le_zero.mp hfuel]
    exact ⟨fun _ => [], vm, fun _ => rfl, fun hfit => absurd trivial hfit⟩
  | succ fuel ih =>
    by_cases hz : len = 0
    · subst hz
      exact ⟨fun _ => [], vm, fun _ => rfl, fun hfit => absurd (Or.inl rfl) hfit⟩
    have hpos : 0 < len := Nat.pos_of_ne_zero hz
    have hstep := @stepLen_pos _ vm₀ paddr _ hpos
    have hne : ∀ b : Byte, List.replicate len b ≠ [] := by simp [hz]
    have hrest := @hcov.drop _ _ _ _ (stepLen vm₀ paddr len)
    have hdev : devLookup vm paddr false ≠ none := by
      rw [devLookup_congr h.devList]
      simpa using hcov 0 hpos
    by_cases hmapped : vm.mapped paddr
    · obtain ⟨ptr, mid, hptr, hhost⟩ := @pagePtr_total _ _ _ .read hpages hmapped
      have hboard := (pagePtr_page whole h hmapped hptr).1
      obtain ⟨out, vm', hrun, hdiff⟩ := ih hboard (by rwa [hhost]) (by omega) hrest
      have hlen : stepLen vm₀ paddr len = pageChunk paddr len := by
        rw [← stepLen_congr h, stepLen, if_pos hmapped]
      rw [hlen] at hrun hdiff
      refine ⟨fun v => hostRead mid.mem ptr (pageChunk paddr len) ++ out v, vm', fun v => ?_,
        fun hfit heq => hdiff (fun hall => hfit ?_) (List.append_cancel_left heq)⟩
      · rw [copyFromVm, if_neg (hne _), getHptr_mapped h.sparse hmapped, hptr]
        simp only [Option.map_some, List.length_replicate, List.drop_replicate, hrun]
      · rw [StepsFit, hlen]
        exact Or.inr ⟨Or.inl (by rwa [← h.mapped]), hall⟩
    · obtain ⟨out, vm', hrun, hdiff⟩ := ih h hpages (by omega) hrest
      have hlen : stepLen vm₀ paddr len = min len 4 := by
        rw [← stepLen_congr h, stepLen, if_neg hmapped]
      rw [hlen] at hrun hdiff
      have hfalse := Bool.eq_false_iff.mpr hmapped
      refine ⟨fun v => answered vm paddr v (min len 4) ++ out v, vm', fun v => ?_,
        fun hfit => ?_⟩
      · have htake : min (min len 4) len = min len 4 := by omega
        rw [copyFromVm, if_neg (hne _), getHptr_unmapped hfalse]
        simp only [List.length_replicate, List.take_replicate, htake,
          unmappedFromVm_answering v hfalse hdev (show min len 4 ≠ 0 by omega),
          List.drop_replicate, hrun, Option.map_some]
      · by_cases hfits : min len 4 ≠ 3 ∧ InDevice vm paddr (min len 4)
        · intro heq
          have hout : answered vm paddr 0 (min len 4) ++ out 0 =
              answered vm paddr (-1) (min len 4) ++ out (-1) := heq
          rw [@answered_fits _ _ _ 0 (-1) _ hfits] at hout
          refine hdiff (fun hall => hfit ?_) (List.append_cancel_left hout)
          rw [StepsFit, hlen]
          exact Or.inr ⟨Or.inr ⟨hfits.1, h.inDevice.mp hfits.2⟩, hall⟩
        · exact answered_unfit (by omega) (Nat.min_le_right _ _) hfits _ _

def Vm.withPages (vm : Vm W) : Vm W :=
  { vm with hostPage := fun _ => some ⟨0x1000, by decide, by decide⟩ }

theorem fits_of_transfers (whole : PagesWhole vm₀) (ok : SparseOk vm₀) {len : Nat}
    (hcov : Covered vm₀ paddr len) (h : Transfers vm₀ paddr len) : CopyFits vm₀ paddr len := by
  obtain ⟨pieces, tiles, hcopies⟩ := h
  by_contra hfit
  have hboard : SameBoard vm₀ vm₀.withPages := ⟨rfl, ok.congr rfl rfl⟩
  obtain ⟨out, vm', hrun, hdiff⟩ := @copyFromVm_answering _ _ _ paddr hboard whole
    (fun _ hnone => by cases hnone) _ _ (Nat.le_refl len) hcov
  have hread : ∀ v, readPieces (answering v) pieces vm₀.withPages = some (out v, vm') := by
    intro v
    have hcopy := ((hcopies (answering v) (keepsBoard_answering v) _ hboard).1
      (List.replicate len (v.setWidth 8)) List.length_replicate).1
    rw [← hcopy, physmemCopyFromVm, List.length_replicate]
    exact hrun v
  have heq := hread (-1)
  rw [readPieces_answering (-1) hboard tiles, hread 0] at heq
  exact hdiff hfit (Prod.mk.inj (Option.some.inj heq)).1

/-- The copies of a range transfer it exactly if no step in a device without a host
mapping is one of three bytes or leaves the device. -/
theorem transfers_iff (vm : Vm W) (paddr : BitVec 64) (len : Nat) (hlen : len < 2 ^ 64)
    (ok : SparseOk vm) (whole : PagesWhole vm) (hcov : Covered vm paddr len) :
    Transfers vm paddr len ↔ CopyFits vm paddr len :=
  ⟨fits_of_transfers whole ok hcov, transfers_of_fits whole hlen⟩

def ramAndDevice : Vm Unit where
  devList := [⟨0, 0, 0x1000, 0x10000, vdeviceFlagCaching, 0⟩, ⟨1, 0x1000, 8, 0, 0, 1⟩]
  devArray := fun _ => none
  sparseMap := fun _ _ => 0
  hostPage := fun _ => none
  pageAlloc := 0
  mem := fun _ => 0
  clockDivisor := 1
  world := ()
  remap_host := by decide

theorem sparseOk_ramAndDevice : SparseOk ramAndDevice := by
  intro dev hdev hsp
  have hnone : ∀ dev ∈ ramAndDevice.devList, dev.has vdeviceFlagSparse = false := by decide
  rw [hnone dev hdev] at hsp
  cases hsp

theorem devLookup_ram {p : BitVec 64} :
    devLookup ramAndDevice p false = ramAndDevice.devList.head? ↔ p.toNat < 0x1000 := by
  have hmod : p.toNat % 18446744073709551616 = p.toNat := Nat.mod_eq_of_lt p.isLt
  by_cases hp : p.toNat < 0x1000
  · simp [devLookup, ramAndDevice, VDevice.covers, BitVec.lt_def, BitVec.le_def, hmod, hp]
  · simp only [hp, iff_false]
    intro h
    have hcovers := List.find?_some h
    simp [ramAndDevice, VDevice.covers, BitVec.lt_def, hp] at h hcovers

theorem pagesWhole_ramAndDevice : PagesWhole ramAndDevice := by
  intro dev hdev hm
  have hram : ∀ dev ∈ ramAndDevice.devList, dev.mapped → ramAndDevice.devList.head? = some dev ∧
      dev.physAddr.setWidth 12 = 0#12 := by decide
  obtain ⟨hhead, hbase⟩ := hram dev hdev hm
  refine ⟨hbase, fun paddr hp p hpage => ?_⟩
  rw [← hhead, devLookup_ram] at hp ⊢
  have hnat := congrArg BitVec.toNat hpage
  rw [toNat_pageNumber, toNat_pageNumber] at hnat
  omega

theorem transfers_iff_crossing : Transfers ramAndDevice 0xffe 8 ↔ CopyFits ramAndDevice 0xffe 8 :=
  transfers_iff ramAndDevice 0xffe 8 (by decide) sparseOk_ramAndDevice pagesWhole_ramAndDevice
    (by unfold Covered; decide)

theorem not_transfers : ¬ ∀ (paddr : BitVec 64) (len : Nat), len < 2 ^ 64 →
    Covered ramAndDevice paddr len → Transfers ramAndDevice paddr len := by
  intro h
  have hthree := h 0x1000 3 (by decide) (by unfold Covered; decide)
  have hfit := fits_of_transfers pagesWhole_ramAndDevice sparseOk_ramAndDevice
    (by unfold Covered; decide) hthree
  have hstep : ¬ StepFits ramAndDevice 0x1000 3 := by decide
  cases hfit with
  | inl hz => cases hz
  | inr hfit => exact hstep hfit.1

end Dynamips
