import Dynamips.Mempool

/-! Runs of the memory pools: each list keeps the blocks that were handed out. -/
set_option autoImplicit false

namespace Dynamips.Mempool
open BackLinks Runs

variable {s : Mem} {p : PoolPtr} {x y z : BlockPtr} {w w' : World} {op : Op}
  {lists : PoolPtr → List BlockPtr} {size : BitVec 64} {data : List Byte}

/-- The lists of all pools, with what the blocks in them say about themselves. -/
structure PoolLists (w : World) (lists : PoolPtr → List BlockPtr) : Prop where
  linked : Lists (heap w.mem) lists
  mem : ∀ p x, x ∈ lists p ↔ w.live x = some p
  block : ∀ p, ∀ x ∈ lists p, (w.mem.blocks x).tag = memblockTag ∧ (w.mem.blocks x).pool = p ∧
    (w.mem.blocks x).data.length = (w.mem.blocks x).blockSize.toNat
  count : ∀ p, (w.mem.pools p).nrBlocks = (lists p).length
  size : ∀ p, (w.mem.pools p).totalSize.toNat =
    ((lists p).map fun x => (w.mem.blocks x).blockSize.toNat).sum

def cellPrev : Cell PoolPtr BlockPtr → Option BlockPtr
  | .head _ => none
  | .next y => some y

theorem cellPrev_prevCell (b : Memblock) : cellPrev (prevCell b) = b.prev := by
  rw [prevCell]
  cases b.prev <;> rfl

theorem linked_of_segment {c : Cell PoolPtr BlockPtr} {l : List BlockPtr}
    (h : Segment (heap s) c l) : Linked s.blocks ((heap s).read c) (cellPrev c) l := by
  induction l generalizing c with
  | nil => exact h
  | cons x l ih =>
    refine ⟨h.1, ?_, ih h.2.2⟩
    rw [← Option.some.inj h.2.1, cellPrev_prevCell]

theorem PoolLists.ok (h : PoolLists w lists) : PoolsOk w := fun p =>
  ⟨lists p, linked_of_segment (h.linked.segment p), (h.linked.segment p).nodup, h.mem p, h.count p,
    h.size p⟩

theorem PoolLists.not_mem (h : PoolLists w lists) (hx : w.live x = none) (p : PoolPtr) :
    x ∉ lists p := by
  intro hmem
  rw [h.mem, hx] at hmem
  cases hmem

theorem PoolLists.around (h : PoolLists w lists) {l₁ l₂ : List BlockPtr}
    (hl : lists p = l₁ ++ x :: l₂) : (w.mem.blocks x).prev ≠ some x ∧
      (w.mem.blocks x).next ≠ some x ∧ ∀ y, (w.mem.blocks x).next = some y →
        (w.mem.blocks y).pool = (w.mem.blocks x).pool := by
  have hs := h.linked.segment p
  rw [hl] at hs
  have hnodup := hs.nodup
  have hnext : (w.mem.blocks x).next = l₂.head? := by
    have hread : (heap w.mem).read (endCell (.head p) (l₁ ++ [x])) = l₂.head? :=
      Segment.read_endCell (by simpa using hs)
    rwa [endCell_append] at hread
  have hx := (h.block p x (by simp [hl])).2.1
  refine ⟨fun hprev => ?_, fun hself => ?_, fun y hy => ?_⟩
  · have hcell := hs.pprev_endCell
    have hself : prevCell (w.mem.blocks x) = .next x := by rw [prevCell, hprev]
    have hend : endCell (.head p : Cell PoolPtr BlockPtr) l₁ = .next x :=
      (Option.some.inj hcell).symm.trans hself
    rcases endCell_cases (.head p : Cell PoolPtr BlockPtr) l₁ with heq | ⟨y, hy, heq⟩
    · rw [hend] at heq
      cases heq
    · rw [hend] at heq
      cases heq
      exact (List.nodup_append.mp hnodup).2.2 x hy x List.mem_cons_self rfl
  · rw [hnext] at hself
    have hmem := List.mem_of_mem_head? hself
    exact (List.nodup_cons.mp (List.nodup_append.mp hnodup).2.1).1 hmem
  · rw [hnext] at hy
    have hmem : y ∈ lists p := by
      rw [hl]
      exact List.mem_append_right l₁ (List.mem_cons_of_mem x (List.mem_of_mem_head? hy))
    rw [(h.block p y hmem).2.1, hx]

theorem PoolLists.first_ne (h : PoolLists w lists) (hx : w.live x = none) :
    (w.mem.pools p).blockList ≠ some x := by
  intro heq
  have hs := h.linked.segment p
  cases hl : lists p with
  | nil =>
    rw [hl] at hs
    cases heq.symm.trans hs
  | cons y l =>
    rw [hl] at hs
    cases heq.symm.trans hs.1
    exact h.not_mem hx p (by simp [hl])

theorem PoolLists.insert (h : PoolLists w lists) (hx : w.live x = none)
    (hdata : data.length = size.toNat)
    (hsize : (w.mem.pools p).totalSize.toNat + size.toNat < 2 ^ 64) :
    PoolLists ⟨insertBlock w.mem p size data x, handOver w.live none (some x) (some p)⟩
      (Function.update lists p (x :: lists p)) := by
  have hnot := h.not_mem hx
  have hfirst : (w.mem.pools p).blockList ≠ some x := h.first_ne hx
  have hkept : ∀ q, ∀ z ∈ lists q, (insertBlock w.mem p size data x).blocks z =
      { w.mem.blocks z with
        prev := if (w.mem.pools p).blockList = some z then some x else (w.mem.blocks z).prev } := by
    intro q z hz
    rw [blocks_insertBlock hfirst, if_neg]
    rintro rfl
    exact hnot q hz
  have hnew : (insertBlock w.mem p size data x).blocks x =
      ⟨memblockTag, size, (w.mem.pools p).blockList, none, p, data⟩ := by
    rw [blocks_insertBlock hfirst, if_pos rfl]
  refine ⟨?_, fun q z => ?_, fun q z hz => ?_, fun q => ?_, fun q => ?_⟩
  · rw [heap_insertBlock hfirst]
    exact @Lists.insertAt _ _ _ [] (lists p) x lists p _ _ h.linked rfl hnot
  · by_cases hzx : z = x
    · subst hzx
      by_cases hq : q = p
      · simp [hq, handOver]
      · simp [hq, handOver, hnot q, Ne.symm hq]
    · by_cases hq : q = p
      · simp [hq, handOver, hzx, Ne.symm hzx, h.mem]
      · simp [hq, handOver, Ne.symm hzx, h.mem]
  · by_cases hzx : z = x
    · subst hzx
      have hq : q = p := by
        by_contra hq
        rw [Function.update_of_ne hq] at hz
        exact hnot q hz
      rw [hnew]
      exact ⟨rfl, hq.symm, hdata⟩
    · have hzq : z ∈ lists q := by
        by_cases hq : q = p
        · simpa [hq, hzx] using hz
        · simpa [hq] using hz
      rw [hkept q z hzq]
      exact h.block q z hzq
  · by_cases hq : q = p
    · simp [hq, pools_insertBlock, h.count]
    · simp [hq, pools_insertBlock, h.count]
  · have hsum : ∀ q, ((lists q).map fun z =>
        ((insertBlock w.mem p size data x).blocks z).blockSize.toNat).sum =
          (w.mem.pools q).totalSize.toNat := by
      intro q
      rw [h.size q]
      congr 1
      refine List.map_congr_left fun z hz => ?_
      rw [hkept q z hz]
    by_cases hq : q = p
    · subst hq
      rw [Function.update_self, List.map_cons, List.sum_cons, hsum, hnew]
      simp only [pools_insertBlock, if_true, BitVec.toNat_add]
      omega
    · rw [Function.update_of_ne hq, hsum]
      simp [pools_insertBlock, hq]

theorem PoolLists.release (h : PoolLists w lists) (hx : w.live x = some p) :
    ∃ lists', PoolLists ⟨releaseBlock w.mem x, handOver w.live (some x) none none⟩ lists' := by
  obtain ⟨l₁, l₂, hl⟩ := List.append_of_mem ((h.mem p x).mpr hx)
  obtain ⟨hp, hn, hpool⟩ := h.around hl
  have hxp := (h.block p x ((h.mem p x).mpr hx)).2.1
  have hnodup := (h.linked.segment p).nodup
  rw [hl] at hnodup
  have hnot : x ∉ l₁ ++ l₂ := (List.nodup_cons.mp (List.perm_middle.nodup_iff.mp hnodup)).1
  have hmem : ∀ q z, z ∈ Function.update lists p (l₁ ++ l₂) q ↔ z ∈ lists q ∧ z ≠ x := by
    intro q z
    by_cases hq : q = p
    · subst hq
      rw [Function.update_self, hl]
      constructor
      · intro hz
        refine ⟨by simp at hz ⊢; tauto, ?_⟩
        rintro rfl
        exact hnot hz
      · rintro ⟨hz, hne⟩
        simpa [hne] using hz
    · rw [Function.update_of_ne hq]
      refine ⟨fun hz => ⟨hz, ?_⟩, fun hz => hz.1⟩
      rintro rfl
      exact hq (h.linked.disjoint q p z hz ((h.mem p z).mpr hx))
  have hkept : ∀ z, z ≠ x → ((releaseBlock w.mem x).blocks z).tag = (w.mem.blocks z).tag ∧
      ((releaseBlock w.mem x).blocks z).blockSize = (w.mem.blocks z).blockSize ∧
        ((releaseBlock w.mem x).blocks z).pool = (w.mem.blocks z).pool ∧
          ((releaseBlock w.mem x).blocks z).data = (w.mem.blocks z).data := by
    intro z hz
    simp [blocks_releaseBlock hp hn, hz]
  refine ⟨Function.update lists p (l₁ ++ l₂), ?_, fun q z => ?_, fun q z hz => ?_, fun q => ?_,
    fun q => ?_⟩
  · rw [heap_releaseBlock hp hn hpool]
    exact h.linked.unlink hl
  · rw [hmem, h.mem]
    by_cases hzx : z = x
    · simp [handOver, hzx]
    · simp [handOver, hzx, Ne.symm hzx]
  · rw [hmem] at hz
    obtain ⟨htag, hsize, hpool, hdata⟩ := hkept z hz.2
    rw [htag, hsize, hpool, hdata]
    exact h.block q z hz.1
  · by_cases hq : q = p
    · have hcount := h.count p
      rw [hl] at hcount
      simp only [List.length_append, List.length_cons] at hcount
      simp [hq, pools_releaseBlock hp hn, hxp, hcount]
      omega
    · simp [hq, pools_releaseBlock hp hn, hxp, h.count]
  · have hsum : ∀ l : List BlockPtr, x ∉ l →
        (l.map fun z => ((releaseBlock w.mem x).blocks z).blockSize.toNat).sum =
          (l.map fun z => (w.mem.blocks z).blockSize.toNat).sum := by
      intro l hnot
      congr 1
      refine List.map_congr_left fun z hz => ?_
      rw [(hkept z fun heq => hnot (heq ▸ hz)).2.1]
    by_cases hq : q = p
    · subst hq
      have hsize := h.size q
      rw [Function.update_self, hsum _ hnot]
      rw [hl] at hsize
      simp only [List.map_append, List.map_cons, List.sum_append, List.sum_cons] at hsize ⊢
      simp only [pools_releaseBlock hp hn, hxp, if_true]
      rw [BitVec.toNat_sub_of_le (BitVec.le_def.mpr (by omega))]
      omega
    · have hnot : x ∉ lists q := fun hz => hq (h.linked.disjoint q p x hz ((h.mem p x).mpr hx))
      rw [Function.update_of_ne hq, hsum _ hnot, ← h.size q]
      simp [pools_releaseBlock hp hn, hxp, hq]

theorem allocate_some {zeroed : Bool} {storage : Option BlockPtr} {junk : Nat → Byte} {s' : Mem}
    (h : allocate s p size zeroed storage junk = some (x, s')) : storage = some x ∧
      (s.pools p).totalSize.toNat + size.toNat < 2 ^ 64 ∧
        ∃ data : List Byte, data.length = size.toNat ∧ s' = insertBlock s p size data x := by
  unfold allocate at h
  split at h
  · cases h
  · rename_i hfits
    obtain ⟨y, hy, heq⟩ := Option.map_eq_some_iff.mp h
    cases heq
    obtain ⟨-, hsize, -⟩ := not_or.mp hfits |>.imp id not_or.mp
    have hall : (BitVec.allOnes 64).toNat = 2 ^ 64 - 1 := BitVec.toNat_allOnes
    have hlt := (s.pools p).totalSize.isLt
    have hle := BitVec.le_def.mp (BitVec.not_lt.mp hsize)
    rw [BitVec.toNat_sub_of_le (BitVec.le_def.mpr (by omega)), hall] at hle
    have hbound : (s.pools p).totalSize.toNat + size.toNat < 2 ^ 64 := by omega
    refine ⟨hy, hbound, _, ?_, rfl⟩
    cases zeroed <;> simp

theorem PoolLists.setData (h : PoolLists w lists) {x : BlockPtr}
    (hdata : data.length = (w.mem.blocks x).blockSize.toNat) :
    PoolLists ⟨w.mem.setBlock x { w.mem.blocks x with data }, w.live⟩ lists := by
  have hblock : ∀ z, (w.mem.setBlock x { w.mem.blocks x with data }).blocks z =
      { w.mem.blocks z with data := if z = x then data else (w.mem.blocks z).data } := by
    intro z
    by_cases hz : z = x
    · simp [hz]
    · simp [hz]
  have hheap : heap (w.mem.setBlock x { w.mem.blocks x with data }) = heap w.mem := by
    refine heap_eq (fun c => ?_) fun z => ?_
    · cases c with
      | head q => rfl
      | next z => simp only [heap, Heap.read, hblock]
    · simp only [heap, prevCell, hblock]
  refine ⟨?_, h.mem, fun q z hz => ?_, h.count, fun q => ?_⟩
  · rw [hheap]
    exact h.linked
  · obtain ⟨htag, hpool, hlen⟩ := h.block q z hz
    rw [hblock]
    refine ⟨htag, hpool, ?_⟩
    by_cases hzx : z = x
    · simpa [hzx] using hdata
    · simpa [hzx] using hlen
  · simp only [hblock]
    exact h.size q

theorem PoolLists.alloc {zeroed : Bool} {storage : Option BlockPtr} {junk : Nat → Byte} {s' : Mem}
    (h : PoolLists w lists) (hen : ∀ x, storage = some x → w.live x = none)
    (halloc : allocate w.mem p size zeroed storage junk = some (x, s')) :
    ∃ lists', PoolLists ⟨s', handOver w.live none (some x) (some p)⟩ lists' := by
  obtain ⟨hstorage, hsize, data, hdata, rfl⟩ := allocate_some halloc
  exact ⟨_, h.insert (hen x hstorage) hdata hsize⟩

/-- A block that is moved: the lists, and what the new block holds. -/
theorem PoolLists.realloc {storage : Option BlockPtr} {junk : Nat → Byte} {s' : Mem}
    (h : PoolLists w lists) (hx : w.live x = some p)
    (hen : ∀ y, storage = some y → w.live y = none)
    (halloc : allocate w.mem p size false storage junk = some (y, s')) :
    (∃ lists', PoolLists ⟨releaseBlock (copyBlock s' x y size) x,
      handOver w.live (some x) (some y) (some p)⟩ lists') ∧
    ((releaseBlock (copyBlock s' x y size) x).blocks y).blockSize = size ∧
      ((releaseBlock (copyBlock s' x y size) x).blocks y).data.length = size.toNat ∧
        ((releaseBlock (copyBlock s' x y size) x).blocks y).data.take
            (min (w.mem.blocks x).blockSize.toNat size.toNat) =
          (w.mem.blocks x).data.take (min (w.mem.blocks x).blockSize.toNat size.toNat) := by
  obtain ⟨hstorage, hsize, data, hdata, rfl⟩ := allocate_some halloc
  have hy := hen y hstorage
  have hxy : x ≠ y := by
    rintro rfl
    rw [hx] at hy
    cases hy
  have hfirst : (w.mem.pools p).blockList ≠ some y := h.first_ne hy
  have hnew : (insertBlock w.mem p size data y).blocks y =
      ⟨memblockTag, size, (w.mem.pools p).blockList, none, p, data⟩ := by
    rw [blocks_insertBlock hfirst, if_pos rfl]
  have hold : ((insertBlock w.mem p size data y).blocks x).blockSize = (w.mem.blocks x).blockSize ∧
      ((insertBlock w.mem p size data y).blocks x).data = (w.mem.blocks x).data := by
    rw [blocks_insertBlock hfirst, if_neg hxy]
    exact ⟨rfl, rfl⟩
  have hxdata := (h.block p x ((h.mem p x).mpr hx)).2.2
  have htake : ((w.mem.blocks x).data.take
      (min (w.mem.blocks x).blockSize.toNat size.toNat)).length =
        min (w.mem.blocks x).blockSize.toNat size.toNat := by
    rw [List.length_take, hxdata]
    omega
  have hcopy : (memcpy data 0 ((w.mem.blocks x).data.take
      (min (w.mem.blocks x).blockSize.toNat size.toNat))).length = size.toNat := by
    rw [length_memcpy (by rw [htake]; omega), hdata]
  have hins := h.insert hy hdata hsize
  have hset : copyBlock (insertBlock w.mem p size data y) x y size =
      (insertBlock w.mem p size data y).setBlock y
        { (insertBlock w.mem p size data y).blocks y with
          data := memcpy data 0 ((w.mem.blocks x).data.take
            (min (w.mem.blocks x).blockSize.toNat size.toNat)) } := by
    rw [copyBlock, hold.1, hold.2, hnew]
  have hlists := @PoolLists.setData _ _ _ hins y (by rw [hnew]; exact hcopy)
  simp only at hlists
  rw [← hset] at hlists
  have hlive : handOver w.live none (some y) (some p) x = some p := by
    simp [handOver, Ne.symm hxy, hx]
  have hmoved : handOver (handOver w.live none (some y) (some p)) (some x) none none =
      handOver w.live (some x) (some y) (some p) := by
    funext z
    by_cases hzx : z = x
    · simp [handOver, hzx, Ne.symm hxy]
    · by_cases hzy : z = y
      · simp [handOver, hzy, hxy]
      · simp [handOver, Ne.symm hzx, Ne.symm hzy]
  refine ⟨?_, ?_⟩
  · rw [← hmoved]
    exact hlists.release hlive
  · obtain ⟨l₁, l₂, hl⟩ := List.append_of_mem ((hlists.mem p x).mpr hlive)
    obtain ⟨hp, hn, -⟩ := hlists.around hl
    rw [blocks_releaseBlock hp hn, if_neg (Ne.symm hxy), hset]
    simp only [blocks_setBlock, if_true, hnew]
    refine ⟨trivial, hcopy, ?_⟩
    simp only [memcpy, List.take_zero, List.nil_append]
    rw [List.take_left' htake]

theorem lists_realloc {addr storage : Option BlockPtr} {junk : Nat → Byte}
    (h : PoolLists w lists) (hen : Enabled w (.realloc addr size storage junk)) :
    (∃ lists', PoolLists (next w (.realloc addr size storage junk)) lists') ∧
      ReallocOk w (.realloc addr size storage junk) := by
  simp only [next, ReallocOk]
  cases addr with
  | none => exact ⟨⟨lists, by simpa [mpRealloc] using h⟩, by simp [mpRealloc]⟩
  | some x =>
    cases hlive : w.live x with
    | none =>
      have htag := (hen.1 x rfl).resolve_left (not_not.mpr hlive)
      have hnone : mpRealloc w.mem (some x) size storage junk = (none, w.mem) := by
        simp [mpRealloc, valid, htag]
      rw [hnone]
      exact ⟨⟨lists, h⟩, by simp⟩
    | some p =>
      obtain ⟨htag, hpool, -⟩ := h.block p x ((h.mem p x).mpr hlive)
      cases halloc : allocate w.mem p size false storage junk with
      | none =>
        have hnone : mpRealloc w.mem (some x) size storage junk = (none, w.mem) := by
          simp [mpRealloc, valid, htag, hpool, halloc]
        rw [hnone]
        exact ⟨⟨lists, h⟩, by simp⟩
      | some r =>
        obtain ⟨y, s'⟩ := r
        have hsome : mpRealloc w.mem (some x) size storage junk =
            (some y, releaseBlock (copyBlock s' x y size) x) := by
          simp [mpRealloc, valid, htag, hpool, halloc]
        obtain ⟨hlists, hdata⟩ := h.realloc hlive hen.2 halloc
        rw [hsome]
        refine ⟨by simpa [hlive] using hlists, by simp, ?_⟩
        rintro x' y' ⟨⟩ ⟨⟩
        exact hdata

theorem PoolLists.clear (h : PoolLists w lists) (p : PoolPtr) :
    PoolLists (next w (.freeAllBlocks (some p))) (Function.update lists p []) := by
  have hmem : ∀ q x, x ∈ Function.update lists p [] q ↔ x ∈ lists q ∧ q ≠ p := by
    intro q x
    by_cases hq : q = p
    · simp [hq]
    · simp [hq]
  have hpool : ∀ q, q ≠ p → (mpFreeAllBlocks w.mem (some p)).pools q = w.mem.pools q := by
    intro q hq
    simp [mpFreeAllBlocks, hq]
  refine ⟨⟨fun q => ?_, fun q q' x hx hx' => ?_⟩, fun q x => ?_, fun q x hx => ?_, fun q => ?_,
    fun q => ?_⟩
  · by_cases hq : q = p
    · subst hq
      rw [Function.update_self]
      simp [Segment, heap, Heap.read, next, mpFreeAllBlocks]
    · rw [Function.update_of_ne hq]
      refine (h.linked.segment q).congr ?_ (fun x _ => rfl) fun x _ => rfl
      simp [heap, Heap.read, next, hpool q hq]
  · rw [hmem] at hx hx'
    exact h.linked.disjoint q q' x hx.1 hx'.1
  · rw [hmem, h.mem]
    by_cases hx : w.live x = some p
    · simp [next, hx, eq_comm]
    · simp only [next, if_neg hx]
      refine ⟨fun hq => hq.1, fun hq => ⟨hq, ?_⟩⟩
      rintro rfl
      exact hx hq
  · exact h.block q x ((hmem q x).mp hx).1
  · by_cases hq : q = p
    · simp [hq, next, mpFreeAllBlocks]
    · simp [hq, next, hpool q hq, h.count]
  · by_cases hq : q = p
    · simp [hq, next, mpFreeAllBlocks]
    · rw [Function.update_of_ne hq]
      simp only [next, hpool q hq]
      exact h.size q

theorem lists_step (h : ∃ lists, PoolLists w lists) (hs : Step w op w') :
    ∃ lists, PoolLists w' lists := by
  obtain ⟨lists, h⟩ := h
  obtain ⟨hen, rfl⟩ := hs
  cases op with
  | alloc pool size zeroed storage junk =>
    cases pool with
    | none => exact ⟨lists, by simpa [next, mpAlloc] using h⟩
    | some p =>
      cases halloc : allocate w.mem p size zeroed storage junk with
      | none => exact ⟨lists, by simpa [next, mpAlloc, halloc] using h⟩
      | some r =>
        obtain ⟨x, s'⟩ := r
        simpa [next, mpAlloc, halloc] using h.alloc hen halloc
  | realloc addr size storage junk => exact (lists_realloc h hen).1
  | free addr =>
    cases addr with
    | none => exact ⟨lists, by simpa [next, mpFree] using h⟩
    | some x =>
      cases hlive : w.live x with
      | none =>
        have htag := (hen x rfl).resolve_left (not_not.mpr hlive)
        exact ⟨lists, by simpa [next, mpFree, valid, htag] using h⟩
      | some p =>
        have htag := (h.block p x ((h.mem p x).mpr hlive)).1
        simpa [next, mpFree, valid, htag] using h.release hlive
  | freeAllBlocks pool =>
    cases pool with
    | none =>
      have hsame : (fun x => if w.live x = none then none else w.live x) = w.live := by
        funext x
        split
        · rename_i hx
          exact hx.symm
        · rfl
      exact ⟨lists, by simpa [next, mpFreeAllBlocks, hsame] using h⟩
    | some p => exact ⟨_, h.clear p⟩
  | write x data => exact ⟨lists, h.setData hen.2⟩

theorem lists_init (blocks : BlockPtr → Memblock) : PoolLists (World.init blocks) fun _ => [] where
  linked := ⟨fun _ => rfl, fun _ _ _ hx => absurd hx List.not_mem_nil⟩
  mem p x := by simp [World.init]
  block _ _ hx := absurd hx List.not_mem_nil
  count _ := rfl
  size _ := rfl

/-- In every run the list of each pool has its blocks and the pool counts them, and a
block that is moved keeps its bytes. -/
theorem pools_ok {blocks : BlockPtr → Memblock} {trace : List (World × Op)}
    (hrun : Run Step (World.init blocks) trace w) :
    Always PoolsOk trace w ∧ AllSteps ReallocOk trace := by
  have hlists : Always (fun w => ∃ lists, PoolLists w lists) trace w :=
    hrun.always (fun _ _ _ h hs => lists_step h hs) ⟨_, lists_init blocks⟩
  refine ⟨⟨?_, fun x hx => ?_⟩, ?_⟩
  · obtain ⟨lists, h⟩ := hlists.1
    exact h.ok
  · obtain ⟨lists, h⟩ := hlists.2 x hx
    exact h.ok
  · clear hlists
    induction hrun with
    | start => simp [AllSteps]
    | @next trace t t' op hrun hs ih =>
      rw [allSteps_snoc]
      refine ⟨ih, ?_⟩
      obtain ⟨lists, h⟩ := (hrun.always (fun _ _ _ h hs => lists_step h hs)
        ⟨_, lists_init blocks⟩).1
      cases op with
      | realloc addr size storage junk => exact (lists_realloc h hs.1).2
      | _ => trivial

/-- Two blocks of a pool, of which the older one is moved and then taken away. -/
def moveOps : List Op :=
  [.alloc (some 0) 8 true (some 100) fun _ => 0, .alloc (some 0) 4 true (some 101) fun _ => 0,
    .realloc (some 100) 16 (some 102) fun _ => 0, .free (some 102), .freeAllBlocks (some 0)]

def blankWorld : World := World.init fun _ => ⟨0, 0, none, none, 0, []⟩

theorem pools_ok_moved : Always PoolsOk (history next blankWorld moveOps)
    (moveOps.foldl next blankWorld) ∧ AllSteps ReallocOk (history next blankWorld moveOps) := by
  refine pools_ok ((run_history next blankWorld moveOps).enabled ?_)
  simp only [moveOps, history, allSteps_cons]
  refine ⟨?_, ?_, ⟨?_, ?_⟩, ?_, trivial, by simp [AllSteps]⟩
  · rintro x ⟨⟩
    rfl
  · rintro x ⟨⟩
    rfl
  · rintro x ⟨⟩
    exact Or.inl (by decide)
  · rintro x ⟨⟩
    rfl
  · rintro x ⟨⟩
    exact Or.inl (by decide)

end Dynamips.Mempool
