import Mathlib.Data.List.ReduceOption
import Dynamips.Lib.Owners
import Dynamips.Ppc32JitTcb

/-! The bookkeeping of the JIT blocks: what freeing, flushing and the page
allocator keep. -/
set_option autoImplicit false

namespace Dynamips.Ppc32

open Owners

def Tcb.pages (t : Tcb) : List ExecPageId := t.jitChunks.reduceOption ++ t.jitBuffer.toList

def Jit.pages (j : Jit) (b : TcbId) : List ExecPageId := (j.tcbs b).pages

/-- How far `compiled_pages` is off the number of blocks on `tcb_list`. -/
def Jit.drift (j : Jit) : BitVec 32 := j.compiledPages - BitVec.ofNat 32 j.tcbList.length

variable {sboxArray : BitVec 8 → BitVec 32} {j j' : Jit} {work : List TcbId} {b c : TcbId}

/-- What the JIT structures keep to. `work` is the block that is being compiled
and not on `tcb_list` yet. -/
structure JitInv (sboxArray : BitVec 8 → BitVec 32) (j : Jit) (work : List TcbId) : Prop where
  pages : Partition j.execPageFreeList j.pages (j.tcbList ++ work) (List.range j.execPageCount)
  alloc : j.execPageAlloc + BitVec.ofNat 64 j.execPageFreeList.length =
    BitVec.ofNat 64 j.execPageCount
  nodup : (j.tcbList ++ work ++ j.tcbFreeList).Nodup
  fresh : ∀ b ∈ j.tcbList ++ work ++ j.tcbFreeList, b < j.mallocs
  buffer : ∀ b ∈ j.tcbList, (j.tcbs b).jitBuffer.isSome
  noFlush : ∀ b ∈ j.tcbList, (j.tcbs b).noFlush = true ↔ j.compiling = some b
  blkMap : ∀ h b, j.execBlkMap h = some b →
    b ∈ j.tcbList ∧ jitGetIaHash sboxArray (j.tcbs b).startIa = h
  physMap : ∀ h b, b ∈ j.execPhysMap h → b ∈ j.tcbList ∧ (j.tcbs b).physHash = h
  physNodup : ∀ h, (j.execPhysMap h).Nodup
  physAll : ∀ b ∈ j.tcbList, b ∈ j.execPhysMap (j.tcbs b).physHash ∧
    (j.tcbs b).physHash = jitGetPhysHash sboxArray (j.tcbs b).physPage
  lost : j.lost = false

theorem JitInv.ownersNodup (h : JitInv sboxArray j work) : (j.tcbList ++ work).Nodup :=
  (List.nodup_append.mp h.nodup).1

theorem JitInv.listNodup (h : JitInv sboxArray j work) : j.tcbList.Nodup :=
  (List.nodup_append.mp h.ownersNodup).1

/-! The operations on the free list of pages. -/

theorem sub_count_succ (x : BitVec 64) (n : Nat) :
    x - BitVec.ofNat 64 (n + 1) = x - BitVec.ofNat 64 n - 1 := by
  rw [BitVec.ofNat_add]
  grind

theorem foldl_execPageFree (l : List (Option ExecPageId)) (j : Jit) :
    l.foldl execPageFree j =
      { j with
        execPageFreeList := l.reduceOption.reverse ++ j.execPageFreeList
        execPageAlloc := j.execPageAlloc - BitVec.ofNat 64 l.reduceOption.length } := by
  induction l generalizing j with
  | nil => simp
  | cons p l ih =>
    rw [List.foldl_cons, ih]
    cases p with
    | none => rfl
    | some p =>
      have hcount : j.execPageAlloc - 1 - BitVec.ofNat 64 l.reduceOption.length =
          j.execPageAlloc - BitVec.ofNat 64 (l.reduceOption.length + 1) := by
        rw [sub_count_succ]
        grind
      simp only [execPageFree, List.reduceOption_cons_of_some, List.reverse_cons, List.append_assoc,
        List.cons_append, List.nil_append, List.length_cons, hcount]

def Tcb.stripped (t : Tcb) : Tcb :=
  { t with jitChunks := t.jitChunks.map fun _ => none, jitBuffer := none }

theorem Tcb.pages_stripped (t : Tcb) : t.stripped.pages = [] := by
  have hchunks : ∀ l : List (Option ExecPageId),
      (l.map fun _ => (none : Option ExecPageId)).reduceOption = [] := by
    intro l
    induction l with
    | nil => rfl
    | cons p l ih => simpa only [List.map_cons, List.reduceOption_cons_of_none] using ih
  simp only [Tcb.pages, Tcb.stripped, hchunks, Option.toList_none, List.append_nil]

theorem tcbFreeCodeChunks_eq (j : Jit) (b : TcbId) :
    tcbFreeCodeChunks j b =
      { j with
        execPageFreeList := (j.pages b).reverse ++ j.execPageFreeList
        execPageAlloc := j.execPageAlloc - BitVec.ofNat 64 (j.pages b).length
        tcbs := Function.update j.tcbs b (j.tcbs b).stripped } := by
  simp only [tcbFreeCodeChunks, foldl_execPageFree, Jit.pages, Tcb.pages]
  cases (j.tcbs b).jitBuffer with
  | none => simp [execPageFree, Jit.setTcb, Tcb.stripped]
  | some p =>
    simp only [execPageFree, Jit.setTcb, Tcb.stripped, Option.toList_some, List.reverse_append,
      List.reverse_cons, List.reverse_nil, List.nil_append, List.cons_append, List.length_append,
      List.length_cons, List.length_nil, Nat.zero_add, sub_count_succ]

/-! A block leaves `tcb_list`. -/

theorem tcbFree_true_eq (j : Jit) (b : TcbId) :
    tcbFree j b true =
      { j with
        tcbList := j.tcbList.erase b
        execPhysMap := Function.update j.execPhysMap (j.tcbs b).physHash
          ((j.execPhysMap (j.tcbs b).physHash).erase b)
        lost := j.lost || decide (j.compiling = some b)
        execPageFreeList := (j.pages b).reverse ++ j.execPageFreeList
        execPageAlloc := j.execPageAlloc - BitVec.ofNat 64 (j.pages b).length
        tcbs := Function.update j.tcbs b (j.tcbs b).stripped
        tcbFreeList := b :: j.tcbFreeList } := by
  simp only [tcbFree, if_true, tcbFreeCodeChunks_eq, tcbUnlink]
  rfl

structure Quiet (j j' : Jit) : Prop where
  count : j'.execPageCount = j.execPageCount
  compiling : j'.compiling = j.compiling
  drift : j'.drift = j.drift
  subset : ∀ b ∈ j'.tcbList, b ∈ j.tcbList ∧ j'.tcbs b = j.tcbs b
  current : ∀ b, j.compiling = some b →
    (b ∈ j.tcbList → b ∈ j'.tcbList) ∧ j'.tcbs b = j.tcbs b

theorem Quiet.refl (j : Jit) : Quiet j j where
  count := rfl
  compiling := rfl
  drift := rfl
  subset _ hb := ⟨hb, rfl⟩
  current _ _ := ⟨id, rfl⟩

theorem Quiet.trans {j'' : Jit} (h : Quiet j j') (h' : Quiet j' j'') : Quiet j j'' where
  count := h'.count.trans h.count
  compiling := h'.compiling.trans h.compiling
  drift := h'.drift.trans h.drift
  subset b hb := by
    obtain ⟨hb', heq'⟩ := h'.subset b hb
    obtain ⟨hb'', heq⟩ := h.subset b hb'
    exact ⟨hb'', heq'.trans heq⟩
  current b hb := by
    obtain ⟨hin, heq⟩ := h.current b hb
    obtain ⟨hin', heq'⟩ := h'.current b (h.compiling.trans hb)
    exact ⟨fun hmem => hin' (hin hmem), heq'.trans heq⟩

theorem length_erase_add_one {l : List TcbId} (hb : b ∈ l) :
    BitVec.ofNat 32 (l.erase b).length + 1 = BitVec.ofNat 32 l.length := by
  have hlen : l.length = (l.erase b).length + 1 := by
    rw [List.length_erase_of_mem hb]
    have := List.length_pos_of_mem hb
    omega
  rw [hlen, BitVec.ofNat_add]
  rfl

/-- A block that is not being translated may be freed when its entry of
`exec_blk_map` goes. -/
theorem JitInv.free (h : JitInv sboxArray j work) (hb : b ∈ j.tcbList)
    (hc : j.compiling ≠ some b) {m : BitVec 17 → Option TcbId}
    (hm : ∀ i c, m i = some c → j.execBlkMap i = some c ∧ c ≠ b) :
    JitInv sboxArray { tcbFree j b true with execBlkMap := m } work := by
  rw [tcbFree_true_eq]
  have hown := h.ownersNodup
  have hmem : b ∈ j.tcbList ++ work := List.mem_append_left _ hb
  have hother : ∀ {c}, c ≠ b → Function.update j.tcbs b (j.tcbs b).stripped c = j.tcbs c :=
    fun hne => Function.update_of_ne hne _ _
  have hin : ∀ {c}, c ∈ j.tcbList.erase b → c ∈ j.tcbList ∧ c ≠ b := fun hc =>
    ⟨List.mem_of_mem_erase hc, ((h.listNodup.mem_erase_iff).mp hc).1⟩
  have hperm : (j.tcbList.erase b ++ work ++ b :: j.tcbFreeList).Perm
      (j.tcbList ++ work ++ j.tcbFreeList) := by
    have hfirst := List.perm_cons_erase hb
    refine List.perm_middle.trans ?_
    have := (hfirst.append_right work).append_right j.tcbFreeList
    simpa only [List.cons_append] using this.symm
  constructor
  case pages =>
    have hx : ((j.pages b).reverse ++ j.execPageFreeList ++ []).Perm
        (j.execPageFreeList ++ j.pages b) := by
      rw [List.append_nil]
      exact ((List.reverse_perm _).append_right _).trans List.perm_append_comm
    have hstrip : (Function.update j.tcbs b (j.tcbs b).stripped b).pages = [] := by
      rw [Function.update_self, Tcb.pages_stripped]
    have hgone := (h.pages.exchange (g := fun c =>
      (Function.update j.tcbs b (j.tcbs b).stripped c).pages) hmem hown
      (fun c hne => by simp only [hother hne, Jit.pages]) (by rw [hstrip]; exact hx)).erase hmem
        hstrip
    rw [List.erase_append_left _ hb] at hgone
    exact hgone
  case alloc =>
    have := h.alloc
    simp only [List.length_append, List.length_reverse, BitVec.ofNat_add] at this ⊢
    rw [← this]
    generalize BitVec.ofNat 64 (j.pages b).length = x
    generalize BitVec.ofNat 64 j.execPageFreeList.length = y
    rw [← BitVec.add_assoc, BitVec.sub_add_cancel]
  case nodup => exact hperm.nodup_iff.mpr h.nodup
  case fresh => exact fun c hc' => h.fresh c (hperm.subset hc')
  case buffer =>
    intro c hcm
    obtain ⟨hcl, hne⟩ := hin hcm
    simp only [hother hne]
    exact h.buffer c hcl
  case noFlush =>
    intro c hcm
    obtain ⟨hcl, hne⟩ := hin hcm
    simp only [hother hne]
    exact h.noFlush c hcl
  case blkMap =>
    intro i c hi
    obtain ⟨hold, hne⟩ := hm i c hi
    obtain ⟨hcl, hhash⟩ := h.blkMap i c hold
    simp only [hother hne]
    exact ⟨(List.mem_erase_of_ne hne).mpr hcl, hhash⟩
  case physMap =>
    intro i c hi
    by_cases hhash : i = (j.tcbs b).physHash
    · subst hhash
      simp only [Function.update_self] at hi
      have hne : c ≠ b := ((h.physNodup _).mem_erase_iff.mp hi).1
      obtain ⟨hcl, hch⟩ := h.physMap _ c (List.mem_of_mem_erase hi)
      simp only [hother hne]
      exact ⟨(List.mem_erase_of_ne hne).mpr hcl, hch⟩
    · simp only [Function.update_of_ne hhash] at hi
      obtain ⟨hcl, hch⟩ := h.physMap i c hi
      have hne : c ≠ b := fun heq => hhash (hch.symm.trans (by rw [heq]))
      simp only [hother hne]
      exact ⟨(List.mem_erase_of_ne hne).mpr hcl, hch⟩
  case physNodup =>
    intro i
    by_cases hhash : i = (j.tcbs b).physHash
    · subst hhash
      simp only [Function.update_self]
      exact (h.physNodup _).erase b
    · simp only [Function.update_of_ne hhash]
      exact h.physNodup i
  case physAll =>
    intro c hcm
    obtain ⟨hcl, hne⟩ := hin hcm
    obtain ⟨hch, hpage⟩ := h.physAll c hcl
    simp only [hother hne]
    refine ⟨?_, hpage⟩
    by_cases hhash : (j.tcbs c).physHash = (j.tcbs b).physHash
    · rw [hhash] at hch ⊢
      rw [Function.update_self]
      exact (List.mem_erase_of_ne hne).mpr hch
    · rw [Function.update_of_ne hhash]
      exact hch
  case lost => simp [h.lost, hc]

/-- What freeing a block with the list removal does to the other fields. -/
structure Freed (j j' : Jit) (b : TcbId) : Prop where
  count : j'.execPageCount = j.execPageCount
  compiling : j'.compiling = j.compiling
  compiledPages : j'.compiledPages = j.compiledPages
  tcbList : j'.tcbList = j.tcbList.erase b
  tcbs : ∀ c, c ≠ b → j'.tcbs c = j.tcbs c

theorem freed_tcbFree (j : Jit) (b : TcbId) (m : BitVec 17 → Option TcbId) :
    Freed j { tcbFree j b true with execBlkMap := m } b := by
  rw [tcbFree_true_eq]
  exact ⟨rfl, rfl, rfl, rfl, fun c hc => Function.update_of_ne hc _ _⟩

theorem tcbRetire_eq (sboxArray : BitVec 8 → BitVec 32) (j : Jit) (b : TcbId) : ∃ m : BitVec 17 → Option TcbId,
    tcbRetire sboxArray j b = { tcbFree j b true with execBlkMap := m } ∧
      ∀ i c, m i = some c → j.execBlkMap i = some c ∧
        (c = b → i ≠ jitGetIaHash sboxArray (j.tcbs b).startIa) := by
  have hmap : (tcbFree j b true).execBlkMap = j.execBlkMap := by rw [tcbFree_true_eq]
  simp only [tcbRetire]
  split
  case isTrue heq =>
    refine ⟨_, rfl, fun i c hi => ?_⟩
    by_cases hhash : i = jitGetIaHash sboxArray (j.tcbs b).startIa
    · rw [hhash, Function.update_self] at hi
      cases hi
    · rw [Function.update_of_ne hhash, hmap] at hi
      exact ⟨hi, fun _ => hhash⟩
  case isFalse hne =>
    refine ⟨j.execBlkMap, by rw [← hmap], fun i c hi => ⟨hi, ?_⟩⟩
    rintro rfl rfl
    exact hne (hmap ▸ hi)

theorem JitInv.retire (h : JitInv sboxArray j work) (hb : b ∈ j.tcbList)
    (hc : j.compiling ≠ some b) :
    JitInv sboxArray (tcbRetire sboxArray j b) work ∧ Freed j (tcbRetire sboxArray j b) b := by
  obtain ⟨m, heq, hm⟩ := tcbRetire_eq sboxArray j b
  rw [heq]
  refine ⟨h.free hb hc fun i c hi => ?_, freed_tcbFree j b m⟩
  obtain ⟨hold, hne⟩ := hm i c hi
  refine ⟨hold, fun hcb => hne hcb ?_⟩
  subst hcb
  exact (h.blkMap i c hold).2.symm

/-! Flushing. -/

structure Flushed (jc jc' : Jit × BitVec 32) : Prop where
  count : jc'.1.execPageCount = jc.1.execPageCount
  compiling : jc'.1.compiling = jc.1.compiling
  compiledPages : jc'.1.compiledPages = jc.1.compiledPages
  freed : BitVec.ofNat 32 jc'.1.tcbList.length + jc'.2 =
    BitVec.ofNat 32 jc.1.tcbList.length + jc.2
  subset : ∀ b ∈ jc'.1.tcbList, b ∈ jc.1.tcbList ∧ jc'.1.tcbs b = jc.1.tcbs b
  current : ∀ b, jc.1.compiling = some b →
    (b ∈ jc.1.tcbList → b ∈ jc'.1.tcbList) ∧ jc'.1.tcbs b = jc.1.tcbs b

theorem Flushed.refl (jc : Jit × BitVec 32) : Flushed jc jc where
  count := rfl
  compiling := rfl
  compiledPages := rfl
  freed := rfl
  subset _ hb := ⟨hb, rfl⟩
  current _ _ := ⟨id, rfl⟩

theorem Flushed.trans {jc jc' jc'' : Jit × BitVec 32} (h : Flushed jc jc')
    (h' : Flushed jc' jc'') : Flushed jc jc'' where
  count := h'.count.trans h.count
  compiling := h'.compiling.trans h.compiling
  compiledPages := h'.compiledPages.trans h.compiledPages
  freed := h'.freed.trans h.freed
  subset b hb := by
    obtain ⟨hb', heq'⟩ := h'.subset b hb
    obtain ⟨hb'', heq⟩ := h.subset b hb'
    exact ⟨hb'', heq'.trans heq⟩
  current b hb := by
    obtain ⟨hin, heq⟩ := h.current b hb
    obtain ⟨hin', heq'⟩ := h'.current b (h.compiling.trans hb)
    exact ⟨fun hmem => hin' (hin hmem), heq'.trans heq⟩

theorem Freed.flushed {jc : Jit × BitVec 32} (h : Freed jc.1 j' b) (hinv : JitInv sboxArray jc.1 work)
    (hb : b ∈ jc.1.tcbList) (hc : jc.1.compiling ≠ some b) : Flushed jc (j', jc.2 + 1) where
  count := h.count
  compiling := h.compiling
  compiledPages := h.compiledPages
  freed := by
    have := length_erase_add_one hb
    simp only [h.tcbList]
    grind
  subset c hcm := by
    rw [h.tcbList] at hcm
    obtain ⟨hne, hcl⟩ := hinv.listNodup.mem_erase_iff.mp hcm
    exact ⟨hcl, h.tcbs c hne⟩
  current c hcc := by
    have hne : c ≠ b := fun heq => hc (heq ▸ hcc)
    rw [h.tcbList]
    exact ⟨(List.mem_erase_of_ne hne).mpr, h.tcbs c hne⟩

theorem flushBlock_inv (threshold : BitVec 32) {jc : Jit × BitVec 32} {p : TcbId}
    (h : JitInv sboxArray jc.1 work) (hp : p ∈ jc.1.tcbList) :
    JitInv sboxArray (flushBlock sboxArray threshold jc p).1 work ∧
      Flushed jc (flushBlock sboxArray threshold jc p) ∧
      ∀ c ∈ jc.1.tcbList, c ≠ p → c ∈ (flushBlock sboxArray threshold jc p).1.tcbList := by
  simp only [flushBlock]
  split
  case isTrue => exact ⟨h, .refl jc, fun c hc _ => hc⟩
  case isFalse hflush =>
    have hc : jc.1.compiling ≠ some p := fun heq => hflush ((h.noFlush p hp).mpr heq)
    split
    case isTrue =>
      obtain ⟨hinv, hfreed⟩ := h.retire hp hc
      refine ⟨hinv, hfreed.flushed h hp hc, fun c hcm hne => ?_⟩
      simp only [hfreed.tcbList]
      exact (List.mem_erase_of_ne hne).mpr hcm
    case isFalse => exact ⟨h, .refl jc, fun c hc _ => hc⟩

theorem flushBlocks_inv (threshold : BitVec 32) (l : List TcbId) {jc : Jit × BitVec 32}
    (h : JitInv sboxArray jc.1 work) (hl : l.Nodup) (hsub : ∀ p ∈ l, p ∈ jc.1.tcbList) :
    JitInv sboxArray (l.foldl (flushBlock sboxArray threshold) jc).1 work ∧
      Flushed jc (l.foldl (flushBlock sboxArray threshold) jc) := by
  induction l generalizing jc with
  | nil => exact ⟨h, .refl jc⟩
  | cons p l ih =>
    obtain ⟨hnot, hl'⟩ := List.nodup_cons.mp hl
    obtain ⟨hinv, hstep, hrest⟩ := flushBlock_inv threshold h (hsub p List.mem_cons_self)
    obtain ⟨hinv', hrun⟩ := ih hinv hl' fun c hc =>
      hrest c (hsub c (List.mem_cons_of_mem _ hc)) fun heq => hnot (heq ▸ hc)
    exact ⟨hinv', hstep.trans hrun⟩

theorem JitInv.counters (h : JitInv sboxArray j work) (n : BitVec 32) (m : Bool) :
    JitInv sboxArray { j with compiledPages := n, jitFlushMethod := m } work := by
  obtain ⟨h1, h2, h3, h4, h5, h6, h7, h8, h9, h10, h11⟩ := h
  exact ⟨h1, h2, h3, h4, h5, h6, h7, h8, h9, h10, h11⟩

theorem jitFlush_inv (threshold : BitVec 32) (h : JitInv sboxArray j work) :
    JitInv sboxArray (jitFlush sboxArray j threshold).1 work ∧
      Quiet j (jitFlush sboxArray j threshold).1 := by
  obtain ⟨hinv, hrun⟩ := flushBlocks_inv (if threshold = 0 then -1 else threshold) j.tcbList
    (show JitInv sboxArray (j, (0 : BitVec 32)).1 work from h) h.listNodup fun _ hp => hp
  refine ⟨hinv.counters _ _, hrun.count, hrun.compiling, ?_, hrun.subset, hrun.current⟩
  have hfreed := hrun.freed
  have hpages := hrun.compiledPages
  simp only [jitFlush, Jit.drift] at hfreed hpages ⊢
  rw [hpages]
  grind

theorem flushForPage_inv (h : JitInv sboxArray j work) :
    JitInv sboxArray (flushForPage sboxArray j) work ∧ Quiet j (flushForPage sboxArray j) := by
  have hmethod : ∀ {j'}, JitInv sboxArray j' work ∧ Quiet j j' →
      JitInv sboxArray { j' with jitFlushMethod := !j'.jitFlushMethod } work ∧
        Quiet j { j' with jitFlushMethod := !j'.jitFlushMethod } := by
    intro j' hj
    exact ⟨hj.1.counters _ _, hj.2.count, hj.2.compiling, hj.2.drift, hj.2.subset, hj.2.current⟩
  simp only [flushForPage]
  apply hmethod
  split
  case isTrue => exact jitFlush_inv 0 h
  case isFalse =>
    obtain ⟨hinv, hquiet⟩ := jitFlush_inv 100 h
    split
    case isTrue =>
      obtain ⟨hinv', hquiet'⟩ := jitFlush_inv 0 hinv
      exact ⟨hinv', hquiet.trans hquiet'⟩
    case isFalse => exact ⟨hinv, hquiet⟩

/-! The page allocator. -/

theorem execPageAlloc_cases (h : JitInv sboxArray j work) :
    ∃ j', JitInv sboxArray j' work ∧ Quiet j j' ∧
      (execPageAlloc sboxArray j = (j', none) ∨
        ∃ p rest, j'.execPageFreeList = p :: rest ∧ execPageAlloc sboxArray j =
          ({ j' with execPageFreeList := rest, execPageAlloc := j'.execPageAlloc + 1 }, some p)) := by
  obtain ⟨j', hj', hinv, hquiet⟩ : ∃ j', execPageAlloc sboxArray j = takePage j' ∧
      JitInv sboxArray j' work ∧ Quiet j j' := by
    simp only [execPageAlloc]
    split
    case isTrue => exact ⟨_, rfl, flushForPage_inv h⟩
    case isFalse => exact ⟨j, rfl, h, .refl j⟩
  refine ⟨j', hinv, hquiet, ?_⟩
  rw [hj']
  cases hfree : j'.execPageFreeList with
  | nil => exact .inl (by simp only [takePage, hfree])
  | cons p rest => exact .inr ⟨p, rest, rfl, by simp only [takePage, hfree]⟩

end Dynamips.Ppc32
