import Dynamips.Lib.Runs
import Dynamips.Ppc32JitPages

/-! The JIT blocks over whole runs: compiling, recompiling, entering and
retiring them. -/
set_option autoImplicit false

namespace Dynamips.Ppc32

open Owners Runs

variable {sboxArray : BitVec 8 → BitVec 32} {j j' : Jit} {work : List TcbId} {b c : TcbId}

/-! Translating the code of a block. -/

structure Tcb.Same (t t' : Tcb) : Prop where
  startIa : t'.startIa = t.startIa
  physPage : t'.physPage = t.physPage
  physHash : t'.physHash = t.physHash
  noFlush : t'.noFlush = t.noFlush
  buffer : t.jitBuffer.isSome → t'.jitBuffer.isSome

theorem Tcb.Same.refl (t : Tcb) : t.Same t := ⟨rfl, rfl, rfl, rfl, id⟩

theorem Tcb.Same.trans {t t' t'' : Tcb} (h : t.Same t') (h' : t'.Same t'') : t.Same t'' where
  startIa := h'.startIa.trans h.startIa
  physPage := h'.physPage.trans h.physPage
  physHash := h'.physHash.trans h.physHash
  noFlush := h'.noFlush.trans h.noFlush
  buffer := h'.buffer ∘ h.buffer

theorem JitInv.replace {t : Tcb} {free : List ExecPageId} {n : BitVec 64} {cur : Option TcbId}
    (h : JitInv sboxArray j work) (hb : b ∈ j.tcbList ++ work)
    (hx : (free ++ t.pages).Perm (j.execPageFreeList ++ j.pages b))
    (hn : n + BitVec.ofNat 64 free.length = BitVec.ofNat 64 j.execPageCount)
    (hia : b ∈ j.tcbList → t.startIa = (j.tcbs b).startIa)
    (hphys : b ∈ j.tcbList → t.physHash = (j.tcbs b).physHash ∧ t.physPage = (j.tcbs b).physPage)
    (hbuf : b ∈ j.tcbList → t.jitBuffer.isSome)
    (hflush : ∀ c ∈ j.tcbList,
      (Function.update j.tcbs b t c).noFlush = true ↔ cur = some c) :
    JitInv sboxArray ({ j with
      execPageFreeList := free, execPageAlloc := n, compiling := cur }.setTcb b t) work := by
  have hself : Function.update j.tcbs b t b = t := Function.update_self _ _ _
  have hother : ∀ {c}, c ≠ b → Function.update j.tcbs b t c = j.tcbs c :=
    fun hne => Function.update_of_ne hne _ _
  have hkept : ∀ c ∈ j.tcbList, (Function.update j.tcbs b t c).startIa = (j.tcbs c).startIa ∧
      (Function.update j.tcbs b t c).physHash = (j.tcbs c).physHash ∧
      (Function.update j.tcbs b t c).physPage = (j.tcbs c).physPage := by
    intro c hcl
    by_cases hc : c = b
    · subst hc
      rw [hself]
      exact ⟨hia hcl, hphys hcl⟩
    · rw [hother hc]
      exact ⟨rfl, rfl, rfl⟩
  constructor
  case pages =>
    refine h.pages.exchange hb h.ownersNodup (fun c hc => ?_) ?_
    · simp only [Jit.pages, Jit.setTcb, hother hc]
    · simpa only [Jit.pages, Jit.setTcb, hself] using hx
  case alloc => exact hn
  case nodup => exact h.nodup
  case fresh => exact h.fresh
  case buffer =>
    intro c hc
    simp only [Jit.setTcb]
    by_cases hcb : c = b
    · subst hcb
      rw [hself]
      exact hbuf hc
    · rw [hother hcb]
      exact h.buffer c hc
  case noFlush => exact hflush
  case blkMap =>
    intro i c hi
    obtain ⟨hcl, heq⟩ := h.blkMap i c hi
    simp only [Jit.setTcb, (hkept c hcl).1]
    exact ⟨hcl, heq⟩
  case physMap =>
    intro i c hi
    obtain ⟨hcl, heq⟩ := h.physMap i c hi
    simp only [Jit.setTcb, (hkept c hcl).2.1]
    exact ⟨hcl, heq⟩
  case physNodup => exact h.physNodup
  case physAll =>
    intro c hcl
    simp only [Jit.setTcb, (hkept c hcl).2.1, (hkept c hcl).2.2]
    exact h.physAll c hcl
  case lost => exact h.lost

theorem JitInv.assign {t : Tcb} {free : List ExecPageId} {n : BitVec 64}
    (h : JitInv sboxArray j work) (hb : b ∈ j.tcbList ++ work)
    (hx : (free ++ t.pages).Perm (j.execPageFreeList ++ j.pages b))
    (hn : n + BitVec.ofNat 64 free.length = BitVec.ofNat 64 j.execPageCount)
    (hs : (j.tcbs b).Same t) :
    JitInv sboxArray
      ({ j with execPageFreeList := free, execPageAlloc := n }.setTcb b t) work := by
  refine h.replace hb hx hn (fun _ => hs.startIa) (fun _ => ⟨hs.physHash, hs.physPage⟩)
    (fun hl => hs.buffer (h.buffer b hl)) ?_
  intro c hc
  by_cases hcb : c = b
  · subst hcb
    rw [Function.update_self, hs.noFlush]
    exact h.noFlush c hc
  · rw [Function.update_of_ne hcb]
    exact h.noFlush c hc

theorem JitInv.setTcb (t : Tcb) (h : JitInv sboxArray j work) (hb : b ∈ j.tcbList ++ work)
    (hp : t.pages = (j.tcbs b).pages) (hs : (j.tcbs b).Same t) : JitInv sboxArray (j.setTcb b t) work :=
  h.assign hb (by rw [hp]; rfl) h.alloc hs

theorem JitInv.give {t : Tcb} {p : ExecPageId} {rest : List ExecPageId}
    (h : JitInv sboxArray j work) (hb : b ∈ j.tcbList ++ work)
    (hfree : j.execPageFreeList = p :: rest) (hp : t.pages.Perm (p :: j.pages b))
    (hs : (j.tcbs b).Same t) :
    JitInv sboxArray ({ j with execPageFreeList := rest, execPageAlloc := j.execPageAlloc + 1
      }.setTcb b t) work := by
  refine h.assign hb ?_ ?_ hs
  · rw [hfree]
    exact (hp.append_left rest).trans List.perm_middle
  · have := h.alloc
    rw [hfree, List.length_cons, BitVec.ofNat_add] at this
    rw [← this]
    grind

structure Beside (b : TcbId) (j j' : Jit) : Prop where
  count : j'.execPageCount = j.execPageCount
  drift : j'.drift = j.drift
  subset : ∀ c ∈ j'.tcbList, c ∈ j.tcbList ∧ (c ≠ b → j'.tcbs c = j.tcbs c)

theorem Beside.trans {j'' : Jit} (h : Beside b j j') (h' : Beside b j' j'') : Beside b j j'' where
  count := h'.count.trans h.count
  drift := h'.drift.trans h.drift
  subset c hc := by
    obtain ⟨hc', heq'⟩ := h'.subset c hc
    obtain ⟨hc'', heq⟩ := h.subset c hc'
    exact ⟨hc'', fun hne => (heq' hne).trans (heq hne)⟩

structure Translated (b : TcbId) (j j' : Jit) : Prop extends Beside b j j' where
  compiling : j'.compiling = j.compiling
  kept : b ∈ j.tcbList → b ∈ j'.tcbList
  same : (j.tcbs b).Same (j'.tcbs b)

theorem Translated.trans {j'' : Jit} (h : Translated b j j') (h' : Translated b j' j'') :
    Translated b j j'' where
  toBeside := h.toBeside.trans h'.toBeside
  compiling := h'.compiling.trans h.compiling
  kept := h'.kept ∘ h.kept
  same := h.same.trans h'.same

theorem Quiet.translated (h : Quiet j j') (hc : j.compiling = some b) : Translated b j j' where
  count := h.count
  compiling := h.compiling
  drift := h.drift
  subset c hcm := ⟨(h.subset c hcm).1, fun _ => (h.subset c hcm).2⟩
  kept := (h.current b hc).1
  same := (h.current b hc).2 ▸ .refl _

theorem translated_assign {t : Tcb} {free : List ExecPageId} {n : BitVec 64}
    (hs : (j.tcbs b).Same t) : Translated b j
      ({ j with execPageFreeList := free, execPageAlloc := n }.setTcb b t) where
  count := rfl
  compiling := rfl
  drift := rfl
  subset c hc := ⟨hc, fun hne => Function.update_of_ne hne _ _⟩
  kept := id
  same := by simpa only [Jit.setTcb, Function.update_self] using hs

theorem translated_setTcb {t : Tcb} (hs : (j.tcbs b).Same t) : Translated b j (j.setTcb b t) :=
  translated_assign hs

/-- The state of a translation of `b` in progress. -/
structure Translating (sboxArray : BitVec 8 → BitVec 32) (j : Jit) (work : List TcbId)
    (b : TcbId) : Prop where
  inv : JitInv sboxArray j work
  compiling : j.compiling = some b
  owner : b ∈ j.tcbList ++ work
  buffer : (j.tcbs b).jitBuffer.isSome

theorem Translating.next (h : Translating sboxArray j work b) (hinv : JitInv sboxArray j' work)
    (ht : Translated b j j') : Translating sboxArray j' work b where
  inv := hinv
  compiling := ht.compiling.trans h.compiling
  owner := by
    cases List.mem_append.mp h.owner with
    | inl hl => exact List.mem_append_left _ (ht.kept hl)
    | inr hw => exact List.mem_append_right _ hw
  buffer := ht.same.buffer h.buffer

theorem Tcb.pages_link {t : Tcb} {p : ExecPageId} : (t.link p).pages.Perm (p :: t.pages) := by
  simp only [Tcb.pages, Tcb.link, List.reduceOption_append, Option.toList_some]
  cases t.jitBuffer with
  | none =>
    rw [List.reduceOption_singleton]
    simp
  | some q =>
    rw [List.reduceOption_singleton]
    exact (@List.perm_append_comm _ _ [p])

theorem Tcb.same_link (t : Tcb) (p : ExecPageId) : t.Same (t.link p) :=
  ⟨rfl, rfl, rfl, rfl, fun _ => rfl⟩

theorem tcbAdjustBuffer_spec (h : Translating sboxArray j work b) :
    JitInv sboxArray (tcbAdjustBuffer sboxArray j b) work ∧
      Translated b j (tcbAdjustBuffer sboxArray j b) := by
  have hrefl : Translated b j j := (Quiet.refl j).translated h.compiling
  simp only [tcbAdjustBuffer]
  split
  case isTrue => exact ⟨h.inv, hrefl⟩
  case isFalse =>
    split
    case isTrue => exact ⟨h.inv, hrefl⟩
    case isFalse =>
      obtain ⟨j', hinv, hquiet, hnone | ⟨p, rest, hfree, hsome⟩⟩ := execPageAlloc_cases h.inv
      · rw [hnone]
        exact ⟨hinv, hquiet.translated h.compiling⟩
      · rw [hsome]
        have ht := hquiet.translated h.compiling
        have hs := (j'.tcbs b).same_link p
        exact ⟨hinv.give (h.next hinv ht).owner hfree Tcb.pages_link hs,
          ht.trans (translated_assign hs)⟩

theorem Tcb.same_output (t : Tcb) (target : Bool) (pos : BitVec 10) (size : Nat) :
    t.Same (t.output target pos size) :=
  ⟨rfl, rfl, rfl, rfl, id⟩

theorem opGenInsns_spec (code : PageCode) (target : BitVec 10 → Bool) (l : List (BitVec 10))
    (h : Translating sboxArray j work b) :
    JitInv sboxArray (opGenInsns sboxArray code target b j l) work ∧
      Translated b j (opGenInsns sboxArray code target b j l) := by
  induction l generalizing j with
  | nil => exact ⟨h.inv, (Quiet.refl j).translated h.compiling⟩
  | cons pos l ih =>
    have hs := (j.tcbs b).same_output (target pos) pos (code.size pos)
    have hout := translated_setTcb hs
    have h1 := h.next (h.inv.setTcb ((j.tcbs b).output _ _ _) h.owner rfl hs) hout
    obtain ⟨hinv, hadjust⟩ := tcbAdjustBuffer_spec h1
    obtain ⟨hinv', hrest⟩ := ih (h1.next hinv hadjust)
    exact ⟨hinv', (hout.trans hadjust).trans hrest⟩

theorem pageJump_spec (n : Nat) (h : Translating sboxArray j work b) :
    JitInv sboxArray (j.setTcb b { j.tcbs b with jitPtr := (j.tcbs b).jitPtr + n }) work ∧
      Translated b j (j.setTcb b { j.tcbs b with jitPtr := (j.tcbs b).jitPtr + n }) := by
  have hs : (j.tcbs b).Same { j.tcbs b with jitPtr := (j.tcbs b).jitPtr + n } :=
    ⟨rfl, rfl, rfl, rfl, id⟩
  exact ⟨h.inv.setTcb { j.tcbs b with jitPtr := (j.tcbs b).jitPtr + n } h.owner rfl hs,
    translated_setTcb hs⟩

theorem opGenPage_spec (code : PageCode) (ia : BitVec 32) (h : Translating sboxArray j work b) :
    JitInv sboxArray (opGenPage sboxArray code ia j b) work ∧
      Translated b j (opGenPage sboxArray code ia j b) := by
  obtain ⟨hinv, hgen⟩ := opGenInsns_spec code (branchTarget code ia (j.tcbs b))
    ((List.range PPC32_INSN_PER_PAGE).map (BitVec.ofNat 10)) h
  obtain ⟨hinv', hjump⟩ := pageJump_spec code.pageJump (h.next hinv hgen)
  exact ⟨hinv', hgen.trans hjump⟩

/-! A block from its allocation to its place on `tcb_list`. -/

theorem JitInv.enter {fl : List TcbId} {m : Nat} (h : JitInv sboxArray j [])
    (hc : j.compiling = none) (hn : (j.tcbList ++ [b] ++ fl).Nodup)
    (hm : ∀ c ∈ j.tcbList ++ [b] ++ fl, c < m) :
    JitInv sboxArray ({ j with tcbFreeList := fl, mallocs := m, compiling := some b
      }.setTcb b Tcb.zero) [b] := by
  have hnot : b ∉ j.tcbList := fun hb =>
    (List.nodup_append.mp (List.nodup_append.mp hn).1).2.2 b hb b (List.mem_singleton_self b) rfl
  have hother : ∀ {c}, c ∈ j.tcbList → Function.update j.tcbs b Tcb.zero c = j.tcbs c := by
    intro c hcl
    have hne : c ≠ b := fun heq => hnot (heq ▸ hcl)
    exact Function.update_of_ne hne _ _
  constructor
  case pages =>
    have hlist : Partition j.execPageFreeList
        (fun c => (Function.update j.tcbs b Tcb.zero c).pages) j.tcbList
        (List.range j.execPageCount) := by
      have := h.pages
      rw [List.append_nil] at this
      exact this.congr fun c hc => by simp only [hother hc, Jit.pages]
    refine Partition.perm (l := b :: j.tcbList) ?_ (@List.perm_append_comm _ [b] _)
    refine (Partition.cons_iff ?_).mpr hlist
    simp [Jit.pages, Jit.setTcb, Tcb.pages, Tcb.zero]
  case alloc => exact h.alloc
  case nodup => exact hn
  case fresh => exact hm
  case buffer =>
    intro c hcl
    simp only [Jit.setTcb, hother hcl]
    exact h.buffer c hcl
  case noFlush =>
    intro c hcl
    have hne : b ≠ c := fun heq => hnot (heq ▸ hcl)
    have := h.noFlush c hcl
    simp only [Jit.setTcb, hother hcl, hc, Option.some.injEq, hne, iff_false] at this ⊢
    simpa using this
  case blkMap =>
    intro i c hi
    obtain ⟨hcl, hhash⟩ := h.blkMap i c hi
    simp only [Jit.setTcb, hother hcl]
    exact ⟨hcl, hhash⟩
  case physMap =>
    intro i c hi
    obtain ⟨hcl, hhash⟩ := h.physMap i c hi
    simp only [Jit.setTcb, hother hcl]
    exact ⟨hcl, hhash⟩
  case physNodup => exact h.physNodup
  case physAll =>
    intro c hcl
    simp only [Jit.setTcb, hother hcl]
    exact h.physAll c hcl
  case lost => exact h.lost

theorem tcbAlloc_cases (env : CompileEnv) (h : JitInv sboxArray j []) (hc : j.compiling = none) :
    tcbAlloc env j = (j, none) ∨
      ∃ j' b, tcbAlloc env j = (j', some b) ∧
        JitInv sboxArray { j' with compiling := some b } [b] ∧
        Beside b j { j' with compiling := some b } ∧ j'.tcbs b = Tcb.zero := by
  have hbeside : ∀ fl m b, Beside b j
      ({ j with tcbFreeList := fl, mallocs := m, compiling := some b }.setTcb b Tcb.zero) :=
    fun fl m b => ⟨rfl, rfl, fun c hcl => ⟨hcl, fun hne => Function.update_of_ne hne _ _⟩⟩
  have hnodup := h.nodup
  have hfresh := h.fresh
  simp only [tcbAlloc]
  cases hfl : j.tcbFreeList with
  | cons b rest =>
    rw [hfl, List.append_nil] at hnodup hfresh
    have hperm : j.tcbList ++ b :: rest = j.tcbList ++ [b] ++ rest := by simp
    rw [hperm] at hnodup hfresh
    exact .inr ⟨_, b, rfl, h.enter hc hnodup hfresh, hbeside rest j.mallocs b,
      Function.update_self _ _ _⟩
  | nil =>
    rw [hfl, List.append_nil, List.append_nil] at hnodup hfresh
    simp only
    split
    case isFalse => exact .inl rfl
    case isTrue =>
      have hnot : j.mallocs ∉ j.tcbList := fun hm => Nat.lt_irrefl _ (hfresh _ hm)
      have hn : (j.tcbList ++ [j.mallocs] ++ []).Nodup := by
        rw [List.append_nil]
        exact List.nodup_append.mpr ⟨hnodup, List.nodup_singleton _, fun a ha c hcm heq =>
          hnot (List.mem_singleton.mp hcm ▸ heq ▸ ha)⟩
      have hm : ∀ c ∈ j.tcbList ++ [j.mallocs] ++ [], c < j.mallocs + 1 := by
        intro c hcm
        rw [List.append_nil, List.mem_append, List.mem_singleton] at hcm
        cases hcm with
        | inl hl => exact Nat.lt_succ_of_lt (hfresh c hl)
        | inr heq => exact heq ▸ Nat.lt_succ_self _
      exact .inr ⟨_, j.mallocs, rfl, h.enter hc hn hm, hbeside [] (j.mallocs + 1) j.mallocs,
        Function.update_self _ _ _⟩

theorem JitInv.work_notMem (h : JitInv sboxArray j [b]) : b ∉ j.tcbList := by
  intro hb
  exact (List.nodup_append.mp h.ownersNodup).2.2 b hb b (List.mem_singleton_self b) rfl

theorem JitInv.abandon (h : JitInv sboxArray j [b]) (hc : j.compiling = some b) :
    JitInv sboxArray (tcbAbandon j b) [] ∧ (tcbAbandon j b).compiling = none ∧
      b ∉ (tcbAbandon j b).tcbList ∧ Beside b j (tcbAbandon j b) := by
  have hnot := h.work_notMem
  have hmem : b ∈ j.tcbList ++ [b] := List.mem_append_right _ (List.mem_singleton_self b)
  have hother : ∀ {c}, c ≠ b → Function.update j.tcbs b (j.tcbs b).stripped c = j.tcbs c :=
    fun hne => Function.update_of_ne hne _ _
  have hin : ∀ {c}, c ∈ j.tcbList → c ≠ b := fun hcl heq => hnot (heq ▸ hcl)
  simp only [tcbAbandon, tcbFree, Bool.false_eq_true, if_false, tcbFreeCodeChunks_eq]
  refine ⟨?_, trivial, hnot, rfl, rfl, fun c hcl => ⟨hcl, fun hne => hother hne⟩⟩
  constructor
  case pages =>
    have hstrip : (Function.update j.tcbs b (j.tcbs b).stripped b).pages = [] := by
      rw [Function.update_self, Tcb.pages_stripped]
    have hx : ((j.pages b).reverse ++ j.execPageFreeList ++ []).Perm
        (j.execPageFreeList ++ j.pages b) := by
      rw [List.append_nil]
      exact ((List.reverse_perm _).append_right _).trans List.perm_append_comm
    have hgone := (h.pages.exchange (g := fun c =>
      (Function.update j.tcbs b (j.tcbs b).stripped c).pages) hmem h.ownersNodup
      (fun c hne => by simp only [hother hne, Jit.pages]) (by rw [hstrip]; exact hx)).erase hmem
        hstrip
    rw [List.erase_append_right _ hnot, List.erase_cons_head] at hgone
    exact hgone
  case alloc =>
    have := h.alloc
    simp only [List.length_append, List.length_reverse, BitVec.ofNat_add] at this ⊢
    rw [← this]
    grind
  case nodup => simpa using h.nodup
  case fresh => simpa using h.fresh
  case buffer =>
    intro c hcl
    simp only [hother (hin hcl)]
    exact h.buffer c hcl
  case noFlush =>
    intro c hcl
    have hne : b ≠ c := fun heq => hin hcl heq.symm
    have := h.noFlush c hcl
    simp only [hother (hin hcl), hc, Option.some.injEq, hne, iff_false] at this ⊢
    simpa using this
  case blkMap =>
    intro i c hi
    obtain ⟨hcl, hhash⟩ := h.blkMap i c hi
    simp only [hother (hin hcl)]
    exact ⟨hcl, hhash⟩
  case physMap =>
    intro i c hi
    obtain ⟨hcl, hhash⟩ := h.physMap i c hi
    simp only [hother (hin hcl)]
    exact ⟨hcl, hhash⟩
  case physNodup => exact h.physNodup
  case physAll =>
    intro c hcl
    simp only [hother (hin hcl)]
    exact h.physAll c hcl
  case lost => exact h.lost

theorem Beside.quiet (h : Beside b j j') (hb : b ∉ j'.tcbList) (hc : j.compiling = none)
    (hc' : j'.compiling = none) : Quiet j j' where
  count := h.count
  compiling := hc'.trans hc.symm
  drift := h.drift
  subset c hcl := ⟨(h.subset c hcl).1, (h.subset c hcl).2 fun heq => hb (heq ▸ hcl)⟩
  current c hcc := by rw [hc] at hcc; cases hcc

theorem Quiet.beside (h : Quiet j j') (b : TcbId) : Beside b j j' where
  count := h.count
  drift := h.drift
  subset c hcl := ⟨(h.subset c hcl).1, fun _ => (h.subset c hcl).2⟩

theorem JitInv.begin (vaddr physPage : BitVec 32) {p : ExecPageId} {rest : List ExecPageId}
    (h : JitInv sboxArray j [b]) (hc : j.compiling = some b) (hz : j.tcbs b = Tcb.zero)
    (hfree : j.execPageFreeList = p :: rest) :
    Translating sboxArray ({ j with execPageFreeList := rest, execPageAlloc := j.execPageAlloc + 1
      }.setTcb b (Tcb.start sboxArray vaddr physPage p)) [b] b := by
  have hmem : b ∈ j.tcbList ++ [b] := List.mem_append_right _ (List.mem_singleton_self b)
  have hnot := h.work_notMem
  have hn : j.execPageAlloc + 1 + BitVec.ofNat 64 rest.length = BitVec.ofNat 64 j.execPageCount := by
    have := h.alloc
    rw [hfree, List.length_cons, BitVec.ofNat_add] at this
    rw [← this]
    grind
  have hx : (rest ++ (Tcb.start sboxArray vaddr physPage p).pages).Perm
      (j.execPageFreeList ++ j.pages b) := by
    have hzero : j.pages b = [] := by simp [Jit.pages, hz, Tcb.pages, Tcb.zero]
    have hone : (Tcb.start sboxArray vaddr physPage p).pages = [p] := by
      simp [Tcb.pages, Tcb.start, Tcb.zero]
    rw [hzero, hone, hfree, List.append_nil]
    exact @List.perm_append_comm _ _ [p]
  have hflush : ∀ c ∈ j.tcbList,
      (Function.update j.tcbs b (Tcb.start sboxArray vaddr physPage p) c).noFlush = true ↔
        j.compiling = some c := by
    intro c hcl
    have hne : c ≠ b := fun heq => hnot (heq ▸ hcl)
    rw [Function.update_of_ne hne]
    exact h.noFlush c hcl
  refine ⟨h.replace hmem hx hn (fun hb => absurd hb hnot) (fun hb => absurd hb hnot)
    (fun hb => absurd hb hnot) hflush, hc, hmem, ?_⟩
  simp only [Jit.setTcb, Function.update_self]
  rfl

theorem tcbCreate_cases (env : CompileEnv) (vaddr : BitVec 32) (h : JitInv sboxArray j [])
    (hc : j.compiling = none) :
    (∃ j', tcbCreate sboxArray env j vaddr = (j', none) ∧ JitInv sboxArray j' [] ∧ Quiet j j') ∨
    ∃ j' b physPage p, tcbCreate sboxArray env j vaddr = (j', some b) ∧
      env.translate = some physPage ∧ Translating sboxArray j' [b] b ∧ Beside b j j' ∧
      j'.tcbs b = Tcb.start sboxArray vaddr physPage p := by
  simp only [tcbCreate]
  cases htr : env.translate with
  | none => exact .inl ⟨j, rfl, h, .refl j⟩
  | some physPage =>
    obtain halloc | ⟨j1, b, halloc, hinv1, hbeside1, hz⟩ := tcbAlloc_cases env h hc
    · simp only [halloc]
      exact .inl ⟨j, rfl, h, .refl j⟩
    obtain ⟨j2, hinv2, hquiet, hpage⟩ := execPageAlloc_cases hinv1
    have hc2 : j2.compiling = some b := hquiet.compiling
    have hz2 : j2.tcbs b = Tcb.zero := (hquiet.current b rfl).2.trans hz
    have hbeside2 := hbeside1.trans (hquiet.beside b)
    obtain hnone | ⟨p, rest, hfree, hsome⟩ := hpage
    · simp only [halloc, hnone]
      obtain ⟨hinv, hcn, hnot, hbeside⟩ := hinv2.abandon hc2
      exact .inl ⟨_, rfl, hinv, (hbeside2.trans hbeside).quiet hnot hc hcn⟩
    simp only [halloc, hsome]
    have hstart := hinv2.begin vaddr physPage hc2 hz2 hfree
    have hbeside3 : Beside b j2 ({ j2 with
        execPageFreeList := rest, execPageAlloc := j2.execPageAlloc + 1 }.setTcb b
          (Tcb.start sboxArray vaddr physPage p)) :=
      ⟨rfl, rfl, fun c hcl => ⟨hcl, fun hne => Function.update_of_ne hne _ _⟩⟩
    split
    case isTrue =>
      exact .inr ⟨_, b, physPage, p, rfl, rfl, hstart, hbeside2.trans hbeside3,
        Function.update_self _ _ _⟩
    case isFalse =>
      obtain ⟨hinv, hcn, hnot, hbeside⟩ := hstart.inv.abandon hstart.compiling
      exact .inl ⟨_, rfl, hinv, ((hbeside2.trans hbeside3).trans hbeside).quiet hnot hc hcn⟩

/-- A translated block joins the lists. -/
theorem JitInv.link (h : JitInv sboxArray j [b]) (hc : j.compiling = some b)
    (hbuf : (j.tcbs b).jitBuffer.isSome) (hflush : (j.tcbs b).noFlush = false)
    (hpage : (j.tcbs b).physHash = jitGetPhysHash sboxArray (j.tcbs b).physPage) :
    JitInv sboxArray (tcbLink j b) [] := by
  have hnot := h.work_notMem
  have hperm : (j.tcbList ++ [b]).Perm (b :: j.tcbList ++ []) := by
    rw [List.append_nil]
    exact @List.perm_append_comm _ _ [b]
  have hphys : ∀ i, b ∉ j.execPhysMap i := fun i hi => hnot (h.physMap i b hi).1
  constructor
  case pages => exact h.pages.perm hperm
  case alloc => exact h.alloc
  case nodup => exact (hperm.append_right j.tcbFreeList).nodup_iff.mp h.nodup
  case fresh => exact fun c hcm => h.fresh c ((hperm.append_right j.tcbFreeList).symm.subset hcm)
  case buffer =>
    intro c hcl
    cases List.mem_cons.mp hcl with
    | inl heq => exact heq ▸ hbuf
    | inr hcl => exact h.buffer c hcl
  case noFlush =>
    intro c hcl
    simp only [tcbLink, reduceCtorEq, iff_false, Bool.not_eq_true]
    cases List.mem_cons.mp hcl with
    | inl heq => exact heq ▸ hflush
    | inr hcl =>
      have hne : b ≠ c := fun heq => hnot (heq ▸ hcl)
      simpa [hc, hne] using h.noFlush c hcl
  case blkMap =>
    intro i c hi
    obtain ⟨hcl, hhash⟩ := h.blkMap i c hi
    exact ⟨List.mem_cons_of_mem _ hcl, hhash⟩
  case physMap =>
    intro i c hi
    simp only [tcbLink] at hi ⊢
    by_cases hhash : i = (j.tcbs b).physHash
    · subst hhash
      rw [Function.update_self] at hi
      cases List.mem_cons.mp hi with
      | inl heq => exact heq ▸ ⟨List.mem_cons_self, rfl⟩
      | inr hi =>
        obtain ⟨hcl, hch⟩ := h.physMap _ c hi
        exact ⟨List.mem_cons_of_mem _ hcl, hch⟩
    · rw [Function.update_of_ne hhash] at hi
      obtain ⟨hcl, hch⟩ := h.physMap _ c hi
      exact ⟨List.mem_cons_of_mem _ hcl, hch⟩
  case physNodup =>
    intro i
    simp only [tcbLink]
    by_cases hhash : i = (j.tcbs b).physHash
    · subst hhash
      rw [Function.update_self]
      exact List.nodup_cons.mpr ⟨hphys _, h.physNodup _⟩
    · rw [Function.update_of_ne hhash]
      exact h.physNodup i
  case physAll =>
    intro c hcl
    simp only [tcbLink] at hcl ⊢
    cases List.mem_cons.mp hcl with
    | inl heq =>
      subst heq
      rw [Function.update_self]
      exact ⟨List.mem_cons_self, hpage⟩
    | inr hcl =>
      obtain ⟨hch, hcp⟩ := h.physAll c hcl
      refine ⟨?_, hcp⟩
      by_cases hhash : (j.tcbs c).physHash = (j.tcbs b).physHash
      · rw [hhash] at hch ⊢
        rw [Function.update_self]
        exact List.mem_cons_of_mem _ hch
      · rw [Function.update_of_ne hhash]
        exact hch
  case lost => exact h.lost

structure Compiled (vaddr physPage : BitVec 32) (b : TcbId) (j j' : Jit) : Prop where
  count : j'.execPageCount = j.execPageCount
  compiling : j'.compiling = none
  drift : j'.drift = j.drift
  subset : ∀ c ∈ j'.tcbList, c ≠ b → c ∈ j.tcbList ∧ j'.tcbs c = j.tcbs c
  mem : b ∈ j'.tcbList
  startIa : (j'.tcbs b).startIa = vpage vaddr
  physPage : (j'.tcbs b).physPage = physPage

theorem tcbCompile_cases (env : CompileEnv) (code : PageCode) (vaddr : BitVec 32)
    (h : JitInv sboxArray j []) (hc : j.compiling = none) :
    (∃ j', tcbCompile sboxArray env code j vaddr = (j', none) ∧ JitInv sboxArray j' [] ∧
      Quiet j j') ∨
    ∃ j' b physPage, tcbCompile sboxArray env code j vaddr = (j', some b) ∧
      env.translate = some physPage ∧ JitInv sboxArray j' [] ∧
      Compiled vaddr physPage b j j' := by
  simp only [tcbCompile]
  obtain ⟨j1, hnone, hinv, hquiet⟩ | ⟨j1, b, physPage, p, hsome, htr, h1, hbeside1, hstart⟩ :=
    tcbCreate_cases env (vpage vaddr) h hc
  · simp only [hnone]
    exact .inl ⟨j1, rfl, hinv, hquiet⟩
  simp only [hsome]
  split
  case isFalse =>
    obtain ⟨hinv, hcn, hnot, hbeside⟩ := h1.inv.abandon h1.compiling
    exact .inl ⟨_, rfl, hinv, (hbeside1.trans hbeside).quiet hnot hc hcn⟩
  case isTrue =>
    obtain ⟨hinv2, hgen⟩ := opGenPage_spec code vaddr h1
    have h2 := h1.next hinv2 hgen
    have hbeside2 := hbeside1.trans hgen.toBeside
    have hsame := hgen.same
    rw [hstart] at hsame
    generalize opGenPage sboxArray code vaddr j1 b = j2 at *
    refine .inr ⟨_, b, physPage, rfl, htr,
      hinv2.link h2.compiling h2.buffer hsame.noFlush ?_, hbeside2.count, rfl, ?_, ?_,
      List.mem_cons_self, hsame.startIa, hsame.physPage⟩
    · rw [hsame.physHash, hsame.physPage]
      rfl
    · rw [← hbeside2.drift]
      simp only [Jit.drift, tcbLink, List.length_cons, BitVec.ofNat_add]
      grind
    · intro c hcl hne
      obtain ⟨hcl', heq⟩ := hbeside2.subset c (List.mem_of_ne_of_mem hne hcl)
      exact ⟨hcl', heq hne⟩

/-! Entering a block, with a recompilation once it was missed often enough. -/

def Tcb.restarted (t : Tcb) : Tcb :=
  { t with
    jitChunks := t.jitChunks.map fun _ => none
    jitInsnPtr := fun _ => none
    noFlush := true }

def recompileStart (j : Jit) (b : TcbId) : Jit :=
  { j with
    execPageFreeList := (j.tcbs b).jitChunks.reduceOption.reverse ++ j.execPageFreeList
    execPageAlloc := j.execPageAlloc - BitVec.ofNat 64 (j.pages b).length + 1
    compiling := some b }.setTcb b (j.tcbs b).restarted

def recompileEnd (j : Jit) (b : TcbId) : Jit :=
  { j.setTcb b { j.tcbs b with noFlush := false, targetUndefCnt := 0 } with compiling := none }

theorem tcbRecompile_eq (code : PageCode) (ia : BitVec 32) {p : ExecPageId}
    (hp : (j.tcbs b).jitBuffer = some p) :
    tcbRecompile sboxArray code ia j b =
      recompileEnd (opGenPage sboxArray code ia (recompileStart j b) b) b := by
  have hpages : (({ j with compiling := some b } : Jit).pages b).reverse ++ j.execPageFreeList =
      p :: ((j.tcbs b).jitChunks.reduceOption.reverse ++ j.execPageFreeList) := by
    simp only [Jit.pages, Tcb.pages, hp, Option.toList_some, List.reverse_append,
      List.reverse_singleton, List.cons_append, List.nil_append]
  have hrestart : ({ (j.tcbs b).stripped with
      jitInsnPtr := fun _ => none, jitBuffer := some p, noFlush := true } : Tcb) =
      (j.tcbs b).restarted := by
    simp only [Tcb.stripped, Tcb.restarted, ← hp]
  have hlist : ∀ j' : Jit, j'.execPageFreeList =
      p :: ((j.tcbs b).jitChunks.reduceOption.reverse ++ j.execPageFreeList) →
      execPageAlloc sboxArray j' = ({ j' with
        execPageFreeList := (j.tcbs b).jitChunks.reduceOption.reverse ++ j.execPageFreeList
        execPageAlloc := j'.execPageAlloc + 1 }, some p) := by
    intro j' hj'
    simp only [execPageAlloc, takePage, hj', List.isEmpty_cons, Bool.false_eq_true, if_false]
  unfold tcbRecompile
  rw [tcbFreeCodeChunks_eq]
  dsimp only
  rw [hlist _ hpages]
  simp only [Jit.setTcb, Function.update_self, Function.update_idem]
  rw [hrestart]
  generalize opGenPage sboxArray code ia = gen
  rfl

/-- Recompiling keeps the block and takes pages for it only. -/
theorem tcbRecompile_spec (code : PageCode) (ia : BitVec 32) (h : JitInv sboxArray j [])
    (hc : j.compiling = none) (hb : b ∈ j.tcbList) :
    JitInv sboxArray (tcbRecompile sboxArray code ia j b) [] ∧
      Translated b j (tcbRecompile sboxArray code ia j b) := by
  obtain ⟨p, hp⟩ := Option.isSome_iff_exists.mp (h.buffer b hb)
  rw [tcbRecompile_eq code ia hp]
  have hmem : b ∈ j.tcbList ++ [] := List.mem_append_left _ hb
  have hflush : ∀ c ∈ j.tcbList, (j.tcbs c).noFlush = false := by
    intro c hcl
    simpa [hc] using h.noFlush c hcl
  have hpages : j.pages b = (j.tcbs b).jitChunks.reduceOption ++ [p] := by
    simp only [Jit.pages, Tcb.pages, hp, Option.toList_some]
  have hnone : ((j.tcbs b).jitChunks.map fun _ => (none : Option ExecPageId)).reduceOption = [] := by
    have := (j.tcbs b).pages_stripped
    simpa only [Tcb.pages, Tcb.stripped, Option.toList_none, List.append_nil] using this
  have hpages' : (j.tcbs b).restarted.pages = [p] := by
    simp only [Tcb.pages, Tcb.restarted, hnone, hp, Option.toList_some, List.nil_append]
  have hstart : JitInv sboxArray (recompileStart j b) [] := by
    refine h.replace hmem ?_ ?_ (fun _ => rfl) (fun _ => ⟨rfl, rfl⟩) (fun _ => h.buffer b hb) ?_
    · rw [hpages, hpages']
      refine List.Perm.trans ?_ List.perm_append_comm
      rw [List.append_assoc, List.append_assoc]
      refine (List.reverse_perm _).append ?_
      exact List.perm_append_comm
    · have := h.alloc
      rw [hpages, List.length_append, List.length_append, List.length_reverse, List.length_singleton,
        BitVec.ofNat_add, BitVec.ofNat_add, ← this]
      grind
    · intro c hcl
      by_cases hcb : c = b
      · subst hcb
        rw [Function.update_self]
        simp [Tcb.restarted]
      · rw [Function.update_of_ne hcb, hflush c hcl]
        simp [Ne.symm hcb]
  have hbuf : ((recompileStart j b).tcbs b).jitBuffer = some p := by
    simp only [recompileStart, Jit.setTcb, Function.update_self, Tcb.restarted, hp]
  have htr : Translating sboxArray (recompileStart j b) [] b :=
    ⟨hstart, rfl, hmem, hbuf ▸ rfl⟩
  obtain ⟨hinv, hgen⟩ := opGenPage_spec code ia htr
  have hafter := htr.next hinv hgen
  have hstartTcb : (recompileStart j b).tcbs b = (j.tcbs b).restarted :=
    Function.update_self _ _ _
  have hstartOther : ∀ c, c ≠ b → (recompileStart j b).tcbs c = j.tcbs c :=
    fun c hne => Function.update_of_ne hne _ _
  generalize opGenPage sboxArray code ia (recompileStart j b) b = j2 at *
  have hsame := hgen.same
  rw [hstartTcb] at hsame
  have hb2 : b ∈ j2.tcbList := hgen.kept hb
  refine ⟨?_, ?_⟩
  · have hlast : ∀ c ∈ j2.tcbList, (Function.update j2.tcbs b
        { j2.tcbs b with noFlush := false, targetUndefCnt := 0 } c).noFlush = true ↔
          none = some c := by
      intro c hcl
      by_cases hcb : c = b
      · subst hcb
        rw [Function.update_self]
        simp
      · rw [Function.update_of_ne hcb]
        have := hinv.noFlush c hcl
        rw [hafter.compiling] at this
        simpa [Ne.symm hcb] using this
    exact hinv.replace (t := { j2.tcbs b with noFlush := false, targetUndefCnt := 0 })
      (List.mem_append_left _ hb2) (List.Perm.refl _) hinv.alloc
      (fun _ => rfl) (fun _ => ⟨rfl, rfl⟩) (fun _ => hafter.buffer) hlast
  · refine ⟨⟨hgen.count, ?_, ?_⟩, hc.symm, fun _ => hb2, ?_⟩
    · exact hgen.drift
    · intro c hcl
      obtain ⟨hcl', heq⟩ := hgen.subset c hcl
      exact ⟨hcl', fun hne => (Function.update_of_ne hne _ _).trans
        ((heq hne).trans (hstartOther c hne))⟩
    · simp only [recompileEnd, Jit.setTcb, Function.update_self]
      exact ⟨hsame.startIa, hsame.physPage, hsame.physHash, (hflush b hb).symm, fun _ => hafter.buffer⟩

theorem setTcb_spec {t : Tcb} (h : JitInv sboxArray j []) (hb : b ∈ j.tcbList)
    (hp : t.pages = (j.tcbs b).pages) (hs : (j.tcbs b).Same t) :
    JitInv sboxArray (j.setTcb b t) [] ∧ Translated b j (j.setTcb b t) :=
  ⟨h.setTcb t (List.mem_append_left _ hb) hp hs, translated_setTcb hs⟩

theorem tcbExec_spec (code : PageCode) (ia : BitVec 32) (h : JitInv sboxArray j [])
    (hc : j.compiling = none) (hb : b ∈ j.tcbList) :
    JitInv sboxArray (tcbExec sboxArray code ia j b) [] ∧
      Translated b j (tcbExec sboxArray code ia j b) := by
  have hrefl : Translated b j j := ⟨⟨rfl, rfl, fun c hcl => ⟨hcl, fun _ => rfl⟩⟩, rfl, id, .refl _⟩
  simp only [tcbExec]
  cases (j.tcbs b).jitInsnPtr (insnOffset ia) with
  | some _ => exact ⟨h, hrefl⟩
  | none =>
    obtain ⟨hinv, hmiss⟩ := setTcb_spec (t := (j.tcbs b).missed (insnOffset ia)) h hb rfl
      ⟨rfl, rfl, rfl, rfl, id⟩
    simp only
    split
    case isTrue =>
      obtain ⟨hinv', hre⟩ := tcbRecompile_spec code ia hinv hc hb
      exact ⟨hinv', hmiss.trans hre⟩
    case isFalse => exact ⟨hinv, hmiss⟩

theorem tcbRun_spec (code : PageCode) (ia : BitVec 32) (h : JitInv sboxArray j [])
    (hc : j.compiling = none) (hb : b ∈ j.tcbList) :
    JitInv sboxArray (tcbRun sboxArray code ia j b) [] ∧
      Translated b j (tcbRun sboxArray code ia j b) := by
  obtain ⟨hinv, hcount⟩ := setTcb_spec
    (t := { j.tcbs b with accCount := (j.tcbs b).accCount + 1 }) h hb rfl ⟨rfl, rfl, rfl, rfl, id⟩
  simp only [tcbRun]
  split
  case isTrue =>
    obtain ⟨hinv', hexec⟩ := tcbExec_spec code ia hinv hc hb
    exact ⟨hinv', hcount.trans hexec⟩
  case isFalse => exact ⟨hinv, hcount⟩

/-! The loop of the CPU. -/

theorem vpage_shift (ia : BitVec 32) : vpage ia >>> 12 = ia >>> 12 := by
  have hmask : (~~~PPC32_MIN_PAGE_IMASK) >>> 12 = 0x000FFFFF#32 := by decide
  rw [vpage, BitVec.ushiftRight_and_distrib, hmask]
  apply BitVec.eq_of_toNat_eq
  have hmod := Nat.and_two_pow_sub_one_eq_mod (ia >>> 12).toNat 20
  rw [BitVec.toNat_and]
  refine hmod.trans (Nat.mod_eq_of_lt ?_)
  rw [BitVec.toNat_ushiftRight, Nat.shiftRight_eq_div_pow]
  omega

theorem jitGetIaHash_vpage (ia : BitVec 32) :
    jitGetIaHash sboxArray (vpage ia) = jitGetIaHash sboxArray ia := by
  simp only [jitGetIaHash, vpage_shift]

theorem JitInv.setBlk {i : BitVec 17} (h : JitInv sboxArray j []) (hb : b ∈ j.tcbList)
    (hi : jitGetIaHash sboxArray (j.tcbs b).startIa = i) :
    JitInv sboxArray (j.setBlk i (some b)) [] := by
  refine ⟨h.pages, h.alloc, h.nodup, h.fresh, h.buffer, h.noFlush, ?_, h.physMap, h.physNodup,
    h.physAll, h.lost⟩
  intro k c hk
  by_cases hki : k = i
  · subst hki
    simp only [Jit.setBlk, Function.update_self, Option.some.injEq] at hk
    exact hk ▸ ⟨hb, hi⟩
  · simp only [Jit.setBlk, Function.update_of_ne hki] at hk
    exact h.blkMap k c hk

theorem JitInv.drop {i : BitVec 17} (h : JitInv sboxArray j []) (hc : j.compiling = none)
    (hb : b ∈ j.tcbList) (hi : jitGetIaHash sboxArray (j.tcbs b).startIa = i) :
    JitInv sboxArray ((tcbFree j b true).setBlk i none) [] ∧
      Freed j ((tcbFree j b true).setBlk i none) b := by
  have hmap : (tcbFree j b true).execBlkMap = j.execBlkMap := by rw [tcbFree_true_eq]
  refine ⟨h.free hb (by rw [hc]; exact fun heq => by cases heq) fun k c hk => ?_,
    freed_tcbFree j b _⟩
  rw [hmap] at hk
  by_cases hki : k = i
  · subst hki
    rw [Function.update_self] at hk
    cases hk
  · rw [Function.update_of_ne hki] at hk
    refine ⟨hk, ?_⟩
    rintro rfl
    exact hki ((h.blkMap k c hk).2.symm.trans hi)

theorem Freed.drift (h : Freed j j' b) (hb : b ∈ j.tcbList) : j'.drift = j.drift + 1 := by
  have := length_erase_add_one hb
  simp only [Jit.drift, h.compiledPages, h.tcbList]
  grind

structure JitReady (sboxArray : BitVec 8 → BitVec 32) (n : Nat) (j : Jit) : Prop where
  inv : JitInv sboxArray j []
  compiling : j.compiling = none
  count : j.execPageCount = n

variable {n : Nat}

theorem JitReady.beside (h : JitReady sboxArray n j) (hinv : JitInv sboxArray j' [])
    (hc : j'.compiling = none) (hb : Beside b j j') : JitReady sboxArray n j' :=
  ⟨hinv, hc, hb.count.trans h.count⟩

theorem JitReady.translated (h : JitReady sboxArray n j)
    (ht : JitInv sboxArray j' [] ∧ Translated b j j') :
    JitReady sboxArray n j' ∧ j'.drift = j.drift :=
  ⟨h.beside ht.1 (ht.2.compiling.trans h.compiling) ht.2.toBeside, ht.2.drift⟩

theorem JitReady.freed (h : JitReady sboxArray n j) (hb : b ∈ j.tcbList)
    (hf : JitInv sboxArray j' [] ∧ Freed j j' b) :
    JitReady sboxArray n j' ∧ j'.drift = j.drift + 1 :=
  ⟨⟨hf.1, hf.2.compiling.trans h.compiling, hf.2.count.trans h.count⟩, hf.2.drift hb⟩

/-- No block is freed on its own in an operation: only a flush takes the blocks
that it frees off `compiled_pages`. -/
def RetiresNone (sboxArray : BitVec 8 → BitVec 32) (j : Jit) : JitEvent → Prop
  | .runCpu ia _ _ _ => ∀ b, j.execBlkMap (jitGetIaHash sboxArray ia) = some b →
      (j.tcbs b).startIa = vpage ia
  | .invalidate physPage => jitFindByPhysPage sboxArray j physPage = none
  | .icbi vaddr translate => ∀ b, translate.bind (jitFindByPhysPage sboxArray j) = some b →
      (j.tcbs b).startIa ≠ vpage vaddr
  | .flush _ => True

/-- What an operation does to `compiled_pages`. -/
def Drifts (sboxArray : BitVec 8 → BitVec 32) (n : Nat) (j : Jit) (e : JitEvent) (j' : Jit) : Prop :=
  JitReady sboxArray n j' ∧
    (RetiresNone sboxArray j e ∧ j'.drift = j.drift ∨
      ¬RetiresNone sboxArray j e ∧ j'.drift = j.drift + 1)

theorem compileRun_spec (env : CompileEnv) (code recode : PageCode) (ia : BitVec 32)
    (h : JitReady sboxArray n j) :
    JitReady sboxArray n (match tcbCompile sboxArray env code j ia with
      | (j, none) => j
      | (j, some b) =>
        tcbRun sboxArray recode ia (j.setBlk (jitGetIaHash sboxArray ia) (some b)) b) ∧
      (match tcbCompile sboxArray env code j ia with
      | (j, none) => j
      | (j, some b) =>
        tcbRun sboxArray recode ia (j.setBlk (jitGetIaHash sboxArray ia) (some b)) b).drift =
        j.drift := by
  obtain ⟨j1, hnone, hinv, hquiet⟩ | ⟨j1, b, physPage, hsome, _, hinv, hcomp⟩ :=
    tcbCompile_cases env code ia h.inv h.compiling
  · rw [hnone]
    exact ⟨⟨hinv, hquiet.compiling.trans h.compiling, hquiet.count.trans h.count⟩, hquiet.drift⟩
  · rw [hsome]
    have hhash : jitGetIaHash sboxArray (j1.tcbs b).startIa = jitGetIaHash sboxArray ia := by
      rw [hcomp.startIa, jitGetIaHash_vpage]
    have hready : JitReady sboxArray n (j1.setBlk (jitGetIaHash sboxArray ia) (some b)) :=
      ⟨hinv.setBlk hcomp.mem hhash, hcomp.compiling, hcomp.count.trans h.count⟩
    obtain ⟨hrun, hdrift⟩ :=
      hready.translated (tcbRun_spec recode ia hready.inv hready.compiling hcomp.mem)
    exact ⟨hrun, hdrift.trans hcomp.drift⟩

theorem jitRunCpu_spec (env : CompileEnv) (code recode : PageCode) (ia : BitVec 32)
    (h : JitReady sboxArray n j) :
    Drifts sboxArray n j (.runCpu ia env code recode)
      (jitRunCpu sboxArray env code recode j ia) := by
  simp only [Drifts, RetiresNone, jitRunCpu, matchingBlock, tcbEvict]
  cases hblk : j.execBlkMap (jitGetIaHash sboxArray ia) with
  | none =>
    obtain ⟨hready, hdrift⟩ := compileRun_spec env code recode ia h
    exact ⟨hready, .inl ⟨fun b hb => (by cases hb), hdrift⟩⟩
  | some b =>
    obtain ⟨hb, hhash⟩ := h.inv.blkMap _ b hblk
    by_cases hstart : (j.tcbs b).startIa = vpage ia
    · rw [Option.filter_some, if_pos (beq_iff_eq.mpr hstart)]
      obtain ⟨hready, hdrift⟩ := h.translated (tcbRun_spec recode ia h.inv h.compiling hb)
      exact ⟨hready, .inl ⟨fun c hc => (by cases hc; exact hstart), hdrift⟩⟩
    · rw [Option.filter_some, if_neg (by simpa using hstart)]
      obtain ⟨hready, hdrift⟩ := h.freed hb (h.inv.drop h.compiling hb hhash)
      obtain ⟨hready', hdrift'⟩ := compileRun_spec env code recode ia hready
      exact ⟨hready', .inr ⟨fun hall => hstart (hall b rfl), hdrift'.trans hdrift⟩⟩

theorem mem_of_find (h : JitInv sboxArray j work) {physPage : BitVec 32}
    (hf : jitFindByPhysPage sboxArray j physPage = some b) : b ∈ j.tcbList :=
  (h.physMap _ b (List.mem_of_find?_eq_some hf)).1

theorem jitInvalidate_spec (physPage : BitVec 32) (h : JitReady sboxArray n j) :
    Drifts sboxArray n j (.invalidate physPage) (jitInvalidate sboxArray j physPage) := by
  simp only [Drifts, RetiresNone, jitInvalidate]
  cases hfind : jitFindByPhysPage sboxArray j physPage with
  | none => exact ⟨h, .inl ⟨rfl, rfl⟩⟩
  | some b =>
    have hb := mem_of_find h.inv hfind
    obtain ⟨hready, hdrift⟩ := h.freed hb (h.inv.retire hb (by simp [h.compiling]))
    exact ⟨hready, .inr ⟨by simp, hdrift⟩⟩

theorem icbi_spec (vaddr : BitVec 32) (translate : Option (BitVec 32))
    (h : JitReady sboxArray n j) :
    Drifts sboxArray n j (.icbi vaddr translate) (icbi sboxArray j vaddr translate) := by
  simp only [Drifts, RetiresNone, icbi]
  cases hfind : translate.bind (jitFindByPhysPage sboxArray j) with
  | none => exact ⟨h, .inl ⟨fun b hb => (by cases hb), rfl⟩⟩
  | some b =>
    obtain ⟨physPage, -, hfound⟩ := Option.bind_eq_some_iff.mp hfind
    have hb := mem_of_find h.inv hfound
    simp only
    split
    case isTrue hstart =>
      have hhash : jitGetIaHash sboxArray (j.tcbs b).startIa = jitGetIaHash sboxArray vaddr := by
        rw [hstart, jitGetIaHash_vpage]
      obtain ⟨hready, hdrift⟩ := h.freed hb (h.inv.drop h.compiling hb hhash)
      exact ⟨hready, .inr ⟨fun hall => hall b rfl hstart, hdrift⟩⟩
    case isFalse hstart =>
      exact ⟨h, .inl ⟨fun c hc => (by cases hc; exact hstart), rfl⟩⟩

theorem jitStep_spec (e : JitEvent) (h : JitReady sboxArray n j) :
    Drifts sboxArray n j e (jitStep sboxArray j e) := by
  cases e with
  | runCpu ia env code recode => exact jitRunCpu_spec env code recode ia h
  | invalidate physPage => exact jitInvalidate_spec physPage h
  | icbi vaddr translate => exact icbi_spec vaddr translate h
  | flush threshold =>
    obtain ⟨hinv, hquiet⟩ := jitFlush_inv threshold h.inv
    exact ⟨⟨hinv, hquiet.compiling.trans h.compiling, hquiet.count.trans h.count⟩,
      .inl ⟨trivial, hquiet.drift⟩⟩

/-! The whole run. -/

/-- The accounts of the JIT: who holds each page, what the two counters count,
and that no live block was freed while it was translated or is still referred to
once it was freed. -/
structure Accounted (j : Jit) : Prop where
  pages : Partition j.execPageFreeList j.pages j.tcbList (List.range j.execPageCount)
  alloc : j.execPageAlloc.toNat + j.execPageFreeList.length = j.execPageCount
  compiled : j.compiledPages.toNat = j.tcbList.length
  kept : j.lost = false
  blkMap : ∀ h b, j.execBlkMap h = some b → b ∈ j.tcbList
  physMap : ∀ h b, b ∈ j.execPhysMap h → b ∈ j.tcbList

theorem execPageCountOf_le (areaSize : BitVec 32) : execPageCountOf areaSize ≤ 131072 := by
  have h := ((if areaSize = 0 then PPC_EXEC_AREA_SIZE else areaSize) * 1048576).isLt
  simp only [execPageCountOf, PPC_JIT_BUFSIZE]
  omega

theorem JitReady.accounted_iff (h : JitReady sboxArray n j) (hn : n ≤ 131072) :
    Accounted j ↔ j.drift = 0 := by
  have hpages := h.inv.pages
  have hcount := h.count
  rw [List.append_nil] at hpages
  have htotal := hpages.length
  rw [List.length_range] at htotal
  have hlen : j.tcbList.length ≤ (held j.pages j.tcbList).length := by
    refine length_le_held fun b hb => ?_
    obtain ⟨p, hp⟩ := Option.isSome_iff_exists.mp (h.inv.buffer b hb)
    simp [Jit.pages, Tcb.pages, hp]
  have hcompiled : j.compiledPages.toNat = j.tcbList.length ↔ j.drift = 0 := by
    have hzero : j.drift = 0 ↔ j.compiledPages = BitVec.ofNat 32 j.tcbList.length := by
      rw [Jit.drift]
      grind
    rw [hzero, ← BitVec.toNat_inj, BitVec.toNat_ofNat, Nat.mod_eq_of_lt (by omega)]
  have halloc : j.execPageAlloc.toNat + j.execPageFreeList.length = j.execPageCount := by
    have := congrArg BitVec.toNat h.inv.alloc
    rw [BitVec.toNat_add, BitVec.toNat_ofNat, BitVec.toNat_ofNat] at this
    have hlt := j.execPageAlloc.isLt
    omega
  rw [← hcompiled]
  exact ⟨fun ha => ha.compiled, fun hc => ⟨hpages, halloc, hc, h.inv.lost,
    fun i b hb => (h.inv.blkMap i b hb).1, fun i b hb => (h.inv.physMap i b hb).1⟩⟩

theorem jitReady_init (sboxArray : BitVec 8 → BitVec 32) (areaSize : BitVec 32) :
    JitReady sboxArray (execPageCountOf areaSize) (jitInit areaSize) := by
  refine ⟨⟨?_, ?_, List.nodup_nil, ?_, ?_, ?_, ?_, ?_, ?_, ?_, rfl⟩, rfl, rfl⟩
  · simp [Owners.Partition, held, jitInit, List.reverse_perm]
  · simp [jitInit]
  all_goals simp [jitInit]

theorem drift_init (areaSize : BitVec 32) : (jitInit areaSize).drift = 0 := by
  simp [Jit.drift, jitInit]

/-- The accounts of the JIT are right in every state of a run exactly if no
block is freed other than by a flush. -/
theorem jit_accounted (sboxArray : BitVec 8 → BitVec 32) (areaSize : BitVec 32)
    (trace : List (Jit × JitEvent)) (t : Jit)
    (hrun : Run (fun s e s' => s' = jitStep sboxArray s e) (jitInit areaSize) trace t) :
    Always Accounted trace t ↔ AllSteps (RetiresNone sboxArray) trace := by
  have hn := execPageCountOf_le areaSize
  have h0 := jitReady_init sboxArray areaSize
  refine hrun.invariant_iff_of (P := JitReady sboxArray (execPageCountOf areaSize)) ?_ ?_ h0
    ((h0.accounted_iff hn).mpr (drift_init areaSize))
  · rintro s e s' hs rfl
    exact (jitStep_spec e hs).1
  · rintro s e s' hs hacc rfl
    obtain ⟨hready, hdrift⟩ := jitStep_spec e hs
    rw [hready.accounted_iff hn]
    have hzero := (hs.accounted_iff hn).mp hacc
    cases hdrift with
    | inl hkeep => exact ⟨fun _ => hkeep.1, fun _ => hkeep.2.trans hzero⟩
    | inr hlost =>
      have hone : (jitStep sboxArray s e).drift = 1 := by rw [hlost.2, hzero]; rfl
      exact ⟨fun heq => absurd (hone.symm.trans heq) (by decide), fun hk => absurd hk hlost.1⟩

def compileEnvOk : CompileEnv := ⟨some 0, true, true, true⟩

def emptyCode : PageCode := ⟨fun _ => 0, fun _ => false, 0⟩

def compileFlush : List JitEvent := [.runCpu 0xfff00100 compileEnvOk emptyCode emptyCode, .flush 0]

theorem jit_accounted_flush :
    Always Accounted (history (jitStep fun _ => 0) (jitInit 1) compileFlush)
      (compileFlush.foldl (jitStep fun _ => 0) (jitInit 1)) := by
  refine (jit_accounted (fun _ => 0) 1 _ _ (run_history _ _ _)).mpr ?_
  simp only [compileFlush, history, allSteps_cons]
  refine ⟨fun b hb => ?_, trivial, fun x hx => ?_⟩
  · cases hb
  · cases hx

theorem tcbCompile_some (sboxArray : BitVec 8 → BitVec 32) (env : CompileEnv)
    {physPage : BitVec 32} (code : PageCode) (vaddr : BitVec 32)
    (htr : env.translate = some physPage) (hm : env.malloc = true)
    (hl : env.memOpLookup = true) (hcal : env.calloc = true) (hfree : j.execPageFreeList ≠ []) :
    ∃ j' b, tcbCompile sboxArray env code j vaddr = (j', some b) := by
  obtain ⟨p, rest, hlist⟩ := List.exists_cons_of_ne_nil hfree
  have hpage : ∀ j' : Jit, j'.execPageFreeList = p :: rest →
      ∃ j'', execPageAlloc sboxArray j' = (j'', some p) := by
    intro j' hj'
    simp only [execPageAlloc, takePage, hj', List.isEmpty_cons, Bool.false_eq_true, if_false]
    exact ⟨_, rfl⟩
  have hcreate : ∃ j' b, tcbCreate sboxArray env j (vpage vaddr) = (j', some b) := by
    simp only [tcbCreate, htr]
    cases hfl : j.tcbFreeList with
    | nil =>
      simp only [tcbAlloc, hfl, hm, if_true]
      obtain ⟨j'', hj''⟩ := hpage { { j with mallocs := j.mallocs + 1 }.setTcb j.mallocs Tcb.zero
        with compiling := some j.mallocs } hlist
      rw [hfl] at hj''
      rw [hj'']
      simp only [hl, if_true]
      exact ⟨_, _, rfl⟩
    | cons c fl =>
      simp only [tcbAlloc, hfl]
      obtain ⟨j'', hj''⟩ := hpage { { j with tcbFreeList := fl }.setTcb c Tcb.zero
        with compiling := some c } hlist
      rw [hj'']
      simp only [hl, if_true]
      exact ⟨_, _, rfl⟩
  obtain ⟨j', b, hj'⟩ := hcreate
  simp only [tcbCompile, hj', hcal, if_true]
  exact ⟨_, _, rfl⟩

theorem find_isSome (h : JitInv sboxArray j work) (hb : b ∈ j.tcbList) :
    jitFindByPhysPage sboxArray j (j.tcbs b).physPage ≠ none := by
  obtain ⟨hin, hpage⟩ := h.physAll b hb
  intro hnone
  rw [jitFindByPhysPage, ← hpage] at hnone
  have := List.find?_eq_none.mp hnone b hin
  simp at this

theorem find_compiled {env : CompileEnv} {physPage : BitVec 32} (code recode : PageCode)
    (ia : BitVec 32) (h : JitReady sboxArray n j)
    (hblk : j.execBlkMap (jitGetIaHash sboxArray ia) = none)
    (htr : env.translate = some physPage) (hm : env.malloc = true)
    (hl : env.memOpLookup = true) (hcal : env.calloc = true) (hfree : j.execPageFreeList ≠ []) :
    jitFindByPhysPage sboxArray (jitStep sboxArray j (.runCpu ia env code recode)) physPage ≠
      none := by
  obtain ⟨j1, b, hsome⟩ := tcbCompile_some sboxArray env code ia htr hm hl hcal hfree
  obtain ⟨j2, hnone, -⟩ | ⟨j2, b2, page, hsome2, htr2, hinv, hcomp⟩ :=
    tcbCompile_cases env code ia h.inv h.compiling
  · rw [hsome] at hnone
    cases hnone
  have hrun : jitStep sboxArray j (.runCpu ia env code recode) =
      tcbRun sboxArray recode ia (j2.setBlk (jitGetIaHash sboxArray ia) (some b2)) b2 := by
    simp only [jitStep, jitRunCpu, matchingBlock, tcbEvict, hblk, Option.filter_none, hsome2]
  have hhash : jitGetIaHash sboxArray (j2.tcbs b2).startIa = jitGetIaHash sboxArray ia := by
    rw [hcomp.startIa, jitGetIaHash_vpage]
  obtain ⟨hinv', htrans⟩ := tcbRun_spec recode ia (hinv.setBlk hcomp.mem hhash) hcomp.compiling
    hcomp.mem
  have hpage : ((tcbRun sboxArray recode ia
      (j2.setBlk (jitGetIaHash sboxArray ia) (some b2)) b2).tcbs b2).physPage = physPage := by
    rw [htrans.same.physPage]
    rw [htr] at htr2
    cases htr2
    exact hcomp.physPage
  have hfind := find_isSome hinv' (htrans.kept hcomp.mem)
  rw [hpage] at hfind
  rw [hrun]
  exact hfind

theorem not_accounted_of_store {env : CompileEnv} {physPage : BitVec 32} (code recode : PageCode)
    (ia : BitVec 32) (h : JitReady sboxArray n j) (hn : n ≤ 131072) (hzero : j.drift = 0)
    (hblk : j.execBlkMap (jitGetIaHash sboxArray ia) = none)
    (htr : env.translate = some physPage) (hm : env.malloc = true)
    (hl : env.memOpLookup = true) (hcal : env.calloc = true) (hfree : j.execPageFreeList ≠ []) :
    ¬Accounted ([JitEvent.runCpu ia env code recode, .invalidate physPage].foldl
      (jitStep sboxArray) j) := by
  obtain ⟨hready1, hdrift1⟩ := jitStep_spec (.runCpu ia env code recode) h
  have hkeep : RetiresNone sboxArray j (.runCpu ia env code recode) := by
    intro b hb
    rw [hblk] at hb
    cases hb
  have hzero1 : (jitStep sboxArray j (.runCpu ia env code recode)).drift = 0 := by
    cases hdrift1 with
    | inl hd => exact hd.2.trans hzero
    | inr hd => exact absurd hkeep hd.1
  have hfound := find_compiled code recode ia h hblk htr hm hl hcal hfree
  obtain ⟨hready2, hdrift2⟩ := jitStep_spec (.invalidate physPage) hready1
  intro hacc
  have hend := (hready2.accounted_iff hn).mp hacc
  cases hdrift2 with
  | inl hd => exact hfound hd.1
  | inr hd =>
    rw [hd.2, hzero1] at hend
    exact absurd hend (by decide)

theorem not_jit_accounted : ¬ ∀ (sboxArray : BitVec 8 → BitVec 32) (areaSize : BitVec 32)
    (trace : List (Jit × JitEvent)) (t : Jit),
    Run (fun s e s' => s' = jitStep sboxArray s e) (jitInit areaSize) trace t →
      Always Accounted trace t := by
  intro hall
  have hfree : (jitInit 1).execPageFreeList ≠ [] := by decide
  exact not_accounted_of_store emptyCode emptyCode 0xfff00100 (jitReady_init (fun _ => 0) 1)
    (execPageCountOf_le 1) (drift_init 1) rfl rfl rfl rfl rfl hfree
    (hall (fun _ => 0) 1 _ _ (run_history (jitStep fun _ => 0) (jitInit 1)
      [.runCpu 0xfff00100 compileEnvOk emptyCode emptyCode, .invalidate 0])).1

end Dynamips.Ppc32
