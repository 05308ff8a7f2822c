import Dynamips.Lib.Amd64
import Dynamips.Ppc32
import Mathlib.Data.List.Perm.Subperm

/-! The allocation of host registers to PowerPC registers during a translation
(ppc32_jit.c, ppc32_amd64_trans.c). -/
set_option autoImplicit false

namespace Dynamips.Ppc32

open Amd64

/-- The flags of a mapping: none, `HREG_FLAG_ALLOC_LOCKED` or `HREG_FLAG_ALLOC_FORCED`. -/
inductive HregFlags where
  | free
  | locked
  | forced
deriving DecidableEq, Repr

/-- `struct hreg_map` without its links -/
structure HregMap where
  vreg : Option RegNum
  flags : HregFlags

/-- `hreg_map` and `ppc_reg_map`, with the list of the mappings from the most
recently used one. -/
structure HregState where
  map : Reg → HregMap
  list : List Reg
  ppcRegMap : RegNum → Option Reg

def availHregs : List Reg := [.rsi, .rax, .rcx, .rdx, .r13, .r14, .rdi]

def HregState.setMap (s : HregState) (hreg : Reg) (map : HregMap) : HregState :=
  { s with map := Function.update s.map hreg map }

/-- `ppc32_jit_extract_hreg` and `ppc32_jit_insert_hreg_mru` -/
def HregState.makeMru (s : HregState) (hreg : Reg) : HregState :=
  { s with list := hreg :: s.list.erase hreg }

def HregState.unmap (s : HregState) (vreg : Option RegNum) : HregState :=
  match vreg with
  | none => s
  | some r => { s with ppcRegMap := Function.update s.ppcRegMap r none }

def jitInitHregMapping : HregState where
  map _ := ⟨none, .free⟩
  list := availHregs.foldl (fun list hreg => hreg :: list) []
  ppcRegMap _ := none

def jitStartHregSeq (s : HregState) : HregState :=
  { s with map := fun hreg =>
      if hreg ∈ s.list then { s.map hreg with flags := .free } else s.map hreg }

/-- `ppc32_jit_get_free_hreg`: from the least recently used register, one that is
not mapped before one that is. -/
def jitGetFreeHreg (s : HregState) : Option Reg :=
  (s.list.reverse.find? fun hreg =>
    decide ((s.map hreg).vreg = none ∧ (s.map hreg).flags = .free)).or
    (s.list.reverse.find? fun hreg => decide ((s.map hreg).flags = .free))

/-- `ppc32_jit_alloc_hreg`; none where it finds no free register. -/
def jitAllocHreg (ppcReg : Option RegNum) (s : HregState) : Option (Reg × HregState) :=
  match ppcReg with
  | none =>
    (jitGetFreeHreg s).map fun hreg =>
      (hreg, (s.unmap (s.map hreg).vreg).setMap hreg ⟨none, .locked⟩)
  | some r =>
    match s.ppcRegMap r with
    | some hreg => some (hreg, (s.setMap hreg { s.map hreg with flags := .locked }).makeMru hreg)
    | none =>
      (jitGetFreeHreg s).map fun hreg =>
        let s := s.unmap (s.map hreg).vreg
        let s := { s with ppcRegMap := Function.update s.ppcRegMap r (some hreg) }
        (hreg, (s.setMap hreg ⟨some r, .locked⟩).makeMru hreg)

/-- `ppc32_jit_alloc_hreg_forced`, which leaves a register that is allocated. -/
def jitAllocHregForced (hreg : Reg) (s : HregState) : HregState :=
  if (s.map hreg).flags ≠ .free then s
  else (s.unmap (s.map hreg).vreg).setMap hreg ⟨none, .forced⟩

/-- The list has the seven registers that can be allocated, and the two maps are
inverse to each other on them. -/
structure HregOk (s : HregState) : Prop where
  perm : s.list.Perm availHregs
  inverse : ∀ r h, s.ppcRegMap r = some h ↔ h ∈ s.list ∧ (s.map h).vreg = some r

/-- The registers allocated since the start of a sequence, with what for. -/
structure Assigned (items : List (Option RegNum × Reg)) (s : HregState) : Prop where
  taken : ∀ h ∈ s.list, (s.map h).flags ≠ .free ↔ ∃ k, (k, h) ∈ items
  mapped : ∀ k h, (k, h) ∈ items → h ∈ s.list ∧ (s.map h).vreg = k

variable {s : HregState} {items : List (Option RegNum × Reg)} {r r' : RegNum} {h h' : Reg}

theorem HregOk.mem_list (hok : HregOk s) : h ∈ s.list ↔ h ∈ availHregs := hok.perm.mem_iff

theorem HregOk.start (hok : HregOk s) :
    HregOk (jitStartHregSeq s) ∧ Assigned [] (jitStartHregSeq s) := by
  refine ⟨⟨hok.perm, fun r h => ?_⟩, fun h hmem => ?_, by simp⟩
  · have hinv := hok.inverse r h
    by_cases hmem : h ∈ s.list
    · simpa [jitStartHregSeq, hmem] using hinv
    · simpa [jitStartHregSeq, hmem] using hinv
  · have hlisted : h ∈ s.list := hmem
    simp [jitStartHregSeq, hlisted]

theorem getFreeHreg_some (hget : jitGetFreeHreg s = some h) :
    h ∈ s.list ∧ (s.map h).flags = .free := by
  unfold jitGetFreeHreg at hget
  rcases Option.or_eq_some_iff.mp hget with hfirst | ⟨-, hsecond⟩
  · have hp := List.find?_some hfirst
    rw [decide_eq_true_eq] at hp
    exact ⟨List.mem_reverse.mp (List.mem_of_find?_eq_some hfirst), hp.2⟩
  · have hp := List.find?_some hsecond
    rw [decide_eq_true_eq] at hp
    exact ⟨List.mem_reverse.mp (List.mem_of_find?_eq_some hsecond), hp⟩

theorem HregOk.makeMru (hok : HregOk s) (hmem : h ∈ s.list) : HregOk (s.makeMru h) := by
  have hperm : (h :: s.list.erase h).Perm s.list := (List.perm_cons_erase hmem).symm
  refine ⟨hperm.trans hok.perm, fun r h' => ?_⟩
  rw [show h' ∈ (s.makeMru h).list ↔ h' ∈ s.list from hperm.mem_iff]
  exact hok.inverse r h'

theorem Assigned.makeMru (ha : Assigned items s) (hmem : h ∈ s.list) :
    Assigned items (s.makeMru h) := by
  have hperm : (h :: s.list.erase h).Perm s.list := (List.perm_cons_erase hmem).symm
  refine ⟨fun h' hmem' => ha.taken h' (hperm.mem_iff.mp hmem'), fun k h' hk => ?_⟩
  obtain ⟨hlisted, hvreg⟩ := ha.mapped k h' hk
  exact ⟨hperm.mem_iff.mpr hlisted, hvreg⟩

/-- A register becomes that of a PowerPC register, or of none. -/
def HregState.assign (s : HregState) (hreg : Reg) (vreg : Option RegNum) (flags : HregFlags) :
    HregState where
  map := Function.update s.map hreg ⟨vreg, flags⟩
  list := s.list
  ppcRegMap r :=
    if vreg = some r then some hreg else if (s.map hreg).vreg = some r then none
    else s.ppcRegMap r

theorem HregOk.assign (hok : HregOk s) (vreg : Option RegNum) (flags : HregFlags)
    (hmem : h ∈ s.list)
    (hfresh : ∀ r, vreg = some r → s.ppcRegMap r = none ∨ s.ppcRegMap r = some h) :
    HregOk (s.assign h vreg flags) := by
  refine ⟨hok.perm, fun r h' => ?_⟩
  have hinv := hok.inverse r h'
  have hinvh := hok.inverse r h
  simp only [HregState.assign]
  by_cases hh : h' = h
  · subst hh
    simp only [Function.update_self, hmem, true_and]
    by_cases hv : vreg = some r
    · simp [hv]
    · by_cases hold : (s.map h').vreg = some r
      · simp [hv, hold]
      · simp [hv, hold, hinv]
  · rw [Function.update_of_ne hh]
    by_cases hv : vreg = some r
    · have hnot : ¬ (h' ∈ s.list ∧ (s.map h').vreg = some r) := by
        rw [← hinv]
        rcases hfresh r hv with hnone | hsome
        · simp [hnone]
        · simpa [hsome] using Ne.symm hh
      simpa [hv, Ne.symm hh] using hnot
    · by_cases hold : (s.map h).vreg = some r
      · have hsome : s.ppcRegMap r = some h := hinvh.mpr ⟨hmem, hold⟩
        have hnot : ¬ (h' ∈ s.list ∧ (s.map h').vreg = some r) := by
          rw [← hinv, hsome]
          simpa using Ne.symm hh
        simpa [hv, hold] using hnot
      · simpa [hv, hold] using hinv

theorem Assigned.assign {vreg : Option RegNum} {flags : HregFlags} (ha : Assigned items s)
    (hmem : h ∈ s.list) (hflags : flags ≠ .free)
    (hheld : (s.map h).flags = .free ∨ (s.map h).vreg = vreg) :
    Assigned ((vreg, h) :: items) (s.assign h vreg flags) := by
  refine ⟨fun h' hmem' => ?_, fun k h' hk => ?_⟩
  · by_cases hh : h' = h
    · subst hh
      simp only [HregState.assign, Function.update_self]
      exact iff_of_true hflags ⟨vreg, List.mem_cons_self⟩
    · have htaken := ha.taken h' hmem'
      simpa [HregState.assign, Function.update_of_ne hh, hh] using htaken
  · simp only [HregState.assign]
    by_cases hh : h' = h
    · subst hh
      rw [Function.update_self]
      refine ⟨hmem, ?_⟩
      rcases List.mem_cons.mp hk with heq | hold
      · exact (congrArg Prod.fst heq).symm
      · obtain hfree | hvreg := hheld
        · exact absurd hfree ((ha.taken h' hmem).mpr ⟨k, hold⟩)
        · rw [← (ha.mapped k h' hold).2, hvreg]
    · rw [Function.update_of_ne hh]
      rcases List.mem_cons.mp hk with heq | hold
      · exact absurd (congrArg Prod.snd heq) hh
      · exact ha.mapped k h' hold

theorem unmap_setMap (s : HregState) (h : Reg) (flags : HregFlags) :
    (s.unmap (s.map h).vreg).setMap h ⟨none, flags⟩ = s.assign h none flags := by
  unfold HregState.unmap HregState.setMap HregState.assign
  cases hv : (s.map h).vreg with
  | none => simp
  | some r =>
    simp only [reduceCtorEq, if_false, HregState.mk.injEq, true_and]
    funext r'
    by_cases hr : r' = r
    · simp [hr]
    · simp [hr, Ne.symm hr]

theorem remap_setMap (s : HregState) (h : Reg) (r : RegNum) (flags : HregFlags) :
    ({ s.unmap (s.map h).vreg with
      ppcRegMap := Function.update (s.unmap (s.map h).vreg).ppcRegMap r (some h) } :
        HregState).setMap h ⟨some r, flags⟩ = s.assign h (some r) flags := by
  unfold HregState.unmap HregState.setMap HregState.assign
  cases hv : (s.map h).vreg with
  | none =>
    simp only [HregState.mk.injEq, true_and]
    funext r'
    by_cases hr : r' = r
    · simp [hr]
    · simp [hr, Ne.symm hr]
  | some r₀ =>
    simp only [HregState.mk.injEq, true_and]
    funext r'
    by_cases hr : r' = r
    · simp [hr]
    · by_cases hr₀ : r' = r₀
      · simp [hr₀ ▸ hr, Ne.symm (hr₀ ▸ hr), hr₀]
      · simp [hr, Ne.symm hr, hr₀, Ne.symm hr₀]

theorem lock_eq_assign (hok : HregOk s) (hmap : s.ppcRegMap r = some h) :
    s.setMap h { s.map h with flags := .locked } = s.assign h (some r) .locked := by
  have hvreg := ((hok.inverse r h).mp hmap).2
  unfold HregState.setMap HregState.assign
  rw [hvreg, HregState.mk.injEq]
  refine ⟨by rw [← hvreg], rfl, ?_⟩
  funext r'
  by_cases hr : r' = r
  · simp [hr, hmap]
  · simp [Ne.symm hr]

theorem jitAllocHreg_spec {k : Option RegNum} {s' : HregState} (hok : HregOk s)
    (ha : Assigned items s) (halloc : jitAllocHreg k s = some (h, s')) :
    HregOk s' ∧ Assigned ((k, h) :: items) s' ∧
      ∀ k', (k', h) ∈ items → ∃ r, k = some r ∧ k' = some r := by
  have hnone (hget : jitGetFreeHreg s = some h) : ∀ k', (k', h) ∉ items := by
    obtain ⟨hmem, hflags⟩ := getFreeHreg_some hget
    intro k' hk
    exact (ha.taken h hmem).mpr ⟨k', hk⟩ hflags
  cases k with
  | none =>
    obtain ⟨h, hget, heq⟩ := Option.map_eq_some_iff.mp halloc
    cases heq
    obtain ⟨hmem, hflags⟩ := getFreeHreg_some hget
    rw [unmap_setMap]
    exact ⟨hok.assign none .locked hmem (by simp), ha.assign hmem (by decide) (.inl hflags),
      fun k' hk => absurd hk (hnone hget k')⟩
  | some r =>
    cases hmap : s.ppcRegMap r with
    | some h =>
      simp only [jitAllocHreg, hmap, Option.some.injEq] at halloc
      cases halloc
      obtain ⟨hmem, hvreg⟩ := (hok.inverse r h).mp hmap
      rw [lock_eq_assign hok hmap]
      have hok' := hok.assign (some r) .locked hmem (by
        intro r' hr'
        cases hr'
        exact .inr hmap)
      refine ⟨hok'.makeMru hmem, (ha.assign hmem (by decide) (.inr hvreg)).makeMru hmem, ?_⟩
      intro k' hk
      exact ⟨r, rfl, (ha.mapped k' h hk).2.symm.trans hvreg⟩
    | none =>
      simp only [jitAllocHreg, hmap] at halloc
      obtain ⟨h, hget, heq⟩ := Option.map_eq_some_iff.mp halloc
      cases heq
      obtain ⟨hmem, hflags⟩ := getFreeHreg_some hget
      rw [remap_setMap]
      have hok' := hok.assign (some r) .locked hmem (by
        intro r' hr'
        cases hr'
        exact .inl hmap)
      exact ⟨hok'.makeMru hmem, (ha.assign hmem (by decide) (.inl hflags)).makeMru hmem,
        fun k' hk => absurd hk (hnone hget k')⟩

theorem jitAllocHregForced_spec (hok : HregOk s) (ha : Assigned items s) (hmem : h ∈ availHregs)
    (hnew : ∀ k, (k, h) ∉ items) :
    HregOk (jitAllocHregForced h s) ∧ Assigned ((none, h) :: items) (jitAllocHregForced h s) := by
  have hlisted : h ∈ s.list := hok.mem_list.mpr hmem
  have hflags : (s.map h).flags = .free := by
    by_contra hne
    obtain ⟨k, hk⟩ := (ha.taken h hlisted).mp hne
    exact hnew k hk
  unfold jitAllocHregForced
  rw [if_neg (not_not.mpr hflags), unmap_setMap]
  exact ⟨hok.assign none .forced hlisted (by simp), ha.assign hlisted (by decide) (.inl hflags)⟩

theorem Assigned.eq_iff (hok : HregOk s) (ha : Assigned items s) (hr : (some r, h) ∈ items)
    (hr' : (some r', h') ∈ items) : h = h' ↔ r = r' := by
  obtain ⟨hmem, hvreg⟩ := ha.mapped _ _ hr
  obtain ⟨hmem', hvreg'⟩ := ha.mapped _ _ hr'
  constructor
  · rintro rfl
    rw [hvreg, Option.some.injEq] at hvreg'
    exact hvreg'
  · rintro rfl
    have hmap := (hok.inverse r h).mpr ⟨hmem, hvreg⟩
    rw [(hok.inverse r h').mpr ⟨hmem', hvreg'⟩, Option.some.injEq] at hmap
    exact hmap.symm

theorem Assigned.ne_tmp (ha : Assigned items s) (hr : (some r, h) ∈ items)
    (htmp : (none, h') ∈ items) : h ≠ h' := by
  rintro rfl
  have hvreg := (ha.mapped _ _ hr).2
  rw [(ha.mapped _ _ htmp).2] at hvreg
  cases hvreg

theorem Assigned.mem_avail {k : Option RegNum} (hok : HregOk s) (ha : Assigned items s)
    (hk : (k, h) ∈ items) : h ∈ availHregs :=
  hok.mem_list.mp (ha.mapped k h hk).1

end Dynamips.Ppc32
