import Dynamips.Lib.DoubleLinks
import Dynamips.Ppc32Hreg

/-! The host registers as `struct hreg_map` links them, from the most to the least
recently used one (ppc32_jit.c). -/
set_option autoImplicit false

namespace Dynamips.Ppc32

open Amd64 Links DoubleLinks

def JIT_HOST_NREG : Nat := 16

/-- `hreg_map`, with `hreg_map_list` and `hreg_lru`, and `ppc_reg_map` -/
structure HregCpu where
  map : Reg → HregMap
  links : DoubleList Reg
  ppcRegMap : RegNum → Option Reg

def HregCpu.mruWalk (c : HregCpu) : List Reg := walk c.links.next JIT_HOST_NREG c.links.head

def HregCpu.lruWalk (c : HregCpu) : List Reg := walk c.links.prev JIT_HOST_NREG c.links.tail

def HregCpu.setMap (c : HregCpu) (hreg : Reg) (map : HregMap) : HregCpu :=
  { c with map := Function.update c.map hreg map }

def HregCpu.setPpcReg (c : HregCpu) (r : RegNum) (hreg : Option Reg) : HregCpu :=
  { c with ppcRegMap := Function.update c.ppcRegMap r hreg }

def extractHreg (c : HregCpu) (hreg : Reg) : HregCpu := { c with links := extract c.links hreg }

def insertHregMru (c : HregCpu) (hreg : Reg) : HregCpu :=
  { c with links := insertHead c.links hreg }

def initHregMapping (c : HregCpu) : HregCpu :=
  let c := { c with links := { c.links with head := none, tail := none } }
  let c := availHregs.foldl (fun c hreg => insertHregMru (c.setMap hreg ⟨none, .free⟩) hreg) c
  { c with ppcRegMap := fun _ => none }

/-- `ppc32_jit_start_hreg_seq` -/
def startHregSequence (c : HregCpu) : HregCpu :=
  { c with
    map := c.mruWalk.foldl
      (fun map hreg => Function.update map hreg { map hreg with flags := .free }) c.map }

/-- The loop of `ppc32_jit_get_free_hreg` -/
def searchFreeHreg (map : Reg → HregMap) : List Reg → Option Reg → Option Reg
  | [], oldestFree => oldestFree
  | hreg :: rest, oldestFree =>
    if (map hreg).vreg = none ∧ (map hreg).flags = .free then some hreg
    else searchFreeHreg map rest
      (if (map hreg).flags = .free ∧ oldestFree = none then some hreg else oldestFree)

def getFreeHreg (c : HregCpu) : Option Reg := searchFreeHreg c.map c.lruWalk none

/-- The PowerPC register that a mapping had is not mapped any more. -/
def HregCpu.dropVreg (c : HregCpu) (vreg : Option RegNum) : HregCpu :=
  match vreg with
  | some r => c.setPpcReg r none
  | none => c

/-- `ppc32_jit_alloc_hreg`; none for -1. -/
def allocHostReg (ppcReg : Option RegNum) (c : HregCpu) : Option Reg × HregCpu :=
  match ppcReg with
  | none =>
    match getFreeHreg c with
    | none => (none, c)
    | some hreg => (some hreg, (c.dropVreg (c.map hreg).vreg).setMap hreg ⟨none, .locked⟩)
  | some r =>
    match c.ppcRegMap r with
    | some hreg =>
      let c := c.setMap hreg { c.map hreg with flags := .locked }
      (some hreg, insertHregMru (extractHreg c hreg) hreg)
    | none =>
      match getFreeHreg c with
      | none => (none, c)
      | some hreg =>
        let c := (c.dropVreg (c.map hreg).vreg).setPpcReg r (some hreg)
        let c := c.setMap hreg ⟨some r, .locked⟩
        (some hreg, insertHregMru (extractHreg c hreg) hreg)

/-- `ppc32_jit_alloc_hreg_forced`, with whether it returns 0. -/
def allocHostRegForced (hreg : Reg) (c : HregCpu) : Bool × HregCpu :=
  if (c.map hreg).flags ≠ .free then (false, c)
  else (true, (c.setMap hreg ⟨none, .forced⟩).dropVreg (c.map hreg).vreg)

/-- A call of the translator, which forces only registers that can be allocated. -/
inductive HregCall where
  | startSeq
  | alloc (ppcReg : Option RegNum)
  | allocForced (hreg : { h : Reg // h ∈ availHregs })

/-- The registers, with those that were allocated since the start of a sequence and
what for. -/
structure HregRun where
  cpu : HregCpu
  items : List (Option RegNum × Reg)

def hregStep (s : HregRun) : HregCall → HregRun
  | .startSeq => ⟨startHregSequence s.cpu, []⟩
  | .alloc ppcReg =>
    match allocHostReg ppcReg s.cpu with
    | (none, c) => ⟨c, s.items⟩
    | (some hreg, c) => ⟨c, (ppcReg, hreg) :: s.items⟩
  | .allocForced hreg =>
    match allocHostRegForced hreg s.cpu with
    | (false, c) => ⟨c, s.items⟩
    | (true, c) => ⟨c, (none, hreg.val) :: s.items⟩

/-- The maps are inverse to each other, the list has the registers that can be
allocated, and two allocations of a sequence share a register only for one PowerPC
register. -/
structure HregSound (s : HregRun) : Prop where
  inverse : ∀ r h, s.cpu.ppcRegMap r = some h ↔ h ∈ availHregs ∧ (s.cpu.map h).vreg = some r
  list : ∃ l, Linked s.cpu.links l ∧ l.Perm availHregs
  shares : s.items.Pairwise fun a b => a.2 = b.2 → ∃ r, a.1 = some r ∧ b.1 = some r

def HregCpu.state (c : HregCpu) (l : List Reg) : HregState := ⟨c.map, l, c.ppcRegMap⟩

variable {c : HregCpu} {l : List Reg} {h : Reg} {items : List (Option RegNum × Reg)}

@[simp] theorem dropVreg_state (vreg : Option RegNum) :
    (c.dropVreg vreg).state l = (c.state l).unmap vreg := by
  cases vreg <;> rfl

@[simp] theorem dropVreg_links (vreg : Option RegNum) : (c.dropVreg vreg).links = c.links := by
  cases vreg <;> rfl

@[simp] theorem dropVreg_map (vreg : Option RegNum) : (c.dropVreg vreg).map = c.map := by
  cases vreg <;> rfl

theorem lruWalk_eq (hl : Linked c.links l) (hlen : l.length = 7) : c.lruWalk = l.reverse :=
  walk_chain hl.backward (by simp [hlen, JIT_HOST_NREG])

theorem mruWalk_eq (hl : Linked c.links l) (hlen : l.length = 7) : c.mruWalk = l :=
  walk_chain hl.forward (by simp [hlen, JIT_HOST_NREG])

theorem searchFreeHreg_eq (map : Reg → HregMap) (l : List Reg) (oldest : Option Reg) :
    searchFreeHreg map l oldest =
      (l.find? fun h => decide ((map h).vreg = none ∧ (map h).flags = .free)).or
        (oldest.or (l.find? fun h => decide ((map h).flags = .free))) := by
  induction l generalizing oldest with
  | nil => simp [searchFreeHreg]
  | cons h l ih =>
    rw [searchFreeHreg]
    by_cases hfirst : (map h).vreg = none ∧ (map h).flags = .free
    · simp [hfirst]
    · rw [if_neg hfirst, ih]
      by_cases hfree : (map h).flags = .free
      · have hvreg : (map h).vreg ≠ none := fun hv => hfirst ⟨hv, hfree⟩
        cases oldest with
        | none => simp [hfree, hvreg]
        | some o => simp [hfree, hvreg]
      · simp [hfree]

theorem getFreeHreg_eq (hl : Linked c.links l) (hlen : l.length = 7) :
    getFreeHreg c = jitGetFreeHreg (c.state l) := by
  rw [getFreeHreg, searchFreeHreg_eq, lruWalk_eq hl hlen, Option.none_or]
  rfl

theorem linked_makeMru (hl : Linked c.links l) (hmem : h ∈ l) :
    Linked (insertHregMru (extractHreg c h) h).links (h :: l.erase h) := by
  obtain ⟨l₁, l₂, rfl⟩ := List.append_of_mem hmem
  have hnodup := hl.nodup
  have hnot : h ∉ l₁ := fun hm =>
    (List.nodup_append.mp hnodup).2.2 h hm h List.mem_cons_self rfl
  have herase : (l₁ ++ h :: l₂).erase h = l₁ ++ l₂ := by
    rw [List.erase_append_right _ hnot, List.erase_cons_head]
  rw [herase]
  refine hl.extract.insertHead fun hm => ?_
  rcases List.mem_append.mp hm with h₁ | h₂
  · exact hnot h₁
  · exact (List.nodup_cons.mp (List.nodup_append.mp hnodup).2.1).1 h₂

theorem allocHostReg_spec (hl : Linked c.links l) (hok : HregOk (c.state l))
    (ppcReg : Option RegNum) :
    (allocHostReg ppcReg c = (none, c) ∧ jitAllocHreg ppcReg (c.state l) = none) ∨
      ∃ h c' l', allocHostReg ppcReg c = (some h, c') ∧ Linked c'.links l' ∧
        jitAllocHreg ppcReg (c.state l) = some (h, c'.state l') := by
  have hlen : l.length = 7 := hok.perm.length_eq
  have hget := getFreeHreg_eq hl hlen
  cases ppcReg with
  | none =>
    rw [allocHostReg, jitAllocHreg, hget]
    cases hfree : jitGetFreeHreg (c.state l) with
    | none => exact .inl ⟨rfl, rfl⟩
    | some h =>
      refine .inr ⟨h, _, l, rfl, ?_, ?_⟩
      · simpa [HregCpu.setMap] using hl
      · simp only [Option.map_some, ← dropVreg_state]
        rfl
  | some r =>
    have hstate : (c.state l).ppcRegMap r = c.ppcRegMap r := rfl
    rw [allocHostReg, jitAllocHreg, hget, hstate]
    cases hmap : c.ppcRegMap r with
    | some h =>
      have hmem := ((hok.inverse r h).mp hmap).1
      refine .inr ⟨h, _, h :: l.erase h, rfl, ?_, rfl⟩
      exact linked_makeMru (c := c.setMap h { c.map h with flags := .locked }) hl hmem
    | none =>
      cases hfree : jitGetFreeHreg (c.state l) with
      | none => exact .inl ⟨rfl, rfl⟩
      | some h =>
        have hmem := (getFreeHreg_some hfree).1
        refine .inr ⟨h, _, h :: l.erase h, rfl, ?_, ?_⟩
        · refine linked_makeMru ?_ hmem
          simpa [HregCpu.setMap, HregCpu.setPpcReg] using hl
        · simp only [Option.map_some]
          cases hv : (c.map h).vreg with
          | none => simp [HregCpu.state, HregState.unmap, hv]; rfl
          | some r' => simp [HregCpu.state, HregState.unmap, hv]; rfl

theorem allocHostRegForced_state (h : Reg) :
    (allocHostRegForced h c).2.state l = jitAllocHregForced h (c.state l) ∧
      ((allocHostRegForced h c).1 = true ↔ (c.map h).flags = .free) ∧
      (allocHostRegForced h c).2.links = c.links := by
  have hstate : (c.state l).map h = c.map h := rfl
  unfold allocHostRegForced jitAllocHregForced
  rw [hstate]
  by_cases hflags : (c.map h).flags ≠ .free
  · simp [hflags]
  · simp only [if_neg hflags, dropVreg_state, dropVreg_links, true_iff]
    refine ⟨?_, not_not.mp hflags, rfl⟩
    cases hv : (c.map h).vreg with
    | none => rfl
    | some r => rfl

theorem foldl_free (map : Reg → HregMap) (l : List Reg) :
    l.foldl (fun map h => Function.update map h { map h with flags := .free }) map =
      fun h => if h ∈ l then { map h with flags := .free } else map h := by
  induction l generalizing map with
  | nil => simp
  | cons h l ih =>
    rw [List.foldl_cons, ih]
    funext h'
    by_cases heq : h' = h
    · subst heq
      by_cases hmem : h' ∈ l
      · simp [hmem]
      · simp [hmem]
    · by_cases hmem : h' ∈ l
      · simp [hmem, heq]
      · simp [hmem, heq]

theorem startHregSequence_state (hl : Linked c.links l) (hlen : l.length = 7) :
    (startHregSequence c).state l = jitStartHregSeq (c.state l) := by
  unfold startHregSequence
  rw [mruWalk_eq hl hlen, foldl_free]
  rfl

theorem foldl_insert (xs : List Reg) (hl : Linked c.links l) (hnodup : (xs ++ l).Nodup)
    (hfree : ∀ h ∈ l, c.map h = ⟨none, .free⟩) :
    let c' := xs.foldl (fun c hreg => insertHregMru (c.setMap hreg ⟨none, .free⟩) hreg) c
    Linked c'.links (xs.reverse ++ l) ∧ ∀ h ∈ xs.reverse ++ l, c'.map h = ⟨none, .free⟩ := by
  induction xs generalizing c l with
  | nil => exact ⟨hl, hfree⟩
  | cons x xs ih =>
    obtain ⟨hx, hrest⟩ := List.nodup_cons.mp hnodup
    have hxl : x ∉ l := fun hm => hx (List.mem_append_right xs hm)
    have hnodup' : (xs ++ x :: l).Nodup := (List.perm_middle.nodup_iff).mpr hnodup
    have hmap : ∀ h ∈ x :: l, (insertHregMru (c.setMap x ⟨none, .free⟩) x).map h =
        ⟨none, .free⟩ := by
      intro h hm
      by_cases heq : h = x
      · subst heq
        exact Function.update_self ..
      · have hmem : h ∈ l := (List.mem_cons.mp hm).resolve_left heq
        exact (Function.update_of_ne heq _ _).trans (hfree h hmem)
    have hrun := @ih (insertHregMru (c.setMap x ⟨none, .free⟩) x) (x :: l)
      (hl.insertHead hxl) hnodup' hmap
    rw [List.reverse_cons, List.append_assoc, List.singleton_append]
    exact hrun

/-- What holds of the registers and of the allocations of a sequence. -/
structure HregInv (s : HregRun) (l : List Reg) : Prop where
  linked : Linked s.cpu.links l
  ok : HregOk (s.cpu.state l)
  assigned : Assigned s.items (s.cpu.state l)
  shares : s.items.Pairwise fun a b => a.2 = b.2 → ∃ r, a.1 = some r ∧ b.1 = some r

theorem HregInv.sound {s : HregRun} (hinv : HregInv s l) : HregSound s where
  inverse r h := by
    have hiff := hinv.ok.inverse r h
    rwa [hinv.ok.mem_list] at hiff
  list := ⟨l, hinv.linked, hinv.ok.perm⟩
  shares := hinv.shares

theorem hregInv_init (c : HregCpu) : ∃ l, HregInv ⟨initHregMapping c, []⟩ l := by
  have hempty : Linked { c.links with head := none, tail := none } [] := ⟨rfl, rfl⟩
  obtain ⟨hlinked, hmap⟩ := @foldl_insert
    { c with links := { c.links with head := none, tail := none } } [] availHregs hempty
    (by decide) (by simp)
  rw [List.append_nil] at hlinked hmap
  refine ⟨availHregs.reverse, hlinked, ⟨List.reverse_perm _, fun r h => ?_⟩, ⟨fun h hm => ?_, ?_⟩,
    List.Pairwise.nil⟩
  · constructor
    · intro hr
      cases hr
    · rintro ⟨hm, hvreg⟩
      have hnone : ((initHregMapping c).map h).vreg = none := congrArg HregMap.vreg (hmap h hm)
      cases hnone.symm.trans hvreg
  · have hfree : ((initHregMapping c).map h).flags = .free := congrArg HregMap.flags (hmap h hm)
    exact iff_of_false (fun hne => hne hfree) (by simp)
  · simp

theorem HregInv.alloc {s : HregRun} (hinv : HregInv s l) (ppcReg : Option RegNum) :
    ∃ l', HregInv (hregStep s (.alloc ppcReg)) l' := by
  unfold hregStep
  rcases allocHostReg_spec hinv.linked hinv.ok ppcReg with
    ⟨hnone, -⟩ | ⟨h, c', l', halloc, hlinked, hlist⟩
  · simp only [hnone]
    exact ⟨l, hinv⟩
  · simp only [halloc]
    obtain ⟨hok, hassigned, hshare⟩ := jitAllocHreg_spec hinv.ok hinv.assigned hlist
    refine ⟨l', hlinked, hok, hassigned, List.pairwise_cons.mpr ⟨fun b hb heq => ?_, hinv.shares⟩⟩
    exact hshare b.1 (by rw [show h = b.2 from heq]; exact hb)

theorem HregInv.forced {s : HregRun} (hinv : HregInv s l) (h : { h : Reg // h ∈ availHregs }) :
    HregInv (hregStep s (.allocForced h)) l := by
  obtain ⟨hstate, hsucceeds, hlinks⟩ := @allocHostRegForced_state s.cpu l h.val
  have hlisted : h.val ∈ l := hinv.ok.mem_list.mpr h.property
  by_cases hflags : (s.cpu.map h.val).flags = .free
  · have hnew : ∀ k, (k, h.val) ∉ s.items := fun k hk =>
      (hinv.assigned.taken h.val hlisted).mpr ⟨k, hk⟩ hflags
    obtain ⟨hok, hassigned⟩ := jitAllocHregForced_spec hinv.ok hinv.assigned h.property hnew
    rw [← hstate] at hok hassigned
    have hstep : hregStep s (.allocForced h) =
        ⟨(allocHostRegForced h.val s.cpu).2, (none, h.val) :: s.items⟩ := by
      simp [hregStep, allocHostRegForced, hflags]
    rw [hstep]
    refine ⟨by rw [hlinks]; exact hinv.linked, hok, hassigned,
      List.pairwise_cons.mpr ⟨fun b hb heq => ?_, hinv.shares⟩⟩
    have hheld : (b.1, h.val) ∈ s.items := by
      rw [show h.val = b.2 from heq]
      exact hb
    exact absurd hheld (hnew b.1)
  · have hstep : hregStep s (.allocForced h) = s := by
      simp [hregStep, allocHostRegForced, hflags]
    rw [hstep]
    exact hinv

theorem hregStep_inv {s : HregRun} (hinv : HregInv s l) (call : HregCall) :
    ∃ l', HregInv (hregStep s call) l' := by
  cases call with
  | startSeq =>
    have hlen : l.length = 7 := hinv.ok.perm.length_eq
    have hstate := startHregSequence_state hinv.linked hlen
    obtain ⟨hok, hassigned⟩ := hinv.ok.start
    rw [← hstate] at hok hassigned
    exact ⟨l, hinv.linked, hok, hassigned, List.Pairwise.nil⟩
  | alloc ppcReg => exact hinv.alloc ppcReg
  | allocForced h => exact ⟨l, hinv.forced h⟩

theorem hregSteps_inv (calls : List HregCall) {s : HregRun} (hinv : HregInv s l) :
    ∃ l', HregInv (calls.foldl hregStep s) l' := by
  induction calls generalizing s l with
  | nil => exact ⟨l, hinv⟩
  | cons call calls ih =>
    obtain ⟨l', hinv'⟩ := hregStep_inv hinv call
    exact ih hinv'

/-- After the mapping is set up, over whatever was in memory, all calls keep it sound. -/
theorem hreg_sound (c : HregCpu) (calls : List HregCall) :
    HregSound (calls.foldl hregStep ⟨initHregMapping c, []⟩) := by
  obtain ⟨l, hinit⟩ := hregInv_init c
  obtain ⟨l', hinv⟩ := hregSteps_inv calls hinit
  exact hinv.sound

end Dynamips.Ppc32
