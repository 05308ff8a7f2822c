import Dynamips.Device
import Dynamips.Lib.BackLinks
import Dynamips.Lib.Runs
import Mathlib.Combinatorics.Enumerative.DoubleCounting
import Mathlib.Data.Fintype.Card
import Mathlib.Data.List.FinRange
import Mathlib.Data.List.TakeWhile

/-! The devices of a virtual machine: the list that `vm_bind_device`,
`vm_unbind_device` and `vm_map_device` keep sorted by physical address, the table
of their ids (vm.c), and the lookups in both (device.c). -/
set_option autoImplicit false

namespace Dynamips.DeviceList

open BackLinks
open Runs

def VM_DEVICE_MAX : Nat := 64

/-- The devices that `vm->dev_list` and `vm->dev_array` point to; `dev` has the
fields of each but for its links. -/
structure Devices (P : Type) where
  links : Heap Unit P
  dev : P → VDevice
  devArray : Fin VM_DEVICE_MAX → Option P

variable {P : Type}

def devGetById (s : Devices P) (devId : BitVec 32) : Option P :=
  if h : devId.toNat < VM_DEVICE_MAX then s.devArray ⟨devId.toNat, h⟩ else none

/-- A turn of the loop of `dev_lookup` -/
def Devices.answers (s : Devices P) (physAddr : BitVec 64) (cached : Bool) (x : P) : Bool :=
  !(cached && !(s.dev x).has vdeviceFlagCaching) && (s.dev x).covers physAddr

/-- `dev_lookup`; nothing where the list has more nodes than there can be devices. -/
def lookup (s : Devices P) (physAddr : BitVec 64) (cached : Bool) : Option (Option P) :=
  (findCell s.links (s.answers physAddr cached) (VM_DEVICE_MAX + 1) (.head ())).map s.links.read

variable [DecidableEq P]

def Devices.setDev (s : Devices P) (x : P) (dev : VDevice) : Devices P :=
  { s with dev := Function.update s.dev x dev }

/-- `vm_bind_device` with its result -/
def vmBindDevice (s : Devices P) (x : P) : Option (Int × Devices P) :=
  match (List.finRange VM_DEVICE_MAX).find? fun i => (s.devArray i).isNone with
  | none => some (-1, s)
  | some i =>
    let s := { s with devArray := Function.update s.devArray i (some x) }
    let s := s.setDev x { s.dev x with id := BitVec.ofNat 32 i.val }
    (findCell s.links (fun y => decide ((s.dev x).physAddr < (s.dev y).physAddr))
      (VM_DEVICE_MAX + 1) (.head ())).map fun cur =>
        (0, { s with links := insertAt s.links cur x })

def vmUnbindDevice (s : Devices P) (x : P) : Int × Devices P :=
  if (s.links.pprev x).isNone then (-1, s)
  else
    let links := unlink s.links x
    let devArray :=
      match (List.finRange VM_DEVICE_MAX).find? fun i => decide (s.devArray i = some x) with
      | none => s.devArray
      | some i => Function.update s.devArray i none
    (0, { s with
      links := (links.write (.next x) none).setPprev x none
      devArray := devArray })

/-- `vm_map_device`, which does not look at the result of the new binding. -/
def vmMapDevice (s : Devices P) (x : P) (baseAddr : BitVec 64) : Option (Int × Devices P) :=
  let s := (vmUnbindDevice s x).2
  let s := s.setDev x { s.dev x with physAddr := baseAddr }
  (vmBindDevice s x).map fun r => (0, r.2)

inductive DevCall (P : Type) where
  | setUp (x : P) (dev : VDevice)
  | bind (x : P)
  | unbind (x : P)
  | map (x : P) (baseAddr : BitVec 64)

def DevCall.exec (c : DevCall P) (s : Devices P) : Option (Int × Devices P) :=
  match c with
  | .setUp x dev => some (0, s.setDev x dev)
  | .bind x => vmBindDevice s x
  | .unbind x => some (vmUnbindDevice s x)
  | .map x baseAddr => vmMapDevice s x baseAddr

/-- The bound devices with a device added, where the table has room for it. -/
def bindTo (bound : List P) (x : P) : List P :=
  if bound.length < VM_DEVICE_MAX then x :: bound else bound

def DevCall.bound (c : DevCall P) (bound : List P) : List P :=
  match c with
  | .setUp _ _ => bound
  | .bind x => bindTo bound x
  | .unbind x => bound.erase x
  | .map x _ => bindTo (bound.erase x) x

def DevCall.result (c : DevCall P) (bound : List P) : Int :=
  match c with
  | .setUp _ _ => 0
  | .bind _ => if bound.length < VM_DEVICE_MAX then 0 else -1
  | .unbind x => if x ∈ bound then 0 else -1
  | .map _ _ => 0

/-- The bound devices are those of the list, sorted, and those of the table, each
under its id. -/
structure Bound (s : Devices P) (bound l : List P) : Prop where
  links : Segment s.links (.head ()) l
  sorted : l.Pairwise fun x y => (s.dev x).physAddr.toNat ≤ (s.dev y).physAddr.toNat
  perm : l.Perm bound
  free : ∀ x, x ∉ bound → s.links.pprev x = none
  named : ∀ i x, s.devArray i = some x ↔ x ∈ bound ∧ (s.dev x).id = BitVec.ofNat 32 i.val
  ids : ∀ x ∈ bound, ∃ i : Fin VM_DEVICE_MAX, (s.dev x).id = BitVec.ofNat 32 i.val

variable {s : Devices P} {bound l l₁ l₂ : List P} {x : P} {cur : Cell Unit P}

theorem slot_injective {i j : Fin VM_DEVICE_MAX}
    (h : BitVec.ofNat 32 i.val = BitVec.ofNat 32 j.val) : i = j := by
  have hi : i.val < 64 := i.isLt
  have hj : j.val < 64 := j.isLt
  have hval := congrArg BitVec.toNat h
  simp only [BitVec.toNat_ofNat] at hval
  apply Fin.ext
  omega

omit [DecidableEq P] in
theorem Bound.mem (h : Bound s bound l) : x ∈ l ↔ x ∈ bound := h.perm.mem_iff

omit [DecidableEq P] in
theorem Bound.nodup (h : Bound s bound l) : bound.Nodup := h.perm.nodup_iff.mp h.links.nodup

theorem Bound.length_le_card (h : Bound s bound l) {slots : Finset (Fin VM_DEVICE_MAX)}
    (hslots : ∀ i, s.devArray i ≠ none → i ∈ slots) : bound.length ≤ slots.card := by
  rw [← List.toFinset_card_of_nodup h.nodup]
  refine Finset.card_le_card_of_forall_subsingleton (fun x i => s.devArray i = some x) ?_ ?_
  · intro x hx
    have hx' := List.mem_toFinset.mp hx
    obtain ⟨i, hi⟩ := h.ids x hx'
    have hslot := (h.named i x).mpr ⟨hx', hi⟩
    exact ⟨i, hslots i (by simp [hslot]), hslot⟩
  · intro i _ x hx y hy
    exact Option.some.inj (hx.2.symm.trans hy.2)

theorem Bound.length_le (h : Bound s bound l) : bound.length ≤ VM_DEVICE_MAX := by
  have hle := h.length_le_card fun i _ => Finset.mem_univ i
  rwa [Finset.card_univ, Fintype.card_fin] at hle

theorem Bound.room (h : Bound s bound l) :
    (∃ i, s.devArray i = none) ↔ bound.length < VM_DEVICE_MAX := by
  constructor
  · intro ⟨free, hfree⟩
    have hle : bound.length ≤ (Finset.univ.erase free).card := h.length_le_card fun i hi =>
      Finset.mem_erase.mpr ⟨fun heq => hi (heq ▸ hfree), Finset.mem_univ i⟩
    rw [Finset.card_erase_of_mem (Finset.mem_univ free), Finset.card_univ, Fintype.card_fin] at hle
    have hpos : 0 < VM_DEVICE_MAX := by decide
    omega
  · intro hlt
    by_contra hnone
    have hle : (Finset.univ : Finset (Fin VM_DEVICE_MAX)).card ≤ bound.toFinset.card := by
      refine Finset.card_le_card_of_forall_subsingleton (fun i x => s.devArray i = some x) ?_ ?_
      · intro i _
        cases hi : s.devArray i with
        | none => exact absurd ⟨i, hi⟩ hnone
        | some x => exact ⟨x, List.mem_toFinset.mpr ((h.named i x).mp hi).1, rfl⟩
      · intro x _ i hi j hj
        exact slot_injective (((h.named i x).mp hi.2).2.symm.trans ((h.named j x).mp hj.2).2)
    rw [Finset.card_univ, Fintype.card_fin, List.toFinset_card_of_nodup h.nodup] at hle
    omega

theorem Bound.setDev (h : Bound s bound l) (hx : x ∉ bound) (dev : VDevice) :
    Bound (s.setDev x dev) bound l := by
  have hsame : ∀ y ∈ bound, (s.setDev x dev).dev y = s.dev y := by
    intro y hy
    have hne : y ≠ x := fun heq => hx (heq ▸ hy)
    exact Function.update_of_ne hne ..
  constructor
  case links => exact h.links
  case sorted =>
    refine h.sorted.imp_of_mem fun ha hb hab => ?_
    rw [hsame _ (h.mem.mp ha), hsame _ (h.mem.mp hb)]
    exact hab
  case perm => exact h.perm
  case free => exact h.free
  case named =>
    intro i y
    refine (h.named i y).trans (and_congr_right fun hy => ?_)
    rw [hsame y hy]
  case ids =>
    intro y hy
    rw [hsame y hy]
    exact h.ids y hy

omit [DecidableEq P] in
theorem find_isNone_eq_none :
    (List.finRange VM_DEVICE_MAX).find? (fun i => (s.devArray i).isNone) = none ↔
      ¬ ∃ i, s.devArray i = none := by
  simp [List.find?_eq_none]

/-- The state before a device gets its links, where its slot is `i`. -/
def Devices.named (s : Devices P) (x : P) (i : Fin VM_DEVICE_MAX) : Devices P :=
  { s with devArray := Function.update s.devArray i (some x) }.setDev x
    { s.dev x with id := BitVec.ofNat 32 i.val }

def Devices.link (s : Devices P) (x : P) (i : Fin VM_DEVICE_MAX) (cur : Cell Unit P) : Devices P :=
  { s.named x i with links := insertAt s.links cur x }

theorem dev_link_ne (s : Devices P) {y : P} (hy : y ≠ x) (i : Fin VM_DEVICE_MAX)
    (cur : Cell Unit P) : (s.link x i cur).dev y = s.dev y := Function.update_of_ne hy ..

theorem id_link (s : Devices P) (x : P) (i : Fin VM_DEVICE_MAX) (cur : Cell Unit P) :
    ((s.link x i cur).dev x).id = BitVec.ofNat 32 i.val := by
  simp [Devices.link, Devices.named, Devices.setDev]

theorem physAddr_named (s : Devices P) (x y : P) (i : Fin VM_DEVICE_MAX) :
    ((s.named x i).dev y).physAddr = (s.dev y).physAddr := by
  by_cases hy : y = x
  · subst hy
    simp [Devices.named, Devices.setDev]
  · simp [Devices.named, Devices.setDev, Function.update_of_ne hy]

omit [DecidableEq P] in
theorem Bound.length (h : Bound s bound l) : l.length = bound.length := h.perm.length_eq

theorem bind_full (h : Bound s bound l) (hfull : ¬ bound.length < VM_DEVICE_MAX) :
    vmBindDevice s x = some (-1, s) := by
  have hnone := find_isNone_eq_none.mpr (mt h.room.mp hfull)
  simp only [vmBindDevice, hnone]

theorem bind_links (h : Bound s bound l) (hroom : bound.length < VM_DEVICE_MAX) :
    ∃ i, s.devArray i = none ∧ ∃ cur,
      findCell s.links (fun y => decide ((s.dev x).physAddr < (s.dev y).physAddr))
        (VM_DEVICE_MAX + 1) (.head ()) = some cur ∧
      vmBindDevice s x = some (0, s.link x i cur) := by
  obtain ⟨i, hi⟩ : ∃ i, (List.finRange VM_DEVICE_MAX).find?
      (fun i => (s.devArray i).isNone) = some i := by
    cases hfind : (List.finRange VM_DEVICE_MAX).find? fun i => (s.devArray i).isNone with
    | none => exact absurd (h.room.mpr hroom) (find_isNone_eq_none.mp hfind)
    | some i => exact ⟨i, rfl⟩
  have hle : l.length + 1 ≤ VM_DEVICE_MAX + 1 := by
    have hlen := h.length
    omega
  have hcur := findCell_mono
    (h.links.findCell fun y => decide ((s.dev x).physAddr < (s.dev y).physAddr)) hle
  refine ⟨i, by simpa using List.find?_some hi, _, hcur, ?_⟩
  have hstop : (fun y => decide (((s.named x i).dev x).physAddr < ((s.named x i).dev y).physAddr)) =
      fun y => decide ((s.dev x).physAddr < (s.dev y).physAddr) := by
    funext y
    rw [physAddr_named, physAddr_named]
  have hcur' : findCell s.links
      (fun y => decide (((s.named x i).dev x).physAddr < ((s.named x i).dev y).physAddr))
      (VM_DEVICE_MAX + 1) (.head ()) = _ := (congrArg (fun stop => findCell s.links stop
        (VM_DEVICE_MAX + 1) (.head ())) hstop).trans hcur
  simp only [vmBindDevice, hi]
  exact congrArg (Option.map fun cur => ((0 : Int), s.link x i cur)) hcur'

theorem links_link (h : Bound s bound l) (hx : x ∉ l) (hcur : cur = endCell (.head ()) l₁)
    (hl : l = l₁ ++ l₂) (i : Fin VM_DEVICE_MAX) :
    Segment (s.link x i cur).links (.head ()) (l₁ ++ x :: l₂) := by
  have hs := h.links
  rw [hl] at hs hx
  rw [hcur]
  exact hs.insertAt hx (by simp) (by simp)

theorem pprev_link (h : Bound s bound l) (hx : x ∉ l) (hcur : cur = endCell (.head ()) l₁)
    (hl : l = l₁ ++ l₂) (i : Fin VM_DEVICE_MAX) {y : P} (hyx : y ≠ x) (hy : y ∉ l) :
    (s.link x i cur).links.pprev y = s.links.pprev y := by
  have hs := h.links
  rw [hl] at hs hx hy
  have hread : s.links.read cur ≠ some y := by
    rw [hcur, hs.read_endCell]
    intro hhead
    exact hy (List.mem_append_right l₁ (List.mem_of_mem_head? hhead))
  have hne : cur ≠ .next x := by
    rw [hcur]
    cases endCell_cases (.head () : Cell Unit P) l₁ with
    | inl heq => simp [heq]
    | inr hex =>
      obtain ⟨z, hz, heq⟩ := hex
      rw [heq]
      intro hzx
      cases hzx
      exact hx (List.mem_append_left l₂ hz)
  exact (pprev_insertAt hne y).trans (by rw [if_neg hyx, if_neg hread])

theorem bound_link (h : Bound s bound l) (hx : x ∉ bound) {i : Fin VM_DEVICE_MAX}
    (hi : s.devArray i = none) (hl : l = l₁ ++ l₂) (hcur : cur = endCell (.head ()) l₁)
    (hsorted : (l₁ ++ x :: l₂).Pairwise fun a b =>
      (s.dev a).physAddr.toNat ≤ (s.dev b).physAddr.toNat) :
    Bound (s.link x i cur) (x :: bound) (l₁ ++ x :: l₂) := by
  have hxl : x ∉ l := fun hmem => hx (h.mem.mp hmem)
  have hdev : ∀ y ∈ bound, (s.link x i cur).dev y = s.dev y := by
    intro y hy
    have hne : y ≠ x := fun heq => hx (heq ▸ hy)
    exact dev_link_ne s hne i cur
  constructor
  case links => exact links_link h hxl hcur hl i
  case sorted =>
    refine hsorted.imp fun hab => ?_
    have hkey : ∀ y, ((s.link x i cur).dev y).physAddr = (s.dev y).physAddr :=
      fun y => physAddr_named s x y i
    rw [hkey, hkey]
    exact hab
  case perm => exact List.perm_middle.trans ((hl ▸ h.perm).cons x)
  case free =>
    intro y hy
    rw [List.mem_cons, not_or] at hy
    rw [pprev_link h hxl hcur hl i hy.1 fun hmem => hy.2 (h.mem.mp hmem)]
    exact h.free y hy.2
  case named =>
    intro j y
    by_cases hji : j = i
    · subst hji
      have hslot : (s.link x j cur).devArray j = some x := Function.update_self ..
      rw [hslot, List.mem_cons]
      constructor
      · intro heq
        cases heq
        exact ⟨Or.inl rfl, id_link s x j cur⟩
      · intro ⟨hy, hid⟩
        by_cases hyx : y = x
        · rw [hyx]
        · have hyb := hy.resolve_left hyx
          rw [hdev y hyb] at hid
          rw [(h.named j y).mpr ⟨hyb, hid⟩] at hi
          cases hi
    · have hslot : (s.link x i cur).devArray j = s.devArray j := Function.update_of_ne hji ..
      rw [hslot, h.named j y, List.mem_cons]
      by_cases hyx : y = x
      · subst hyx
        rw [id_link]
        constructor
        · intro hy
          exact absurd hy.1 hx
        · intro hy
          exact absurd (slot_injective hy.2.symm) hji
      · rw [dev_link_ne s hyx i cur]
        simp only [hyx, false_or]
  case ids =>
    intro y hy
    by_cases hyx : y = x
    · exact ⟨i, by rw [hyx, id_link]⟩
    · rw [dev_link_ne s hyx i cur]
      exact h.ids y ((List.mem_cons.mp hy).resolve_left hyx)

theorem bind_bound (h : Bound s bound l) (hx : x ∉ bound)
    (hroom : bound.length < VM_DEVICE_MAX) :
    ∃ s' l', vmBindDevice s x = some (0, s') ∧ Bound s' (x :: bound) l' := by
  obtain ⟨i, hi, cur, hcur, hbind⟩ := bind_links (x := x) h hroom
  have hsorted := @BackLinks.sorted_insert _ _ x (fun y => (s.dev y).physAddr.toNat)
    (fun y => decide ((s.dev x).physAddr < (s.dev y).physAddr)) h.sorted
    fun y _ => by simp [BitVec.lt_def]
  exact ⟨_, _, hbind, bound_link h hx hi List.takeWhile_append_dropWhile.symm
    (h.links.findCell_eq hcur) hsorted⟩

theorem unbind_free (h : Bound s bound l) (hx : x ∉ bound) : vmUnbindDevice s x = (-1, s) := by
  rw [vmUnbindDevice, if_pos (by rw [h.free x hx]; rfl)]

def Devices.unlinked (s : Devices P) (x : P) (i : Fin VM_DEVICE_MAX) : Devices P :=
  { s with
    links := ((unlink s.links x).write (.next x) none).setPprev x none
    devArray := Function.update s.devArray i none }

theorem unbind_links (h : Bound s bound l) (hl : l = l₁ ++ x :: l₂) :
    ∃ i, s.devArray i = some x ∧ vmUnbindDevice s x = (0, s.unlinked x i) := by
  have hx : x ∈ bound := h.mem.mp (by simp [hl])
  have hs := h.links
  rw [hl] at hs
  obtain ⟨i, hi⟩ : ∃ i, (List.finRange VM_DEVICE_MAX).find?
      (fun i => decide (s.devArray i = some x)) = some i := by
    obtain ⟨j, hj⟩ := h.ids x hx
    have hslot := (h.named j x).mpr ⟨hx, hj⟩
    cases hfind : (List.finRange VM_DEVICE_MAX).find? fun i => decide (s.devArray i = some x) with
    | none => exact absurd hslot (by simpa using List.find?_eq_none.mp hfind j (by simp))
    | some i => exact ⟨i, rfl⟩
  refine ⟨i, by simpa using List.find?_some hi, ?_⟩
  rw [vmUnbindDevice, if_neg (by simp [hs.pprev_endCell])]
  simp only [hi]
  rfl

theorem segment_unlinked (h : Bound s bound l) (hl : l = l₁ ++ x :: l₂)
    (i : Fin VM_DEVICE_MAX) : Segment (s.unlinked x i).links (.head ()) (l₁ ++ l₂) := by
  have hs := h.links
  rw [hl] at hs
  have hnot := (List.nodup_cons.mp (List.nodup_middle.mp hs.nodup)).1
  refine (hs.unlink (by simp)).congr (by simp [Devices.unlinked]) (fun y hy => ?_) fun y hy => ?_
  · have hne : y ≠ x := fun heq => hnot (heq ▸ hy)
    rw [← read_next, ← read_next]
    simp [Devices.unlinked, hne]
  · have hne : y ≠ x := fun heq => hnot (heq ▸ hy)
    simp [Devices.unlinked, hne]

theorem pprev_unlinked (h : Bound s bound l) (hl : l = l₁ ++ x :: l₂) (i : Fin VM_DEVICE_MAX)
    {y : P} (hyx : y ≠ x) (hy : y ∉ l) :
    (s.unlinked x i).links.pprev y = s.links.pprev y := by
  have hs := h.links
  rw [hl] at hs hy
  have hread : s.links.read (endCell (.head ()) (l₁ ++ [x])) = l₂.head? :=
    Segment.read_endCell (by simpa using hs)
  have hnext : s.links.next x ≠ some y := by
    intro heq
    rw [endCell_append, endCell, endCell, read_next, heq] at hread
    exact hy (List.mem_append_right l₁
      (List.mem_cons_of_mem x (List.mem_of_mem_head? hread.symm)))
  have hunlink : (unlink s.links x).pprev y = s.links.pprev y := by
    rw [pprev_unlink hs.pprev_endCell, if_neg hnext]
  simp [Devices.unlinked, hyx, hunlink]

theorem bound_unlinked (h : Bound s bound l) (hl : l = l₁ ++ x :: l₂) {i : Fin VM_DEVICE_MAX}
    (hi : s.devArray i = some x) : Bound (s.unlinked x i) (bound.erase x) (l₁ ++ l₂) := by
  have hnodup := h.nodup
  have hx : x ∈ bound := h.mem.mp (by simp [hl])
  constructor
  case links => exact segment_unlinked h hl i
  case sorted =>
    have hsorted := h.sorted
    rw [hl] at hsorted
    exact hsorted.sublist ((List.Sublist.refl l₁).append (List.sublist_cons_self x l₂))
  case perm =>
    have hperm : (x :: (l₁ ++ l₂)).Perm (x :: bound.erase x) :=
      List.perm_middle.symm.trans ((hl ▸ h.perm).trans (List.perm_cons_erase hx))
    exact hperm.cons_inv
  case free =>
    intro y hy
    by_cases hyx : y = x
    · subst hyx
      simp [Devices.unlinked]
    · have hyb : y ∉ bound := fun hmem => hy (hnodup.mem_erase_iff.mpr ⟨hyx, hmem⟩)
      rw [pprev_unlinked h hl i hyx fun hmem => hyb (h.mem.mp hmem)]
      exact h.free y hyb
  case named =>
    intro j y
    rw [hnodup.mem_erase_iff]
    by_cases hji : j = i
    · subst hji
      have hslot : (s.unlinked x j).devArray j = none := Function.update_self ..
      rw [hslot]
      constructor
      · intro heq
        cases heq
      · intro ⟨⟨hyx, hy⟩, hid⟩
        have hsome := (h.named j y).mpr ⟨hy, hid⟩
        exact absurd (Option.some.inj (hsome.symm.trans hi)) hyx
    · have hslot : (s.unlinked x i).devArray j = s.devArray j := Function.update_of_ne hji ..
      rw [hslot, h.named j y]
      constructor
      · intro ⟨hy, hid⟩
        refine ⟨⟨fun hyx => hji ?_, hy⟩, hid⟩
        rw [hyx] at hid
        exact slot_injective (hid.symm.trans ((h.named i x).mp hi).2)
      · intro ⟨⟨_, hy⟩, hid⟩
        exact ⟨hy, hid⟩
  case ids =>
    intro y hy
    exact h.ids y (List.mem_of_mem_erase hy)

theorem unbind_bound (h : Bound s bound l) (hx : x ∈ bound) :
    ∃ s' l', vmUnbindDevice s x = (0, s') ∧ Bound s' (bound.erase x) l' := by
  obtain ⟨l₁, l₂, hl⟩ := List.append_of_mem (h.mem.mpr hx)
  obtain ⟨i, hi, hunbind⟩ := unbind_links h hl
  exact ⟨_, _, hunbind, bound_unlinked h hl hi⟩

def InRange (dev : VDevice) (physAddr : BitVec 64) : Prop :=
  dev.physAddr.toNat ≤ physAddr.toNat ∧ physAddr.toNat < dev.physAddr.toNat + dev.physLen.toNat

theorem covers_iff (dev : VDevice) (physAddr : BitVec 64) :
    dev.covers physAddr = true ↔ InRange dev physAddr := by
  have haddr := physAddr.isLt
  have hlen := dev.physLen.isLt
  simp only [VDevice.covers, InRange, Bool.and_eq_true, decide_eq_true_eq, BitVec.le_def,
    BitVec.lt_def, BitVec.toNat_sub, BitVec.toNat_setWidth]
  omega

def Answers (dev : VDevice) (physAddr : BitVec 64) (cached : Bool) : Prop :=
  (cached = true → dev.has vdeviceFlagCaching = true) ∧ InRange dev physAddr

omit [DecidableEq P] in
theorem answers_iff (s : Devices P) (physAddr : BitVec 64) (cached : Bool) (x : P) :
    s.answers physAddr cached x = true ↔ Answers (s.dev x) physAddr cached := by
  rw [Answers, ← covers_iff]
  cases cached with
  | false => simp [Devices.answers]
  | true => simp [Devices.answers]

/-- What a lookup has to find: the device with the lowest base of those that answer. -/
def Lowest (s : Devices P) (bound : List P) (physAddr : BitVec 64) (cached : Bool) :
    Option P → Prop
  | none => ∀ y ∈ bound, ¬ Answers (s.dev y) physAddr cached
  | some x => x ∈ bound ∧ Answers (s.dev x) physAddr cached ∧
      ∀ y ∈ bound, Answers (s.dev y) physAddr cached → (s.dev x).physAddr ≤ (s.dev y).physAddr

/-- The list is sorted and linked both ways and has the bound devices, the table
has each under its id, and a lookup finds the first device of the list that
answers, which is one with the lowest base. -/
structure DevicesRight (s : Devices P) (bound : List P) : Prop where
  list : ∃ l, Segment s.links (.head ()) l ∧
    (l.Pairwise fun x y => (s.dev x).physAddr ≤ (s.dev y).physAddr) ∧ l.Perm bound ∧
    ∀ physAddr cached, lookup s physAddr cached = some (l.find? (s.answers physAddr cached))
  byId : ∀ devId x, devGetById s devId = some x ↔ x ∈ bound ∧ (s.dev x).id = devId
  lookup : ∀ physAddr cached, ∃ r,
    lookup s physAddr cached = some r ∧ Lowest s bound physAddr cached r

theorem lookup_eq (h : Bound s bound l) (physAddr : BitVec 64) (cached : Bool) :
    lookup s physAddr cached = some (l.find? (s.answers physAddr cached)) := by
  have hle : l.length + 1 ≤ VM_DEVICE_MAX + 1 := by
    have hlen := h.length
    have hmax := h.length_le
    omega
  have hs := h.links
  have hcur := findCell_mono (hs.findCell (s.answers physAddr cached)) hle
  rw [← @List.takeWhile_append_dropWhile _ (fun x => !s.answers physAddr cached x) l] at hs
  rw [lookup, hcur, Option.map_some, hs.read_endCell, List.find?_eq_head?_dropWhile_not]

omit [DecidableEq P] in
theorem find_lowest (h : Bound s bound l) (physAddr : BitVec 64) (cached : Bool) :
    Lowest s bound physAddr cached (l.find? (s.answers physAddr cached)) := by
  cases hfind : l.find? (s.answers physAddr cached) with
  | none =>
    intro y hy hans
    exact List.find?_eq_none.mp hfind y (h.mem.mpr hy) ((answers_iff ..).mpr hans)
  | some x =>
    obtain ⟨hx, l₁, l₂, hl, hbefore⟩ := List.find?_eq_some_iff_append.mp hfind
    refine ⟨h.mem.mp (by simp [hl]), (answers_iff ..).mp hx, fun y hy hans => ?_⟩
    have hyl := h.mem.mpr hy
    have hsorted := h.sorted
    rw [hl] at hyl hsorted
    rcases List.mem_append.mp hyl with hy₁ | hy₂
    · have hnot := hbefore y hy₁
      rw [(answers_iff s physAddr cached y).mpr hans] at hnot
      cases hnot
    · cases List.mem_cons.mp hy₂ with
      | inl heq => exact heq ▸ BitVec.le_refl _
      | inr hy₂ =>
        have hbehind := (List.pairwise_append.mp hsorted).2.1
        exact List.rel_of_pairwise_cons hbehind hy₂

theorem right_of_bound (h : Bound s bound l) : DevicesRight s bound where
  list := ⟨l, h.links, h.sorted, h.perm, lookup_eq h⟩
  byId devId x := by
    unfold devGetById
    by_cases hlt : devId.toNat < VM_DEVICE_MAX
    · rw [dif_pos hlt, h.named]
      simp only [BitVec.ofNat_toNat, BitVec.setWidth_eq]
    · rw [dif_neg hlt]
      constructor
      · intro hnone
        cases hnone
      · intro ⟨hx, hid⟩
        obtain ⟨i, hi⟩ := h.ids x hx
        have hi64 : i.val < 64 := i.isLt
        rw [← hid, hi, BitVec.toNat_ofNat] at hlt
        exact absurd (Nat.lt_of_le_of_lt (Nat.mod_le _ _) i.isLt) hlt
  lookup physAddr cached := ⟨_, lookup_eq h physAddr cached, find_lowest h physAddr cached⟩

structure DevRun (P : Type) where
  devices : Devices P
  bound : List P

def DevRun.step (t : DevRun P) (c : DevCall P) : DevRun P where
  devices :=
    match c.exec t.devices with
    | none => t.devices
    | some (_, s) => s
  bound := c.bound t.bound

def devStart (dev : P → VDevice) : DevRun P :=
  ⟨⟨Heap.empty Unit P, dev, fun _ => none⟩, []⟩

def CallOk (bound : List P) : DevCall P → Prop
  | .setUp x _ => x ∉ bound
  | .bind x => x ∉ bound
  | .unbind _ => True
  | .map _ _ => True

instance (bound : List P) (c : DevCall P) : Decidable (CallOk bound c) := by
  cases c with
  | setUp x _ => exact inferInstanceAs (Decidable (x ∉ bound))
  | bind x => exact inferInstanceAs (Decidable (x ∉ bound))
  | unbind _ => exact inferInstanceAs (Decidable True)
  | map _ _ => exact inferInstanceAs (Decidable True)

theorem exec_bound (h : Bound s bound l) {c : DevCall P} (hok : CallOk bound c) :
    ∃ s' l', c.exec s = some (c.result bound, s') ∧ Bound s' (c.bound bound) l' := by
  have hbind : ∀ {s : Devices P} {bound l : List P} {x : P}, Bound s bound l → x ∉ bound →
      ∃ s' l', vmBindDevice s x = some (if bound.length < VM_DEVICE_MAX then 0 else -1, s') ∧
        Bound s' (bindTo bound x) l' := by
    intro s bound l x h hx
    by_cases hroom : bound.length < VM_DEVICE_MAX
    · simp only [bindTo, if_pos hroom]
      exact bind_bound h hx hroom
    · simp only [bindTo, if_neg hroom]
      exact ⟨s, l, bind_full h hroom, h⟩
  have hunbind : ∀ x, ∃ s' l', vmUnbindDevice s x = (if x ∈ bound then 0 else -1, s') ∧
      Bound s' (bound.erase x) l' := by
    intro x
    by_cases hx : x ∈ bound
    · simp only [if_pos hx]
      exact unbind_bound h hx
    · simp only [if_neg hx, List.erase_of_not_mem hx]
      exact ⟨s, l, unbind_free h hx, h⟩
  cases c with
  | setUp x dev => exact ⟨_, l, rfl, h.setDev hok dev⟩
  | bind x => exact hbind h hok
  | unbind x =>
    obtain ⟨s', l', hexec, hs'⟩ := hunbind x
    exact ⟨s', l', congrArg some hexec, hs'⟩
  | map x baseAddr =>
    obtain ⟨mid, l', hexec, hmid⟩ := hunbind x
    have hx : x ∉ bound.erase x := h.nodup.not_mem_erase
    obtain ⟨s', l'', hbound, hs'⟩ :=
      hbind (hmid.setDev hx { mid.dev x with physAddr := baseAddr }) hx
    refine ⟨s', l'', ?_, hs'⟩
    simp only [DevCall.exec, vmMapDevice, hexec, hbound, Option.map_some, DevCall.result]

/-- The loops of a call end, with the result that says what it did. -/
def CallEnds (t : DevRun P) (c : DevCall P) : Prop :=
  ∃ s, c.exec t.devices = some (c.result t.bound, s)

omit [DecidableEq P] in
theorem bound_devStart (dev : P → VDevice) :
    Bound (devStart dev).devices (devStart dev).bound [] where
  links := segment_empty (H := Unit) (.head ())
  sorted := List.Pairwise.nil
  perm := List.Perm.refl []
  free _ _ := rfl
  named i x := by simp [devStart]
  ids x hx := absurd hx List.not_mem_nil

theorem bound_step {t : DevRun P} {c : DevCall P} (h : ∃ l, Bound t.devices t.bound l)
    (hok : CallOk t.bound c) : CallEnds t c ∧ ∃ l, Bound (t.step c).devices (t.step c).bound l := by
  obtain ⟨l, h⟩ := h
  obtain ⟨s', l', hexec, hs'⟩ := exec_bound h hok
  refine ⟨⟨s', hexec⟩, l', ?_⟩
  simp only [DevRun.step, hexec]
  exact hs'

theorem devices_right (dev : P → VDevice) (calls : List (DevCall P))
    (hok : AllSteps (fun t c => CallOk t.bound c) (history DevRun.step (devStart dev) calls)) :
    Always (fun t => DevicesRight t.devices t.bound) (history DevRun.step (devStart dev) calls)
        (calls.foldl DevRun.step (devStart dev)) ∧
      AllSteps CallEnds (history DevRun.step (devStart dev) calls) := by
  have hrun := run_history DevRun.step (devStart dev) calls
  have halways := hrun.invariant (P := fun t => ∃ l, Bound t.devices t.bound l)
    (fun t c t' h hc hs => hs ▸ (bound_step h hc).2) ⟨[], bound_devStart dev⟩ hok
  have hright : ∀ t : DevRun P, (∃ l, Bound t.devices t.bound l) →
      DevicesRight t.devices t.bound := fun t ⟨_, h⟩ => right_of_bound h
  refine ⟨⟨hright _ halways.1, fun x hx => hright _ (halways.2 x hx)⟩, fun x hx => ?_⟩
  exact (bound_step (halways.2 x hx) (hok x hx)).1

/-- Two devices share a page, one of them is moved to the top of the address space, and
a third one is bound twice. -/
def someCalls : List (DevCall Nat) :=
  [.bind 0, .bind 1, .map 1 0xFFFFFFFFFFFFF000, .bind 2, .unbind 2, .unbind 2,
    .setUp 2 ⟨0, 0x2000, 0x800, 0, 0, 0⟩, .bind 2]

theorem devices_right_some :
    Always (fun t => DevicesRight t.devices t.bound)
        (history DevRun.step (devStart fun _ => ⟨0, 0x1000, 0x1000, 0, 0, 0⟩) someCalls)
        (someCalls.foldl DevRun.step (devStart fun _ => ⟨0, 0x1000, 0x1000, 0, 0, 0⟩)) ∧
      AllSteps CallEnds
        (history DevRun.step (devStart fun _ => ⟨0, 0x1000, 0x1000, 0, 0, 0⟩) someCalls) :=
  devices_right _ _ (by decide)

end Dynamips.DeviceList
