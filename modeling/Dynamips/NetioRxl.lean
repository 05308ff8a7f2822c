import Dynamips.Lib.Links
import Dynamips.Lib.Runs

/-! The receive listeners of net_io.c: the requests that clients queue and the
listener thread that takes them. -/
set_option autoImplicit false

namespace Dynamips.Rxl
open Runs Links

/-- The address of a `netio_desc_t`. -/
abbrev NioPtr := Nat

/-- `struct netio_rx_listener` -/
structure NetioRxListener where
  nio : NioPtr
  refCount : BitVec 32
deriving DecidableEq

def netioRxlFind (rxlList : List NetioRxListener) (nio : NioPtr) : Option NetioRxListener :=
  rxlList.find? fun rxl => rxl.nio == nio

def netioRxlRemoveInternal (nio : NioPtr) : List NetioRxListener → Int × List NetioRxListener
  | [] => (-1, [])
  | rxl :: next =>
    if rxl.nio = nio then
      let rxl := { rxl with refCount := rxl.refCount - 1 }
      (0, if rxl.refCount = 0 then next else rxl :: next)
    else
      let r := netioRxlRemoveInternal nio next
      (r.1, rxl :: r.2)

def shareListener (nio : NioPtr) : List NetioRxListener → List NetioRxListener
  | [] => []
  | tmp :: next =>
    if tmp.nio = nio then { tmp with refCount := tmp.refCount + 1 } :: next
    else tmp :: shareListener nio next

def netioRxlAddInternal (rxlList : List NetioRxListener) (rxl : NetioRxListener) :
    List NetioRxListener :=
  match netioRxlFind rxlList rxl.nio with
  | some _ => shareListener rxl.nio rxlList
  | none => rxl :: rxlList

/-- `netio_rxl_list`, `netio_rxl_add_list`, `netio_rxl_remove_list`, and the field
`rxl_next` of the NIOs. -/
structure RxlState where
  rxlList : List NetioRxListener
  addList : List NetioRxListener
  removeList : Option NioPtr
  rxlNext : NioPtr → Option NioPtr

def RxlState.init : RxlState where
  rxlList := []
  addList := []
  removeList := none
  rxlNext := fun _ => none

/-- `netio_rxl_add`, up to its wait for the listener thread. `granted` tells
whether the listener and its thread could be created. -/
def netioRxlAdd (s : RxlState) (nio : NioPtr) (granted : Bool) : RxlState :=
  if granted then { s with addList := { nio := nio, refCount := 1 } :: s.addList } else s

/-- `netio_rxl_remove`, up to its wait for the listener thread. -/
def netioRxlRemove (s : RxlState) (nio : NioPtr) : RxlState :=
  { s with
    rxlNext := Function.update s.rxlNext nio s.removeList
    removeList := some nio }

/-- The second loop of `netio_rxl_gen_thread`, with the results of its removals. -/
def drainRemoves : Nat → RxlState → Option (List (NioPtr × Int) × RxlState)
  | 0, _ => none
  | fuel + 1, s =>
    match s.removeList with
    | none => some ([], s)
    | some nio =>
      let r := netioRxlRemoveInternal nio s.rxlList
      let s := { s with removeList := s.rxlNext nio, rxlList := r.2 }
      (drainRemoves fuel s).map fun t => ((nio, r.1) :: t.1, t.2)

/-- What `netio_rxl_gen_thread` does under the queue lock. -/
def netioRxlDrain (fuel : Nat) (s : RxlState) : Option (List (NioPtr × Int) × RxlState) :=
  drainRemoves fuel
    { s with rxlList := s.addList.foldl netioRxlAddInternal s.rxlList, addList := [] }

/-- The NIOs are those of the types other than UDP, which have listeners of their
own. A drain shows what it removed. -/
inductive Event where
  | add (nio : NioPtr) (granted : Bool)
  | remove (nio : NioPtr)
  | drain (log : List (NioPtr × Int))

def perform (fuel : Nat) (s : RxlState) : Event → Option RxlState
  | .add nio granted => some (netioRxlAdd s nio granted)
  | .remove nio => some (netioRxlRemove s nio)
  | .drain log => (netioRxlDrain fuel s).bind fun r => if r.1 = log then some r.2 else none

def Step (s : RxlState) (e : Event) (s' : RxlState) : Prop := ∃ fuel, perform fuel s e = some s'

/-- What the clients asked for and what has become of it: the requests that wait,
latest first, and for each NIO the adds and the removals that were applied. -/
structure Calls where
  adds : List NioPtr
  removes : List NioPtr
  added : NioPtr → Nat
  removed : NioPtr → Nat

def Calls.none : Calls := { adds := [], removes := [], added := fun _ => 0, removed := fun _ => 0 }

def Calls.next (c : Calls) : Event → Calls
  | .add nio granted => if granted then { c with adds := nio :: c.adds } else c
  | .remove nio => { c with removes := nio :: c.removes }
  | .drain log =>
    { adds := []
      removes := []
      added := fun n => c.added n + c.adds.count n
      removed := fun n => c.removed n + log.count (n, 0) }

def calls (trace : List (RxlState × Event)) : Calls :=
  trace.foldl (fun c x => c.next x.2) .none

/-- The next drain ends and takes every removal that waits once; a listener counts
the adds less the removals, and is there as long as they differ. -/
structure RxlOk (c : Calls) (s : RxlState) : Prop where
  terminates : ∃ fuel log s', netioRxlDrain fuel s = some (log, s')
  once : ∀ fuel log s', netioRxlDrain fuel s = some (log, s') → log.map Prod.fst = c.removes
  counts : ∀ n rxl, netioRxlFind s.rxlList n = some rxl →
    rxl.refCount.toNat + c.removed n = c.added n
  freed : ∀ n, netioRxlFind s.rxlList n = none ↔ c.added n = c.removed n

def refCountOf (rxlList : List NetioRxListener) (nio : NioPtr) : Nat :=
  match netioRxlFind rxlList nio with
  | some rxl => rxl.refCount.toNat
  | none => 0

def CountFits (s : RxlState) : Event → Prop
  | .add nio _ => refCountOf s.rxlList nio + (s.addList.map NetioRxListener.nio).count nio + 1 < 2 ^ 32
  | _ => True

/-- A list with one listener for each NIO that has references, and their number. -/
structure Counted (rxlList : List NetioRxListener) (refs : NioPtr → Nat) : Prop where
  nodup : (rxlList.map NetioRxListener.nio).Nodup
  some_iff : ∀ n rxl, netioRxlFind rxlList n = some rxl → rxl.refCount.toNat = refs n ∧ 0 < refs n
  none_iff : ∀ n, netioRxlFind rxlList n = none → refs n = 0

variable {l : List NetioRxListener} {refs : NioPtr → Nat} {nio n : NioPtr} {rxl : NetioRxListener}

theorem Counted.refCountOf_eq (h : Counted l refs) (n : NioPtr) : refCountOf l n = refs n := by
  rw [refCountOf]
  cases hf : netioRxlFind l n with
  | none => exact (h.none_iff n hf).symm
  | some rxl => exact (h.some_iff n rxl hf).1

theorem find_cons (rxl : NetioRxListener) (l : List NetioRxListener) (n : NioPtr) :
    netioRxlFind (rxl :: l) n = if rxl.nio = n then some rxl else netioRxlFind l n := by
  by_cases h : rxl.nio = n <;> simp [netioRxlFind, h]

theorem find_eq_none (h : n ∉ l.map NetioRxListener.nio) : netioRxlFind l n = none := by
  rw [netioRxlFind, List.find?_eq_none]
  intro rxl hrxl hn
  exact h (List.mem_map.mpr ⟨rxl, hrxl, by simpa using hn⟩)

theorem find_share (nio n : NioPtr) (l : List NetioRxListener) :
    netioRxlFind (shareListener nio l) n =
      if n = nio then (netioRxlFind l n).map fun tmp => { tmp with refCount := tmp.refCount + 1 }
      else netioRxlFind l n := by
  induction l with
  | nil => simp [shareListener, netioRxlFind]
  | cons tmp l ih =>
    rw [shareListener]
    split
    · rename_i htmp
      by_cases hn : n = nio
      · subst hn
        simp [find_cons, htmp]
      · simp [find_cons, htmp, hn, Ne.symm hn]
    · rename_i htmp
      rw [find_cons, find_cons, ih]
      by_cases htn : tmp.nio = n
      · have hn : n ≠ nio := fun hn => htmp (htn.trans hn)
        simp [htn, hn]
      · simp [htn]

theorem share_nios (nio : NioPtr) (l : List NetioRxListener) :
    (shareListener nio l).map NetioRxListener.nio = l.map NetioRxListener.nio := by
  induction l with
  | nil => rfl
  | cons tmp l ih =>
    rw [shareListener]
    split
    · rfl
    · simp [ih]

theorem Counted.add (h : Counted l refs) (hfits : refs nio + 1 < 2 ^ 32) :
    Counted (netioRxlAddInternal l { nio := nio, refCount := 1 })
      (Function.update refs nio (refs nio + 1)) := by
  rw [netioRxlAddInternal]
  cases hf : netioRxlFind l nio with
  | none =>
    refine ⟨?_, fun n rxl hn => ?_, fun n hn => ?_⟩
    · refine List.nodup_cons.mpr ⟨fun hmem => ?_, h.nodup⟩
      obtain ⟨rxl, hrxl, hnio⟩ := List.mem_map.mp hmem
      rw [netioRxlFind, List.find?_eq_none] at hf
      exact hf rxl hrxl (by simpa using hnio)
    · rw [find_cons] at hn
      split at hn
      · rename_i heq
        cases heq
        cases hn
        simp [h.none_iff _ hf]
      · rename_i hne
        rw [Function.update_of_ne (Ne.symm hne)]
        exact h.some_iff n rxl hn
    · rw [find_cons] at hn
      split at hn
      · cases hn
      · rename_i hne
        rw [Function.update_of_ne (Ne.symm hne)]
        exact h.none_iff n hn
  | some tmp =>
    have htmp := h.some_iff nio tmp hf
    refine ⟨by simpa only [share_nios] using h.nodup, fun n rxl hn => ?_, fun n hn => ?_⟩
    · simp only [find_share] at hn
      split at hn
      · rename_i heq
        subst heq
        rw [hf] at hn
        cases hn
        rw [Function.update_self]
        refine ⟨?_, Nat.succ_pos _⟩
        simp only [BitVec.toNat_add, htmp.1]
        exact Nat.mod_eq_of_lt hfits
      · rename_i hne
        rw [Function.update_of_ne hne]
        exact h.some_iff n rxl hn
    · simp only [find_share] at hn
      split at hn
      · rename_i heq
        subst heq
        rw [hf] at hn
        cases hn
      · rename_i hne
        rw [Function.update_of_ne hne]
        exact h.none_iff n hn

theorem find_remove (nio n : NioPtr) (hnodup : (l.map NetioRxListener.nio).Nodup) :
    netioRxlFind (netioRxlRemoveInternal nio l).2 n =
      if n = nio then (netioRxlFind l n).bind fun rxl =>
        if rxl.refCount - 1 = 0 then none else some { rxl with refCount := rxl.refCount - 1 }
      else netioRxlFind l n := by
  induction l with
  | nil => simp [netioRxlRemoveInternal, netioRxlFind]
  | cons rxl l ih =>
    obtain ⟨hmem, hnodup⟩ := List.nodup_cons.mp hnodup
    rw [netioRxlRemoveInternal]
    by_cases hrxl : rxl.nio = nio
    · subst hrxl
      simp only [if_true]
      by_cases hn : n = rxl.nio
      · subst hn
        simp only [if_true, find_cons, Option.bind_some]
        split
        · exact find_eq_none hmem
        · simp [find_cons]
      · simp only [if_neg hn, find_cons, if_neg (Ne.symm hn)]
        split
        · rfl
        · simp [find_cons, Ne.symm hn]
    · simp only [if_neg hrxl, find_cons, ih hnodup]
      by_cases hrn : rxl.nio = n
      · have hn : n ≠ nio := fun hn => hrxl (hrn.trans hn)
        simp [hrn, hn]
      · simp [hrn]

theorem remove_sublist (nio : NioPtr) (l : List NetioRxListener) :
    ((netioRxlRemoveInternal nio l).2.map NetioRxListener.nio).Sublist
      (l.map NetioRxListener.nio) := by
  induction l with
  | nil => exact List.Sublist.refl _
  | cons rxl l ih =>
    rw [netioRxlRemoveInternal]
    split
    · simp only
      split
      · exact List.sublist_cons_self _ _
      · exact List.Sublist.refl _
    · exact ih.cons_cons _

theorem remove_res (nio : NioPtr) (l : List NetioRxListener) :
    (netioRxlRemoveInternal nio l).1 = if netioRxlFind l nio = none then -1 else 0 := by
  induction l with
  | nil => rfl
  | cons rxl l ih =>
    rw [netioRxlRemoveInternal, find_cons]
    split
    · simp
    · exact ih

theorem Counted.remove (h : Counted l refs) (nio : NioPtr) :
    Counted (netioRxlRemoveInternal nio l).2 (Function.update refs nio (refs nio - 1)) := by
  refine ⟨h.nodup.sublist (remove_sublist nio l), fun n rxl hn => ?_, fun n hn => ?_⟩
  · rw [find_remove nio n h.nodup] at hn
    split at hn
    · rename_i heq
      subst heq
      rw [Function.update_self]
      obtain ⟨rxl', hfind, hr⟩ := Option.bind_eq_some_iff.mp hn
      have hcount := h.some_iff n rxl' hfind
      split at hr
      · cases hr
      · rename_i hne
        cases hr
        have hone : rxl'.refCount.toNat ≠ 1 := fun h1 => hne (by
          have : rxl'.refCount = 1 := BitVec.eq_of_toNat_eq (by simpa using h1)
          simp [this])
        have hsub : (rxl'.refCount - 1).toNat = rxl'.refCount.toNat - 1 := by
          bv_omega
        simp only [hsub]
        omega
    · rename_i hne
      rw [Function.update_of_ne hne]
      exact h.some_iff n rxl hn
  · rw [find_remove nio n h.nodup] at hn
    split at hn
    · rename_i heq
      subst heq
      rw [Function.update_self]
      cases hfind : netioRxlFind l n with
      | none => simp [h.none_iff n hfind]
      | some rxl' =>
        have hcount := h.some_iff n rxl' hfind
        simp only [hfind, Option.bind_some] at hn
        split at hn
        · rename_i hzero
          have hsub : rxl'.refCount.toNat = 1 := by bv_omega
          omega
        · cases hn
    · rename_i hne
      rw [Function.update_of_ne hne]
      exact h.none_iff n hn

variable {s s' : RxlState} {c : Calls} {log : List (NioPtr × Int)} {fuel : Nat}

theorem drainRemoves_chain (h : drainRemoves fuel s = some (log, s')) :
    Chain s.rxlNext s.removeList (log.map Prod.fst) ∧ s'.removeList = none ∧
      s'.addList = s.addList := by
  induction fuel generalizing s log with
  | zero => cases h
  | succ fuel ih =>
    rw [drainRemoves] at h
    split at h
    · rename_i hnone
      cases h
      exact ⟨hnone, hnone, rfl⟩
    · rename_i nio hnio
      obtain ⟨⟨rest, t⟩, hrest, heq⟩ := Option.map_eq_some_iff.mp h
      cases heq
      obtain ⟨hchain, hremove, hadd⟩ := ih hrest
      exact ⟨⟨hnio, hchain⟩, hremove, hadd⟩

theorem not_terminates (h : Endless s.rxlNext s.removeList) :
    ¬ ∃ fuel log s', netioRxlDrain fuel s = some (log, s') := by
  rintro ⟨fuel, log, s', hd⟩
  exact h.not_chain (drainRemoves_chain hd).1

theorem exists_drainRemoves {q : List NioPtr} (h : Chain s.rxlNext s.removeList q) :
    ∃ fuel r, drainRemoves fuel s = some r := by
  induction q generalizing s with
  | nil =>
    have hnone : s.removeList = none := h
    exact ⟨1, ([], s), by simp [drainRemoves, hnone]⟩
  | cons nio q ih =>
    obtain ⟨hnio, hrest⟩ := h
    let r := netioRxlRemoveInternal nio s.rxlList
    obtain ⟨fuel, t, ht⟩ := @ih { s with removeList := s.rxlNext nio, rxlList := r.2 } hrest
    exact ⟨fuel + 1, ((nio, r.1) :: t.1, t.2), by simp [drainRemoves, hnio, ht, r]⟩

theorem Counted.drainRemoves (h : Counted s.rxlList refs)
    (hd : drainRemoves fuel s = some (log, s')) :
    Counted s'.rxlList (fun n => refs n - log.count (n, 0)) ∧ ∀ n, log.count (n, 0) ≤ refs n := by
  induction fuel generalizing s log refs with
  | zero => cases hd
  | succ fuel ih =>
    rw [Rxl.drainRemoves] at hd
    split at hd
    · cases hd
      exact ⟨by simpa using h, by simp⟩
    · rename_i nio hnio
      obtain ⟨⟨rest, t⟩, hrest, heq⟩ := Option.map_eq_some_iff.mp hd
      cases heq
      obtain ⟨hcounted, hle⟩ := ih (h.remove nio) hrest
      have hres := remove_res nio s.rxlList
      have hcount : ∀ n, ((nio, (netioRxlRemoveInternal nio s.rxlList).1) :: rest).count (n, 0) =
          rest.count (n, 0) + if n = nio ∧ netioRxlFind s.rxlList nio ≠ none then 1 else 0 := by
        intro n
        rw [List.count_cons, hres]
        by_cases hn : n = nio
        · subst hn
          by_cases hfind : netioRxlFind s.rxlList n = none <;> simp [hfind]
        · simp [hn, Ne.symm hn]
      have hsub : ∀ n, Function.update refs nio (refs nio - 1) n - rest.count (n, 0) =
          refs n - ((nio, (netioRxlRemoveInternal nio s.rxlList).1) :: rest).count (n, 0) ∧
          ((nio, (netioRxlRemoveInternal nio s.rxlList).1) :: rest).count (n, 0) ≤ refs n := by
        intro n
        have hle := hle n
        rw [hcount]
        by_cases hn : n = nio
        · subst hn
          rw [Function.update_self] at hle ⊢
          by_cases hfind : netioRxlFind s.rxlList n = none
          · have := h.none_iff n hfind
            simp only [hfind, ne_eq, not_true_eq_false, and_false, if_false]
            omega
          · obtain ⟨rxl, hrxl⟩ := Option.ne_none_iff_exists'.mp hfind
            have := (h.some_iff n rxl hrxl).2
            simp only [hfind, ne_eq, not_false_eq_true, and_self, if_true]
            omega
        · rw [Function.update_of_ne hn] at hle ⊢
          simpa [hn] using hle
      refine ⟨?_, fun n => (hsub n).2⟩
      simpa only [(hsub _).1] using hcounted

theorem Counted.drainAdds {adds : List NioPtr} (h : Counted l refs)
    (hfits : ∀ n, refs n + adds.count n < 2 ^ 32) :
    Counted ((adds.map fun nio => { nio := nio, refCount := 1 }).foldl netioRxlAddInternal l)
      (fun n => refs n + adds.count n) := by
  induction adds generalizing l refs with
  | nil => simpa using h
  | cons nio adds ih =>
    have hcount : ∀ n, Function.update refs nio (refs nio + 1) n + adds.count n =
        refs n + (nio :: adds).count n := by
      intro n
      rw [List.count_cons]
      by_cases hn : n = nio
      · subst hn
        simp
        omega
      · simp [Function.update_of_ne hn, Ne.symm hn]
    have hone : refs nio + 1 < 2 ^ 32 := by
      have hnio := hfits nio
      rw [List.count_cons_self] at hnio
      omega
    have hrest := ih (h.add hone) (by simpa only [hcount] using hfits)
    simpa only [hcount, List.map_cons, List.foldl_cons] using hrest

/-- What the lists hold, whatever the order of the calls. A removal that finds its
NIO on the list turns the list into a cycle. -/
structure Tracks (c : Calls) (s : RxlState) : Prop where
  adds : s.addList = c.adds.map fun nio => { nio := nio, refCount := 1 }
  queue : c.removes.Nodup → Chain s.rxlNext s.removeList c.removes
  cycle : ¬ c.removes.Nodup → Endless s.rxlNext s.removeList
  counted : Counted s.rxlList fun n => c.added n - c.removed n
  removed_le : ∀ n, c.removed n ≤ c.added n
  fits : ∀ n, c.added n - c.removed n + c.adds.count n < 2 ^ 32

theorem tracks_init : Tracks .none .init where
  adds := rfl
  queue _ := rfl
  cycle h := absurd List.nodup_nil h
  counted := ⟨List.nodup_nil, by simp [RxlState.init, netioRxlFind], fun _ _ => rfl⟩
  removed_le _ := Nat.le_refl 0
  fits _ := by simp [Calls.none]

theorem Tracks.add (h : Tracks c s) {nio : NioPtr} {granted : Bool}
    (hfits : CountFits s (.add nio granted)) :
    Tracks (c.next (.add nio granted)) (netioRxlAdd s nio granted) := by
  cases granted with
  | false => exact h
  | true =>
    refine ⟨congrArg _ h.adds, h.queue, h.cycle, h.counted, h.removed_le, fun n => ?_⟩
    have hnios : s.addList.map NetioRxListener.nio = c.adds := by
      rw [h.adds, List.map_map]
      exact List.map_id c.adds
    simp only [CountFits, hnios, h.counted.refCountOf_eq] at hfits
    have hn := h.fits n
    simp only [Calls.next, if_true, List.count_cons]
    by_cases hnio : nio = n
    · subst hnio
      simp
      omega
    · simpa [hnio] using hn

theorem Tracks.remove (h : Tracks c s) (nio : NioPtr) :
    Tracks (c.next (.remove nio)) (netioRxlRemove s nio) := by
  refine ⟨h.adds, fun hnodup => ?_, fun hdup => ?_, h.counted, h.removed_le, h.fits⟩
  · obtain ⟨hnio, hnodup⟩ := List.nodup_cons.mp hnodup
    exact (h.queue hnodup).push hnio
  · by_cases hnodup : c.removes.Nodup
    · have hnio : nio ∈ c.removes := by
        by_contra hnio
        exact hdup (List.nodup_cons.mpr ⟨hnio, hnodup⟩)
      exact (h.queue hnodup).push_mem hnio
    · exact (h.cycle hnodup).push

theorem Tracks.drain_log (h : Tracks c s) (hd : netioRxlDrain fuel s = some (log, s')) :
    c.removes.Nodup ∧ log.map Prod.fst = c.removes := by
  have hchain := (drainRemoves_chain hd).1
  have hnodup : c.removes.Nodup := by
    by_contra hdup
    exact not_terminates (h.cycle hdup) ⟨fuel, log, s', hd⟩
  exact ⟨hnodup, hchain.unique (h.queue hnodup)⟩

theorem Tracks.drain (h : Tracks c s) (hd : netioRxlDrain fuel s = some (log, s')) :
    Tracks (c.next (.drain log)) s' := by
  obtain ⟨-, hempty, hadds⟩ := drainRemoves_chain hd
  have hadded := h.counted.drainAdds h.fits
  rw [← h.adds] at hadded
  obtain ⟨hcounted, hle⟩ := hadded.drainRemoves hd
  have hleft : ∀ n, c.added n - c.removed n + c.adds.count n - log.count (n, 0) =
      c.added n + c.adds.count n - (c.removed n + log.count (n, 0)) := by
    intro n
    have := h.removed_le n
    omega
  refine ⟨hadds, fun _ => hempty, fun hdup => absurd List.nodup_nil hdup, ?_, fun n => ?_,
    fun n => ?_⟩
  · simp only [hleft] at hcounted
    exact hcounted
  · have := h.removed_le n
    have := hle n
    simp only [Calls.next]
    omega
  · have := h.fits n
    have := h.removed_le n
    simp only [Calls.next, List.count_nil]
    omega

theorem tracks_step {e : Event} (h : Tracks c s) (hfits : CountFits s e) (hs : Step s e s') :
    Tracks (c.next e) s' := by
  obtain ⟨fuel, hs⟩ := hs
  cases e with
  | add nio granted =>
    cases hs
    exact h.add hfits
  | remove nio =>
    cases hs
    exact h.remove nio
  | drain log =>
    obtain ⟨⟨taken, t⟩, hd, hlog⟩ := Option.bind_eq_some_iff.mp hs
    split at hlog
    · rename_i heq
      cases heq
      cases hlog
      exact h.drain hd
    · cases hlog

variable {trace : List (RxlState × Event)}

theorem calls_snoc (trace : List (RxlState × Event)) (s : RxlState) (e : Event) :
    calls (trace ++ [(s, e)]) = (calls trace).next e := by
  simp [calls]

theorem tracks_run (hrun : Run Step .init trace s) (hfits : AllSteps CountFits trace) :
    Tracks (calls trace) s := by
  induction hrun with
  | start => exact tracks_init
  | next _ hs ih =>
    obtain ⟨htrace, hlast⟩ := allSteps_snoc.mp hfits
    rw [calls_snoc]
    exact tracks_step (ih htrace) hlast hs

theorem Tracks.rxlOk (h : Tracks c s) (hnodup : c.removes.Nodup) : RxlOk c s := by
  refine ⟨?_, fun fuel log s' hd => (h.drain_log hd).2, fun n rxl hn => ?_, fun n => ?_⟩
  · obtain ⟨fuel, r, hr⟩ := @exists_drainRemoves
      { s with rxlList := s.addList.foldl netioRxlAddInternal s.rxlList, addList := [] } _
      (h.queue hnodup)
    exact ⟨fuel, r.1, r.2, hr⟩
  · have hcount := (h.counted.some_iff n rxl hn).1
    have hle := h.removed_le n
    omega
  · have hle := h.removed_le n
    constructor
    · intro hn
      have hzero := h.counted.none_iff n hn
      omega
    · intro heq
      cases hn : netioRxlFind s.rxlList n with
      | none => rfl
      | some rxl =>
        have hpos := (h.counted.some_iff n rxl hn).2
        omega

/-- The listener thread does what it was asked exactly as long as no NIO has two
removals in the queue. -/
theorem rxl_ok_iff (hrun : Run Step .init trace s) (hfits : AllSteps CountFits trace) :
    RxlOk (calls trace) s ↔ (calls trace).removes.Nodup := by
  have h := tracks_run hrun hfits
  constructor
  · intro hok
    obtain ⟨fuel, log, s', hd⟩ := hok.terminates
    exact (h.drain_log hd).1
  · exact h.rxlOk

/-- Two references to the listener of NIO 0; one of them is given back, and a
removal is asked for an NIO without a listener. -/
def oneOfTwo : List Event := [.add 0 true, .add 0 true, .drain [], .remove 0, .remove 1]

theorem run_of_perform {events : List Event}
    (h : execute (perform fuel) .init events = some (trace, s)) : Run Step .init trace s :=
  (run_of_execute h).mono fun _ _ _ hs => ⟨fuel, hs⟩

theorem rxl_ok_one_of_two : ∃ trace s, execute (perform 1) .init oneOfTwo = some (trace, s) ∧
    RxlOk (calls trace) s := by
  have hex : execute (perform 1) .init oneOfTwo = some (_, _) := rfl
  have hfirst : 0 + 0 + 1 < 2 ^ 32 := by decide
  have hsecond : 0 + 1 + 1 < 2 ^ 32 := by decide
  refine ⟨_, _, hex, (rxl_ok_iff (run_of_perform hex) ?_).mpr (by decide)⟩
  simp only [AllSteps, List.forall_mem_cons]
  exact ⟨hfirst, hsecond, trivial, trivial, trivial, by simp⟩

/-- Two connections of an NIO are removed before the listener thread looks: the
queue is a cycle and the traversal never ends. -/
def bothOfTwo : List Event := [.add 0 true, .add 0 true, .drain [], .remove 0, .remove 0]

theorem not_rxl_ok : ∃ trace s, execute (perform 1) .init bothOfTwo = some (trace, s) ∧
    Run Step .init trace s ∧ ¬ RxlOk (calls trace) s := by
  have hex : execute (perform 1) .init bothOfTwo = some (_, _) := rfl
  refine ⟨_, _, hex, run_of_perform hex, fun hok => ?_⟩
  refine not_terminates ⟨fun nio => nio = 0, ⟨0, rfl, rfl⟩, fun nio hnio => ⟨0, ?_, rfl⟩⟩
    hok.terminates
  subst hnio
  rfl

end Dynamips.Rxl
