import Dynamips.Lib.Runs
import Dynamips.Bcm5600

/-! The ARL table of the BCM5600 over whole runs. -/
set_option autoImplicit false

namespace Dynamips.Bcm5600

open Runs

/-- What uses the ARL table: received frames, the two commands of the CPU, the
ager, and the CPU programming ports and trunks. -/
inductive ArlEvent where
  | learn (p : Pkt)
  | insert (entry : ArlEntry)
  | delete (dw1 dw2 : BitVec 32)
  | ager
  | program (ptable : Nat → PtableEntry) (tbmap : Nat → BitVec 32)

/-- The state after an event; none where an assertion fails. -/
def arlStep (d : Nm16esw) : ArlEvent → Option Nm16esw
  | .learn p => (srcMacLearning d p).map Prod.fst
  | .insert entry => some (insertArlEntry d entry)
  | .delete dw1 dw2 => some (deleteArlEntry d dw1 dw2)
  | .ager => arlAger d
  | .program ptable tbmap => some { d with ptable := ptable, tbmap := tbmap }

def Nm16esw.live (d : Nm16esw) : List ArlEntry := (List.range (d.arlCnt - 1).toNat).map d.arl

def Nm16esw.entryOf (d : Nm16esw) (key : ArlKey) : Option ArlEntry := (arlLookup d key).map d.arl

/-- The counted part of the table is a finite map, and lookups see all of it. -/
structure ArlMap (d : Nm16esw) : Prop where
  range : 1 ≤ d.arlCnt.toNat ∧ d.arlCnt.toNat ≤ ARL_MAX_INDEX + 2
  distinct : (d.live.map ArlEntry.key).Nodup
  found : ∀ e ∈ d.live, d.entryOf e.key = some e

def ArlEntry.aged (e : ArlEntry) : Option ArlEntry :=
  if e.word2 &&& BCM5600_ARL_ST_FLAG ≠ 0 then some e
  else if e.word2 &&& BCM5600_ARL_HIT_FLAG = 0 then none
  else some { e with word2 := e.word2 &&& ~~~BCM5600_ARL_HIT_FLAG }

def ArlEffect (d : Nm16esw) (e : ArlEvent) (d' : Nm16esw) : Prop :=
  match e with
  | .learn p =>
    (ethAddrIsMcast p.saddr = false → d'.entryOf (lookupKey p.saddr p.realVlan) ≠ none) ∧
      ∀ k, ethAddrIsMcast p.saddr = true ∨ k ≠ lookupKey p.saddr p.realVlan →
        d'.entryOf k = d.entryOf k
  | .insert entry =>
    d'.entryOf entry.key = some entry ∧ ∀ k, k ≠ entry.key → d'.entryOf k = d.entryOf k
  | .delete dw1 dw2 =>
    d'.entryOf ⟨dw1, dw2 &&& arlKeyMask⟩ = none ∧
      ∀ k, k ≠ ⟨dw1, dw2 &&& arlKeyMask⟩ → d'.entryOf k = d.entryOf k
  | .ager => ∀ k, d'.entryOf k = (d.entryOf k).bind ArlEntry.aged
  | .program _ _ => ∀ k, d'.entryOf k = d.entryOf k

def ArlStepOk (d : Nm16esw) (e : ArlEvent) : Prop :=
  ∀ d', arlStep d e = some d' → ArlMap d' ∧ ArlEffect d e d'

/-- No entry is added: no unicast source is learned and none is inserted. -/
def AddsNone : ArlEvent → Prop
  | .learn p => ethAddrIsMcast p.saddr = true
  | .insert _ => False
  | _ => True

variable {d d' : Nm16esw}

/-! The table without a counted entry. -/

theorem arlLookup_first (h : d.arlCnt.toNat ≤ 2) (key : ArlKey) (h0 : 1 ≤ d.arlCnt.toNat) :
    arlLookup d key = none := by
  have hcnt : (d.arlCnt - 1).toNat - 1 = 0 := by
    have : (1 : BitVec 32) ≤ d.arlCnt := h0
    rw [BitVec.toNat_sub_of_le this]
    change d.arlCnt.toNat - 1 - 1 = 0
    omega
  simp only [arlLookup, genArlLookup, hcnt, List.range'_zero, List.find?_nil]

theorem entryOf_empty (h : d.arlCnt = 1) (key : ArlKey) : d.entryOf key = none := by
  rw [Nm16esw.entryOf, arlLookup_first (by rw [h]; decide) key (by rw [h]; decide)]
  rfl

theorem arlMap_empty (h : d.arlCnt = 1) : ArlMap d := by
  have hlive : d.live = [] := by simp [Nm16esw.live, h]
  refine ⟨by rw [h]; decide, ?_, ?_⟩
  · simp [hlive]
  · simp [hlive]

theorem removeArlEntry_empty (h : d.arlCnt = 1) (index : BitVec 32) :
    removeArlEntry d index = none := by
  simp [removeArlEntry, h, Nm16esw.arlEntry, tableGetEntry, ARL_MAX_INDEX]

theorem deleteLoop_empty (h : d.arlCnt = 1) (key : ArlKey) (l : List Nat) :
    deleteLoop d key l = d := by
  induction l with
  | nil => rfl
  | cons i l ih =>
    simp only [deleteLoop, removeArlEntry_empty h, ih]
    split
    · rfl
    · split <;> rfl

theorem deleteArlEntry_empty (h : d.arlCnt = 1) (dw1 dw2 : BitVec 32) :
    deleteArlEntry d dw1 dw2 = d :=
  deleteLoop_empty h _ _

theorem arlAger_empty (h : d.arlCnt = 1) : arlAger d = some d := by
  have hzero : (d.arlCnt - 1).toNat - 1 = 0 := by simp [h]
  rw [arlAger, hzero, agerLoop]

theorem learn_mcast {p : Pkt} (h : ethAddrIsMcast p.saddr = true) :
    arlStep d (.learn p) = some d := by
  simp [arlStep, srcMacLearning, h]

/-! The first entry goes to the slot that no lookup reads. -/

theorem not_arlMap_of_first (h : d.arlCnt = 2) : ¬ArlMap d := by
  intro hmap
  have hfirst : d.arl 0 ∈ d.live := by simp [Nm16esw.live, h]
  have hfound := hmap.found _ hfirst
  rw [Nm16esw.entryOf, arlLookup_first (by rw [h]; decide) _ (by rw [h]; decide)] at hfound
  cases hfound

theorem insert_first (h : d.arlCnt = 1) (entry : ArlEntry) :
    (insertArlEntry d entry).arlCnt = 2 := by
  simp [insertArlEntry, h, Nm16esw.arlEntry, tableGetEntry]

theorem learn_first {p : Pkt} (h : d.arlCnt = 1) (hp : ethAddrIsMcast p.saddr = false)
    (hs : arlStep d (.learn p) = some d') : d'.arlCnt = 2 := by
  have hnone : ∀ key, arlLookup d key = none := fun key =>
    arlLookup_first (by rw [h]; decide) key (by rw [h]; decide)
  have hfree : findFreeArlEntry d = some 0 := by simp [findFreeArlEntry, h, ARL_MAX_INDEX]
  obtain ⟨⟨d1, p1⟩, hlearn, rfl⟩ := Option.map_eq_some_iff.mp hs
  simp only [srcMacLearning, hp, Bool.false_eq_true, if_false] at hlearn
  obtain ⟨trunk, -, hpair⟩ := Option.bind_eq_some_iff.mp hlearn
  obtain ⟨d2, hentry, heq⟩ := Option.map_eq_some_iff.mp hpair
  have hd : d2 = d1 := congrArg Prod.fst heq
  subst hd
  simp only [learnEntry, hnone, hfree] at hentry
  obtain ⟨e, -, rfl⟩ := Option.map_eq_some_iff.mp hentry
  simp [h]

theorem arlStep_first (h : d.arlCnt = 1) (e : ArlEvent) (hs : arlStep d e = some d') :
    AddsNone e ∧ d'.arlCnt = 1 ∨ ¬AddsNone e ∧ d'.arlCnt = 2 := by
  cases e with
  | learn p =>
    cases hp : ethAddrIsMcast p.saddr with
    | true =>
      rw [learn_mcast hp] at hs
      cases hs
      exact .inl ⟨hp, h⟩
    | false => exact .inr ⟨by simp [AddsNone, hp], learn_first h hp hs⟩
  | insert entry =>
    cases hs
    exact .inr ⟨id, insert_first h entry⟩
  | delete dw1 dw2 =>
    rw [arlStep, deleteArlEntry_empty h, Option.some_inj] at hs
    exact .inl ⟨trivial, hs ▸ h⟩
  | ager =>
    rw [arlStep, arlAger_empty h] at hs
    cases hs
    exact .inl ⟨trivial, h⟩
  | program ptable tbmap =>
    cases hs
    exact .inl ⟨trivial, h⟩

theorem arlEffect_empty (h : d.arlCnt = 1) {e : ArlEvent} (hn : AddsNone e)
    (h' : d'.arlCnt = 1) : ArlEffect d e d' := by
  have hnone := fun key => entryOf_empty h key
  have hnone' := fun key => entryOf_empty h' key
  cases e with
  | learn p => exact ⟨fun hp => by simp [AddsNone, hp] at hn, fun k _ => by rw [hnone, hnone']⟩
  | insert entry => exact absurd hn id
  | delete dw1 dw2 => exact ⟨hnone' _, fun k _ => by rw [hnone, hnone']⟩
  | ager => exact fun k => by rw [hnone, hnone', Option.bind_none]
  | program ptable tbmap => exact fun k => by rw [hnone, hnone']

/-- Every event of a run keeps the map and does to it what it should exactly if
no entry is ever added: the slot of the first one is not read by lookups. -/
theorem arl_map_kept (trace : List (Nm16esw × ArlEvent)) (t : Nm16esw)
    (hrun : Run (fun s e s' => arlStep s e = some s') Nm16esw.init trace t) :
    AllSteps ArlStepOk trace ↔ AllSteps (fun _ => AddsNone) trace := by
  have hinduct : AllSteps ArlStepOk trace ∨ AllSteps (fun _ => AddsNone) trace →
      t.arlCnt = 1 ∧ AllSteps ArlStepOk trace ∧ AllSteps (fun _ => AddsNone) trace := by
    induction hrun with
    | start => exact fun _ => ⟨rfl, by simp [AllSteps], by simp [AllSteps]⟩
    | next hrun hs ih =>
      intro hor
      simp only [allSteps_snoc] at hor ⊢
      obtain ⟨hcnt, hok, hnone⟩ := ih (hor.imp And.left And.left)
      obtain ⟨hadd, hcnt'⟩ | ⟨hadd, hcnt'⟩ := arlStep_first hcnt _ hs
      · refine ⟨hcnt', ⟨hok, fun d' hs' => ?_⟩, hnone, hadd⟩
        rw [hs] at hs'
        cases hs'
        exact ⟨arlMap_empty hcnt', arlEffect_empty hcnt hadd hcnt'⟩
      · refine (hor.elim (fun h => ?_) fun h => hadd h.2).elim
        exact not_arlMap_of_first hcnt' (h.2 _ hs).1
  exact ⟨fun h => (hinduct (.inl h)).2.2, fun h => (hinduct (.inr h)).2.1⟩

/-- A deletion and a pass of the ager on the empty table. -/
theorem arl_map_kept_empty : AllSteps ArlStepOk
    [(Nm16esw.init, .delete 1 2), (deleteArlEntry Nm16esw.init 1 2, .ager)] := by
  have hdelete : deleteArlEntry Nm16esw.init 1 2 = Nm16esw.init := deleteArlEntry_empty rfl _ _
  refine (arl_map_kept _ Nm16esw.init (Run.next (Run.next .start rfl) ?_)).mpr ?_
  · rw [hdelete]
    exact arlAger_empty rfl
  · simp [AllSteps, AddsNone]

/-- The first entry that is inserted is not found. -/
theorem not_arl_map_kept : ¬ ∀ (trace : List (Nm16esw × ArlEvent)) (t : Nm16esw),
    Run (fun s e s' => arlStep s e = some s') Nm16esw.init trace t → AllSteps ArlStepOk trace := by
  intro hall
  have hstep := hall _ _ (Run.next .start rfl) (Nm16esw.init, .insert ⟨0x1234, 0x10000, 0⟩)
    List.mem_cons_self
  exact not_arlMap_of_first (insert_first rfl _) (hstep _ rfl).1

end Dynamips.Bcm5600
