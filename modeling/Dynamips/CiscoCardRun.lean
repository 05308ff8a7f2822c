import Dynamips.CiscoCard

/-! Every sequence of card operations: the bays, the bindings, the calls of the
drivers, and the reference counts of the NIOs. -/
set_option autoImplicit false

namespace Dynamips.CiscoCard

open Refs Runs

variable {δ : Type} {D : Drivers δ} {vm vm' : Vm δ} {bay : Bay} {card : Card δ}

/-- Whether the last thing a driver was told about a port is to set it -/
def live (calls : List Call) (id port : Nat) : Bool :=
  calls.foldl (fun b call =>
    if call = Call.set id port then true else if call = Call.unset id port then false else b) false

theorem live_append_set {calls new : List Call} {id port : Nat}
    (hnew : ∀ call ∈ new, ∃ i p, call = Call.set i p)
    (h : live (calls ++ new) id port) : live calls id port ∨ Call.set id port ∈ new := by
  induction new using List.reverseRecOn with
  | nil =>
    rw [List.append_nil] at h
    exact Or.inl h
  | append_singleton new call ih =>
    simp only [live, ← List.append_assoc, List.foldl_append, List.foldl_cons, List.foldl_nil] at h ih
    obtain ⟨i, p, rfl⟩ := hnew call (by simp)
    by_cases heq : Call.set i p = Call.set id port
    · rw [heq]
      exact Or.inr (by simp)
    · simp only [heq, ↓reduceIte, reduceCtorEq] at h
      have hprev := ih (fun c hc => hnew c (by simp [hc])) h
      exact hprev.imp_right fun hm => by simp [hm]

theorem live_append_unset {calls new : List Call} {id port : Nat}
    (hnew : ∀ call ∈ new, ∃ i p, call = Call.unset i p)
    (h : live (calls ++ new) id port) : live calls id port ∧ Call.unset id port ∉ new := by
  induction new using List.reverseRecOn with
  | nil =>
    rw [List.append_nil] at h
    exact ⟨h, List.not_mem_nil⟩
  | append_singleton new call ih =>
    simp only [live, ← List.append_assoc, List.foldl_append, List.foldl_cons, List.foldl_nil] at h ih
    obtain ⟨i, p, rfl⟩ := hnew call (by simp)
    by_cases heq : Call.unset i p = Call.unset id port
    · simp [heq] at h
    · simp only [heq, ↓reduceIte, reduceCtorEq] at h
      obtain ⟨hlive, hno⟩ := ih (fun c hc => hnew c (by simp [hc])) h
      refine ⟨hlive, ?_⟩
      simp only [List.mem_append, List.mem_singleton, not_or]
      exact ⟨hno, fun hm => heq hm.symm⟩

def bays : Finset Bay :=
  Finset.range VM_MAX_SLOTS ×ˢ
    insert none ((Finset.range CISCO_CARD_MAX_SUBSLOTS).image some)

def bound (card : Option (Card δ)) : List String :=
  match card with
  | none => []
  | some card => card.nio_list.map Binding.nio

def Vm.refs (vm : Vm δ) (nio : String) : Nat := total bays (fun b => bound (vm.cards b)) nio

/-- The references of the bindings, and the ports that the drivers use -/
structure StateOk (vm : Vm δ) : Prop where
  counted : Counted vm.nios vm.refs
  used : ∀ id port, live vm.calls id port → ∃ bay card, vm.cards bay = some card ∧
    card.id = id ∧ ∃ nb ∈ card.nio_list, nb.port_id = port

/-- The cards are in the bays of the slots of the VM, the sub-slots under a main card. -/
structure Vm.Inv (vm : Vm δ) : Prop where
  room : ∀ bay card, vm.cards bay = some card → bay ∈ bays ∧ bay.1 < vm.nr_slots
  main : ∀ slot i card, vm.cards (slot, some i) = some card → vm.cards (slot, none) ≠ none
  state : StateOk vm

theorem bound_update (vm : Vm δ) (bay : Bay) (card : Option (Card δ)) :
    (fun b => bound (Function.update vm.cards bay card b)) =
      Function.update (fun b => bound (vm.cards b)) bay (bound card) := by
  funext b
  by_cases hb : b = bay
  · simp only [hb, Function.update_self]
  · simp only [Function.update_of_ne hb]

theorem refs_setCard (vm : Vm δ) (hbay : bay ∈ bays) (card : Option (Card δ)) (nio : String) :
    (vm.setCard bay card).refs nio + (bound (vm.cards bay)).count nio =
      vm.refs nio + (bound card).count nio := by
  simp only [Vm.refs, Vm.setCard, bound_update]
  exact total_update hbay _ nio

theorem mem_slotBays {slot : Nat} {b : Bay} :
    b ∈ Vm.slotBays slot ↔ b.1 = slot ∧ ∀ i ∈ b.2, i < CISCO_CARD_MAX_SUBSLOTS := by
  obtain ⟨s, i⟩ := b
  cases i with
  | none => simp [Vm.slotBays, Vm.subBays, eq_comm]
  | some i =>
    simp only [Vm.slotBays, Vm.subBays, List.mem_cons, Prod.mk.injEq, reduceCtorEq, and_false,
      List.mem_map, List.mem_range, false_or, Option.mem_def, Option.some.injEq]
    constructor
    · intro h
      obtain ⟨j, hj, rfl, rfl⟩ := h
      exact ⟨rfl, fun _ hx => hx ▸ hj⟩
    · intro h
      exact ⟨i, h.2 i rfl, h.1.symm, rfl⟩

theorem mem_bays {b : Bay} :
    b ∈ bays ↔ b.1 < VM_MAX_SLOTS ∧ ∀ i ∈ b.2, i < CISCO_CARD_MAX_SUBSLOTS := by
  obtain ⟨s, i⟩ := b
  cases i with
  | none => simp [bays]
  | some i => simp [bays]

theorem slotBays_nodup (slot : Nat) : (Vm.slotBays slot).Nodup := by
  simp only [Vm.slotBays, Vm.subBays, List.nodup_cons, List.mem_map, not_exists]
  refine ⟨fun i h => by simp at h, ?_⟩
  apply List.Nodup.map _ List.nodup_range
  intro i j hij
  simpa using hij

theorem get_info_some {slot port real : Nat} (h : vm.get_info D slot port = some (bay, real)) :
    bay ∈ bays ∧ bay.1 = slot ∧ (∀ i, bay.2 = some i → 16 ≤ port ∧ real = port % 16 ∧
      vm.cards (slot, none) ≠ none) ∧ (bay.2 = none → real = port) := by
  unfold Vm.get_info at h
  split_ifs at h with hslot
  have hlt : slot < VM_MAX_SLOTS := Nat.lt_of_not_le hslot
  have hmain : bay = (slot, none) → real = port → bay ∈ bays ∧ bay.1 = slot ∧
      (∀ i, bay.2 = some i → 16 ≤ port ∧ real = port % 16 ∧ vm.cards (slot, none) ≠ none) ∧
      (bay.2 = none → real = port) := by
    intro hb hr
    subst hb
    exact ⟨mem_bays.mpr ⟨hlt, nofun⟩, rfl, nofun, fun _ => hr⟩
  cases hcard : vm.cards (slot, none) with
  | none =>
    simp only [hcard, Option.some.injEq, Prod.mk.injEq] at h
    have := hmain h.1.symm h.2.symm
    simpa [hcard] using this
  | some card =>
    simp only [hcard] at h
    rw [hcard] at hmain
    split_ifs at h with hnm hwic hsub
    · simp only [Option.some.injEq, Prod.mk.injEq] at h
      obtain ⟨rfl, rfl⟩ := h
      refine ⟨mem_bays.mpr ⟨hlt, ?_⟩, rfl, fun i _ => ⟨by omega, rfl, nofun⟩, nofun⟩
      intro i hi
      simp only [Option.mem_def, Option.some.injEq] at hi
      simp only [CISCO_CARD_MAX_WIC] at hwic
      simp only [CISCO_CARD_MAX_SUBSLOTS]
      omega
    · simp only [Option.some.injEq, Prod.mk.injEq] at h
      exact hmain h.1.symm h.2.symm
    · simp only [Option.some.injEq, Prod.mk.injEq] at h
      exact hmain h.1.symm h.2.symm

theorem StateOk.of_cards (h : StateOk vm) (hnios : vm'.nios = vm.nios)
    (hbound : ∀ b, bound (vm'.cards b) = bound (vm.cards b))
    (hlive : ∀ id port, live vm'.calls id port → ∃ bay card, vm'.cards bay = some card ∧
      card.id = id ∧ ∃ nb ∈ card.nio_list, nb.port_id = port) : StateOk vm' := by
  refine ⟨?_, hlive⟩
  have hrefs : vm'.refs = vm.refs := by
    funext n
    simp only [Vm.refs, hbound]
  rw [hnios, hrefs]
  exact h.counted

def Card.clear (card : Card δ) : Card δ := { card with nio_list := [] }

def unsets (card : Option (Card δ)) : List Call :=
  match card with
  | none => []
  | some card => card.nio_list.map fun nb => Call.unset card.id nb.port_id

theorem mem_unsets {id port : Nat} (hcard : vm.cards bay = some card) (hid : card.id = id)
    {nb : Binding} (hnb : nb ∈ card.nio_list) (hport : nb.port_id = port) :
    Call.unset id port ∈ unsets (vm.cards bay) := by
  simp only [hcard, unsets, List.mem_map]
  exact ⟨nb, hnb, by rw [hid, hport]⟩

theorem remove_card_cards (vm : Vm δ) (bay : Bay) : (vm.remove_card_bindings bay).cards =
    Function.update vm.cards bay ((vm.cards bay).map Card.clear) := by
  unfold Vm.remove_card_bindings
  cases hcard : vm.cards bay with
  | none =>
    have hself := Function.update_eq_self bay vm.cards
    rw [hcard] at hself
    exact hself.symm
  | some card => rfl

theorem remove_card_calls (vm : Vm δ) (bay : Bay) :
    (vm.remove_card_bindings bay).calls = vm.calls ++ unsets (vm.cards bay) := by
  unfold Vm.remove_card_bindings
  cases hcard : vm.cards bay with
  | none => simp [unsets]
  | some card => rfl

theorem remove_card_state (h : StateOk vm) (hbay : bay ∈ bays) :
    StateOk (vm.remove_card_bindings bay) := by
  constructor
  · cases hcard : vm.cards bay with
    | none =>
      simp only [Vm.remove_card_bindings, hcard]
      exact h.counted
    | some card =>
      have hnios : (vm.remove_card_bindings bay).nios =
          releaseAll vm.nios (card.nio_list.map Binding.nio) := by
        simp only [Vm.remove_card_bindings, hcard]
      rw [hnios]
      apply h.counted.releaseAll
      intro n
      have hsum := refs_setCard vm hbay (some card.clear) n
      have hrefs : (vm.remove_card_bindings bay).refs n = (vm.setCard bay (some card.clear)).refs n := by
        simp only [Vm.refs, remove_card_cards, hcard, Option.map_some, Vm.setCard]
      rw [hrefs]
      simpa [bound, hcard, Card.clear] using hsum
  · intro id port hlive
    rw [remove_card_calls] at hlive
    have hunset : ∀ call ∈ unsets (vm.cards bay), ∃ i p, call = Call.unset i p := by
      intro call hc
      cases hcard : vm.cards bay with
      | none => simp [hcard, unsets] at hc
      | some card =>
        simp only [hcard, unsets, List.mem_map] at hc
        obtain ⟨nb, -, rfl⟩ := hc
        exact ⟨_, _, rfl⟩
    obtain ⟨hlive, hno⟩ := live_append_unset hunset hlive
    obtain ⟨b, card, hb, hid, nb, hnb, hport⟩ := h.used id port hlive
    by_cases heq : b = bay
    · subst heq
      exact absurd (mem_unsets hb hid hnb hport) hno
    · refine ⟨b, card, ?_, hid, nb, hnb, hport⟩
      rw [remove_card_cards, Function.update_of_ne heq]
      exact hb

theorem foldl_remove_card (l : List Bay) (hl : l.Nodup) (vm : Vm δ) :
    (∀ b, (l.foldl Vm.remove_card_bindings vm).cards b =
      if b ∈ l then (vm.cards b).map Card.clear else vm.cards b) ∧
    (l.foldl Vm.remove_card_bindings vm).calls =
      vm.calls ++ l.flatMap (fun b => unsets (vm.cards b)) ∧
    (l.foldl Vm.remove_card_bindings vm).nr_slots = vm.nr_slots ∧
    (l.foldl Vm.remove_card_bindings vm).created = vm.created ∧
    (l.foldl Vm.remove_card_bindings vm).slots_drivers = vm.slots_drivers ∧
    (l.foldl Vm.remove_card_bindings vm).slots_type = vm.slots_type := by
  induction l generalizing vm with
  | nil => simp
  | cons a l ih =>
    rw [List.nodup_cons] at hl
    obtain ⟨hcards, hcalls, hnr, hcreated, hdrivers, htype⟩ := ih hl.2 (vm.remove_card_bindings a)
    have hsame : (vm.remove_card_bindings a).nr_slots = vm.nr_slots ∧
        (vm.remove_card_bindings a).created = vm.created ∧
        (vm.remove_card_bindings a).slots_drivers = vm.slots_drivers ∧
        (vm.remove_card_bindings a).slots_type = vm.slots_type := by
      unfold Vm.remove_card_bindings
      split
      · exact ⟨rfl, rfl, rfl, rfl⟩
      · exact ⟨rfl, rfl, rfl, rfl⟩
    simp only [List.foldl_cons]
    refine ⟨fun b => ?_, ?_, hnr.trans hsame.1, hcreated.trans hsame.2.1,
      hdrivers.trans hsame.2.2.1, htype.trans hsame.2.2.2⟩
    · rw [hcards, remove_card_cards]
      by_cases hba : b = a
      · subst hba
        simp only [hl.1, ↓reduceIte, Function.update_self, List.mem_cons, true_or]
      · simp only [Function.update_of_ne hba, List.mem_cons, hba, false_or]
    · have hflat : l.flatMap (fun b => unsets ((vm.remove_card_bindings a).cards b)) =
          l.flatMap (fun b => unsets (vm.cards b)) := by
        apply List.flatMap_congr
        intro b hb
        have hba : b ≠ a := fun heq => hl.1 (heq ▸ hb)
        rw [remove_card_cards, Function.update_of_ne hba]
      rw [hcalls, remove_card_calls, hflat, List.flatMap_cons, List.append_assoc]

theorem foldl_remove_state {l : List Bay} (hl : ∀ b ∈ l, b ∈ bays) (h : StateOk vm) :
    StateOk (l.foldl Vm.remove_card_bindings vm) := by
  induction l generalizing vm with
  | nil => exact h
  | cons a l ih =>
    exact ih (fun b hb => hl b (List.mem_cons_of_mem a hb))
      (remove_card_state h (hl a List.mem_cons_self))

theorem Vm.Inv.of_shape (h : vm.Inv) (hnr : vm'.nr_slots = vm.nr_slots)
    (hcards : ∀ b, (vm'.cards b).isSome = (vm.cards b).isSome) (hs : StateOk vm') : vm'.Inv where
  room := by
    intro b card hb
    have hsome := hcards b
    rw [hb, Option.isSome_some] at hsome
    obtain ⟨old, hold⟩ := Option.isSome_iff_exists.mp hsome.symm
    rw [hnr]
    exact h.room b old hold
  main := by
    intro slot i card hb hnone
    have hsome := hcards (slot, some i)
    have hmain := hcards (slot, none)
    rw [hb, Option.isSome_some] at hsome
    rw [hnone, Option.isSome_none] at hmain
    obtain ⟨old, hold⟩ := Option.isSome_iff_exists.mp hsome.symm
    have hnone' := Option.isNone_iff_eq_none.mp (Option.isSome_eq_false_iff.mp hmain.symm)
    exact h.main slot i old hold hnone'
  state := hs

theorem slotBays_bays {slot : Nat} (h : slot < VM_MAX_SLOTS) :
    ∀ b ∈ Vm.slotBays slot, b ∈ bays := by
  intro b hb
  obtain ⟨rfl, hi⟩ := mem_slotBays.mp hb
  exact mem_bays.mpr ⟨h, hi⟩

theorem get_card_ptr_some {slot : Nat} (h : vm.get_card_ptr slot = some card) :
    slot < vm.nr_slots ∧ vm.cards (slot, none) = some card := by
  unfold Vm.get_card_ptr at h
  split_ifs at h with hslot
  exact ⟨Nat.lt_of_not_le hslot, h⟩

theorem Vm.Inv.slot_lt {slot : Nat} (h : vm.Inv) (hc : vm.get_card_ptr slot = some card) :
    slot < VM_MAX_SLOTS :=
  (mem_bays.mp (h.room _ _ (get_card_ptr_some hc).2).1).1

theorem remove_all_spec {slot : Nat} (h : vm.Inv) (hc : vm.get_card_ptr slot = some card) :
    (∀ b, (vm.remove_all_nio_bindings slot).cards b =
      if b ∈ Vm.slotBays slot then (vm.cards b).map Card.clear else vm.cards b) ∧
    (vm.remove_all_nio_bindings slot).calls =
      vm.calls ++ (Vm.slotBays slot).flatMap (fun b => unsets (vm.cards b)) ∧
    (vm.remove_all_nio_bindings slot).nr_slots = vm.nr_slots ∧
    (vm.remove_all_nio_bindings slot).created = vm.created ∧
    (vm.remove_all_nio_bindings slot).slots_drivers = vm.slots_drivers ∧
    (vm.remove_all_nio_bindings slot).slots_type = vm.slots_type ∧
    (vm.remove_all_nio_bindings slot).Inv := by
  simp only [Vm.remove_all_nio_bindings, hc]
  obtain ⟨hcards, hcalls, hnr, hcreated, hdrivers, htype⟩ :=
    foldl_remove_card (Vm.slotBays slot) (slotBays_nodup slot) vm
  refine ⟨hcards, hcalls, hnr, hcreated, hdrivers, htype, ?_⟩
  apply h.of_shape hnr
  · intro b
    rw [hcards]
    split_ifs
    · simp
    · rfl
  · exact foldl_remove_state (slotBays_bays (h.slot_lt hc)) h.state

/-- What an operation tells the drivers and does to the other cards: a port is
only unset that was set before; a card is added to an empty bay, where the other
operations find it; and a card is removed without touching another one. -/
structure StepOk (D : Drivers δ) (vm : Vm δ) (op : Op) : Prop where
  told : ∀ id port, Call.unset id port ∈ (exec D vm op).2.calls.drop vm.calls.length →
    Call.set id port ∈ vm.calls
  added : ∀ dev_type slot port, op = Op.add_binding dev_type slot port →
    ∀ bay real, vm.get_info D slot port = some (bay, real) →
      (∀ b, b ≠ bay → (exec D vm op).2.cards b = vm.cards b) ∧
      ((exec D vm op).1 →
        (vm.cards bay = none ∨ (vm.remove_binding D slot port).1) ∧
        (exec D vm op).2.get_card_ptr slot ≠ none ∧
        ∃ card, (exec D vm op).2.translate_port_id D slot port = some (bay, card, real) ∧
          card.id = vm.created)
  removed : ∀ slot port, op = Op.remove_binding slot port → (exec D vm op).1 →
    ∀ bay real, vm.get_info D slot port = some (bay, real) →
      (exec D vm op).2.cards bay = none ∧ ∀ b, b ≠ bay → (exec D vm op).2.cards b = vm.cards b

/-- The drivers were told to set the ports of the bindings in a bay. -/
def Enabled (vm : Vm δ) (bay : Bay) : Prop :=
  ∀ card, vm.cards bay = some card → ∀ nb ∈ card.nio_list, Call.set card.id nb.port_id ∈ vm.calls

/-- The card of a bay is not in use, and has no cards in its sub-slots. -/
def Removable (vm : Vm δ) (bay : Bay) (card : Card δ) : Prop :=
  card.drv_info = false ∧ (bay.2 = none → ∀ b ∈ Vm.subBays bay.1, vm.cards b = none)

/-- No other card of the slot has a binding, and those of the bay were enabled. -/
def RemoveOk (vm : Vm δ) (bay : Bay) : Prop :=
  (∀ b ∈ Vm.slotBays bay.1, b ≠ bay → bound (vm.cards b) = []) ∧ Enabled vm bay

/-- The slot is one of the VM, and the port number of a main card with sub-slots
is not that of a sub-slot. -/
def PlaceOk (D : Drivers δ) (vm : Vm δ) (dev_type : String) (bay : Bay) (slot port : Nat) : Prop :=
  ∀ card, vm.new_card D dev_type bay slot port = some card →
    slot < vm.nr_slots ∧ (bay.2 = none → card.card_type = CardType.NM →
      0 < D.wic_slots card.driver → port < 16)

def Cond (D : Drivers δ) (vm : Vm δ) : Op → Prop
  | Op.add_binding dev_type slot port => ∀ bay real, vm.get_info D slot port = some (bay, real) →
    (vm.cards bay = none → PlaceOk D vm dev_type bay slot port) ∧
    ∀ card, vm.cards bay = some card → card.override →
      (Removable vm bay card → RemoveOk vm bay) ∧
      ((vm.new_card D dev_type bay slot port).isSome → Removable vm bay card) ∧
      PlaceOk D vm dev_type bay slot port
  | Op.remove_binding slot port => ∀ bay real card, vm.get_info D slot port = some (bay, real) →
    vm.cards bay = some card → Removable vm bay card → RemoveOk vm bay
  | Op.remove_nio_binding slot port => ∀ bay card real,
    vm.get_card_ptr slot ≠ none → vm.translate_port_id D slot port = some (bay, card, real) →
    (Vm.find_nio_binding card real).isSome → bay.2 = none ∧ Call.set card.id real ∈ vm.calls
  | Op.remove_all_nio_bindings slot =>
    vm.get_card_ptr slot ≠ none → ∀ b ∈ Vm.slotBays slot, Enabled vm b
  | Op.disable_nio slot port _ => ∀ bay card real,
    vm.get_card_ptr slot ≠ none → vm.translate_port_id D slot port = some (bay, card, real) →
    (Vm.find_nio_binding card real).isSome → card.drv_info → Call.set card.id real ∈ vm.calls
  | Op.disable_all_nio slot | Op.shutdown slot _ =>
    vm.get_card_ptr slot ≠ none → ∀ b ∈ Vm.slotBays slot, ∀ card, vm.cards b = some card →
      card.drv_info → Enabled vm b
  | _ => True

theorem enabled_unsets {id port : Nat} (h : Enabled vm bay)
    (hm : Call.unset id port ∈ unsets (vm.cards bay)) : Call.set id port ∈ vm.calls := by
  cases hcard : vm.cards bay with
  | none => simp [hcard, unsets] at hm
  | some card =>
    simp only [hcard, unsets, List.mem_map, Call.unset.injEq] at hm
    obtain ⟨nb, hnb, rfl, rfl⟩ := hm
    exact h card hcard nb hnb

theorem unsets_of_bound {card : Option (Card δ)} (h : bound card = []) : unsets card = [] := by
  cases card with
  | none => rfl
  | some card =>
    simp only [bound, List.map_eq_nil_iff] at h
    simp [unsets, h]

theorem clear_of_bound {card : Option (Card δ)} (h : bound card = []) :
    card.map Card.clear = card := by
  cases card with
  | none => rfl
  | some card =>
    simp only [bound, List.map_eq_nil_iff] at h
    simp only [Option.map_some, Card.clear, Option.some.injEq]
    rw [← h]

theorem bound_clear (card : Option (Card δ)) : bound (card.map Card.clear) = [] := by
  cases card with
  | none => rfl
  | some card => rfl

theorem setCard_none_state (h : StateOk vm) (hb : bound (vm.cards bay) = []) :
    StateOk (vm.setCard bay none) := by
  refine @StateOk.of_cards _ vm (vm.setCard bay none) h rfl ?_ ?_
  · intro b
    by_cases heq : b = bay
    · simp only [Vm.setCard, heq, Function.update_self, hb]
      rfl
    · simp only [Vm.setCard, Function.update_of_ne heq]
  · intro id port hlive
    obtain ⟨b, card, hcard, hid, nb, hnb, hport⟩ := h.used id port hlive
    refine ⟨b, card, ?_, hid, nb, hnb, hport⟩
    have hne : b ≠ bay := by
      intro heq
      rw [← heq, hcard] at hb
      simp only [bound, List.map_eq_nil_iff] at hb
      simp [hb] at hnb
    simp only [Vm.setCard, Function.update_of_ne hne]
    exact hcard

theorem subs_any {slot : Nat} :
    ((Vm.subBays slot).any fun b => (vm.cards b).isSome) = false ↔
      ∀ b ∈ Vm.subBays slot, vm.cards b = none := by
  simp only [List.any_eq_false, Bool.not_eq_true, Option.isSome_eq_false_iff,
    Option.isNone_iff_eq_none]

theorem Vm.Inv.card_ptr {slot port real : Nat} (h : vm.Inv)
    (hinfo : vm.get_info D slot port = some (bay, real)) (hcard : vm.cards bay = some card) :
    ∃ main, vm.get_card_ptr slot = some main := by
  obtain ⟨-, hslot, -⟩ := get_info_some hinfo
  have hroom := (h.room bay card hcard).2
  obtain ⟨s, i⟩ := bay
  simp only at hslot hroom
  subst hslot
  have hne : vm.cards (s, none) ≠ none := by
    cases i with
    | none => simp [hcard]
    | some i => exact h.main s i card hcard
  obtain ⟨main, hmain⟩ := Option.ne_none_iff_exists'.mp hne
  refine ⟨main, ?_⟩
  unfold Vm.get_card_ptr
  rw [if_neg (Nat.not_le.mpr hroom)]
  exact hmain

theorem remove_binding_fails {slot port real : Nat}
    (hinfo : vm.get_info D slot port = some (bay, real)) (hcard : vm.cards bay = some card)
    (hno : ¬ Removable vm bay card) : vm.remove_binding D slot port = (false, vm) := by
  obtain ⟨-, hslot, -⟩ := get_info_some hinfo
  unfold Vm.remove_binding
  simp only [hinfo, hcard]
  split_ifs with hdrv hsub
  · rfl
  · rfl
  · refine absurd ⟨by simpa using hdrv, fun hmain => ?_⟩ hno
    rw [hslot]
    apply subs_any.mp
    rw [not_and, Bool.not_eq_true] at hsub
    exact hsub hmain

/-- `vm_slot_remove_binding` where it takes a card out -/
theorem remove_binding_spec {slot port real : Nat} (h : vm.Inv)
    (hinfo : vm.get_info D slot port = some (bay, real)) (hcard : vm.cards bay = some card)
    (hrem : Removable vm bay card) (hok : RemoveOk vm bay) :
    ∃ vm', vm.remove_binding D slot port = (true, vm') ∧ vm'.Inv ∧ vm'.cards bay = none ∧
      (∀ b, b ≠ bay → vm'.cards b = vm.cards b) ∧
      (∃ new, vm'.calls = vm.calls ++ new ∧ ∀ call ∈ new, call ∈ unsets (vm.cards bay)) ∧
      vm'.nr_slots = vm.nr_slots ∧
      vm'.created = vm.created ∧ vm'.slots_drivers = vm.slots_drivers ∧
      vm'.slots_type = vm.slots_type := by
  obtain ⟨hbay, hslot, -⟩ := get_info_some hinfo
  obtain ⟨main, hptr⟩ := h.card_ptr hinfo hcard
  obtain ⟨hcards, hcalls, hnr, hcreated, hdrivers, htype, hinv⟩ := remove_all_spec h hptr
  have hin : bay ∈ Vm.slotBays slot := mem_slotBays.mpr ⟨hslot, (mem_bays.mp hbay).2⟩
  have hothers : ∀ b, b ≠ bay → (vm.remove_all_nio_bindings slot).cards b = vm.cards b := by
    intro b hb
    rw [hcards]
    split_ifs with hmem
    · exact clear_of_bound (hok.1 b (hslot ▸ hmem) hb)
    · rfl
  refine ⟨(vm.remove_all_nio_bindings slot).setCard bay none, ?_, ?_, ?_, ?_, ?_, hnr, hcreated,
    hdrivers, htype⟩
  · unfold Vm.remove_binding
    have hsubs : ¬ (bay.2 = none ∧ (Vm.subBays slot).any fun b => (vm.cards b).isSome) := by
      intro hany
      have hnone := subs_any.mpr (hslot ▸ hrem.2 hany.1)
      simp [hnone] at hany
    simp only [hinfo, hcard, hrem.1, Bool.false_eq_true, ↓reduceIte, hsubs]
  · have hbound : bound ((vm.remove_all_nio_bindings slot).cards bay) = [] := by
      rw [hcards, if_pos hin]
      exact bound_clear _
    refine ⟨fun b c hb => ?_, fun s i c hb => ?_, setCard_none_state hinv.state hbound⟩
    · by_cases heq : b = bay
      · simp [Vm.setCard, heq] at hb
      · simp only [Vm.setCard, Function.update_of_ne heq] at hb
        exact hinv.room b c hb
    · have hne : (s, some i) ≠ bay := by
        intro heq
        simp [Vm.setCard, heq] at hb
      simp only [Vm.setCard, Function.update_of_ne hne] at hb
      have hmain := hinv.main s i c hb
      simp only [Vm.setCard]
      by_cases heq : (s, none) = bay
      · -- the sub-slots of a main card that is removed are empty
        have hsub := hrem.2 (heq ▸ rfl) (s, some i)
        rw [hothers _ hne] at hb
        have hlt := (mem_bays.mp (h.room _ _ hb).1).2 i rfl
        rw [hsub] at hb
        · cases hb
        · rw [← heq]
          exact List.mem_map.mpr ⟨i, List.mem_range.mpr hlt, rfl⟩
      · rw [Function.update_of_ne heq]
        exact hmain
  · simp [Vm.setCard]
  · intro b hb
    simp only [Vm.setCard, Function.update_of_ne hb]
    exact hothers b hb
  · refine ⟨_, hcalls, fun call hc => ?_⟩
    obtain ⟨b, hb, hc⟩ := List.mem_flatMap.mp hc
    by_cases heq : b = bay
    · rw [← heq]
      exact hc
    · rw [unsets_of_bound (hok.1 b (hslot ▸ hb) heq)] at hc
      simp at hc

theorem new_card_some {dev_type : String} {slot port : Nat}
    (h : vm.new_card D dev_type bay slot port = some card) :
    card.id = vm.created ∧ card.nio_list = [] := by
  unfold Vm.new_card at h
  split at h
  · cases h
  · simp only [Option.map_eq_some_iff] at h
    obtain ⟨driver, -, rfl⟩ := h
    exact ⟨rfl, rfl⟩

theorem place_cards (card : Card δ) {slot port real : Nat} (h : vm.Inv)
    (hinfo : vm.get_info D slot port = some (bay, real)) (hempty : vm.cards bay = none) :
    (vm.place bay card).cards = Function.update vm.cards bay (some card) := by
  obtain ⟨hbay, -⟩ := get_info_some hinfo
  funext b
  simp only [Vm.place]
  by_cases hb : b = bay
  · rw [if_pos hb, hb, Function.update_self]
  · rw [if_neg hb, Function.update_of_ne hb]
    split_ifs with hsub
    · -- the bay of a main card that is empty has no sub-slots
      obtain ⟨s, i⟩ := b
      obtain ⟨s', i'⟩ := bay
      simp only at hsub
      obtain ⟨rfl, rfl⟩ := hsub
      cases i with
      | none => exact absurd rfl hb
      | some i =>
        cases hcard : vm.cards (s, some i) with
        | none => rfl
        | some c => exact absurd hempty (h.main s i c hcard)
    · rfl

theorem place_state (h : StateOk vm) (hempty : vm.cards bay = none)
    (hlist : card.nio_list = []) (hcards : vm'.cards = Function.update vm.cards bay (some card))
    (hnios : vm'.nios = vm.nios) (hcalls : vm'.calls = vm.calls) : StateOk vm' := by
  apply h.of_cards hnios
  · intro b
    rw [hcards]
    by_cases hb : b = bay
    · rw [hb, Function.update_self, hempty]
      simp [bound, hlist]
    · rw [Function.update_of_ne hb]
  · intro id port hlive
    rw [hcalls] at hlive
    obtain ⟨b, c, hc, hid, hnb⟩ := h.used id port hlive
    refine ⟨b, c, ?_, hid, hnb⟩
    rw [hcards, Function.update_of_ne]
    · exact hc
    · intro hb
      rw [hb, hempty] at hc
      cases hc

theorem place_spec {dev_type : String} {slot port real : Nat} (h : vm.Inv)
    (hinfo : vm.get_info D slot port = some (bay, real)) (hempty : vm.cards bay = none)
    (hnew : vm.new_card D dev_type bay slot port = some card)
    (hok : PlaceOk D vm dev_type bay slot port) :
    (vm.place bay card).Inv ∧ (∀ b, b ≠ bay → (vm.place bay card).cards b = vm.cards b) ∧
      (vm.place bay card).get_card_ptr slot ≠ none ∧
      (vm.place bay card).translate_port_id D slot port = some (bay, card, real) := by
  obtain ⟨hbay, hslot, hsub, hreal⟩ := get_info_some hinfo
  obtain ⟨hlt, hport⟩ := hok card hnew
  have hcards := place_cards card h hinfo hempty
  have hframe : ∀ b, b ≠ bay → (vm.place bay card).cards b = vm.cards b := by
    intro b hb
    rw [hcards, Function.update_of_ne hb]
  have hself : (vm.place bay card).cards bay = some card := by
    rw [hcards, Function.update_self]
  have hmain : (vm.place bay card).cards (slot, none) ≠ none := by
    cases hi : bay.2 with
    | none =>
      have hb : bay = (slot, none) := Prod.ext hslot hi
      rw [← hb, hself]
      nofun
    | some i =>
      rw [hframe]
      · exact (hsub i hi).2.2
      · intro heq
        rw [← heq] at hi
        cases hi
  refine ⟨⟨fun b c hb => ?_, fun s i c hb => ?_, ?_⟩, hframe, ?_, ?_⟩
  · by_cases heq : b = bay
    · rw [heq]
      exact ⟨hbay, hslot ▸ hlt⟩
    · rw [hframe b heq] at hb
      exact h.room b c hb
  · by_cases hs : s = slot
    · rw [hs]
      exact hmain
    · have hne : ∀ j, (s, j) ≠ bay := fun j heq => hs (by rw [← hslot, ← heq])
      rw [hframe _ (hne _)] at hb ⊢
      exact h.main s i c hb
  · exact place_state h.state hempty (new_card_some hnew).2 hcards rfl rfl
  · have hle : ¬ (vm.place bay card).nr_slots ≤ slot := Nat.not_le.mpr hlt
    unfold Vm.get_card_ptr
    rw [if_neg hle]
    exact hmain
  · have hinfo' : (vm.place bay card).get_info D slot port = some (bay, real) := by
      cases hi : bay.2 with
      | none =>
        have hb : bay = (slot, none) := Prod.ext hslot hi
        have hslot16 : ¬ VM_MAX_SLOTS ≤ slot := by
          have := (mem_bays.mp hbay).1
          omega
        unfold Vm.get_info
        rw [if_neg hslot16, ← hb, hself, hreal hi]
        simp only
        split_ifs with hnm hwic hone
        · have := hport hi hnm.1 hnm.2
          simp only [CISCO_CARD_MAX_WIC] at hwic
          omega
        · have := hport hi hnm.1 hnm.2
          omega
        · rfl
        · rfl
      | some i =>
        have hne : (slot, none) ≠ bay := by
          intro heq
          rw [← heq] at hi
          cases hi
        unfold Vm.get_info at hinfo ⊢
        rw [hframe _ hne]
        exact hinfo
    simp only [Vm.translate_port_id, hinfo', hself, Option.map_some]

theorem get_info_removed {slot port real : Nat}
    (hinfo : vm.get_info D slot port = some (bay, real)) (hnone : vm'.cards bay = none)
    (hframe : ∀ b, b ≠ bay → vm'.cards b = vm.cards b) :
    vm'.get_info D slot port = some (bay, real) := by
  obtain ⟨hbay, hslot, -, hreal⟩ := get_info_some hinfo
  cases hi : bay.2 with
  | none =>
    have hb : bay = (slot, none) := Prod.ext hslot hi
    have hslot16 : ¬ VM_MAX_SLOTS ≤ slot := by
      have := (mem_bays.mp hbay).1
      omega
    unfold Vm.get_info
    rw [if_neg hslot16, ← hb, hnone, hreal hi]
  | some i =>
    have hne : (slot, none) ≠ bay := by
      intro heq
      rw [← heq] at hi
      cases hi
    unfold Vm.get_info at hinfo ⊢
    rw [hframe _ hne]
    exact hinfo

theorem new_card_removed (dev_type : String) {slot : Nat} (port : Nat) (hslot : bay.1 = slot)
    (hnone : vm'.cards bay = none) (hframe : ∀ b, b ≠ bay → vm'.cards b = vm.cards b)
    (hcreated : vm'.created = vm.created) (hdrivers : vm'.slots_drivers = vm.slots_drivers)
    (htype : vm'.slots_type = vm.slots_type) :
    vm'.new_card D dev_type bay slot port = vm.new_card D dev_type bay slot port := by
  have hfor : vm'.drivers_for D bay slot port = vm.drivers_for D bay slot port := by
    unfold Vm.drivers_for
    cases hi : bay.2 with
    | none =>
      have hb : bay = (slot, none) := Prod.ext hslot hi
      rw [← hb, hnone, hdrivers, htype]
      cases vm.cards bay with
      | none => rfl
      | some c => rfl
    | some i =>
      have hne : (slot, none) ≠ bay := by
        intro heq
        rw [← heq] at hi
        cases hi
      rw [hframe _ hne, hdrivers, htype]
  unfold Vm.new_card
  rw [hfor, hcreated]

theorem StepOk.of_calls {op : Op} {new : List Call}
    (hadd : ∀ dev_type slot port, op ≠ Op.add_binding dev_type slot port)
    (hremove : ∀ slot port, op ≠ Op.remove_binding slot port)
    (hcalls : (exec D vm op).2.calls = vm.calls ++ new)
    (hnew : ∀ id port, Call.unset id port ∈ new → Call.set id port ∈ vm.calls) :
    StepOk D vm op where
  told := by
    intro id port hm
    rw [hcalls, List.drop_left] at hm
    exact hnew id port hm
  added := fun dev_type slot port h => absurd h (hadd dev_type slot port)
  removed := fun slot port h => absurd h (hremove slot port)

theorem exec_remove_binding {slot port : Nat} (h : vm.Inv)
    (hc : Cond D vm (Op.remove_binding slot port)) :
    StepOk D vm (Op.remove_binding slot port) ∧
      (exec D vm (Op.remove_binding slot port)).2.Inv := by
  have hfail : exec D vm (Op.remove_binding slot port) = (false, vm) →
      StepOk D vm (Op.remove_binding slot port) ∧
        (exec D vm (Op.remove_binding slot port)).2.Inv := by
    intro heq
    rw [heq]
    refine ⟨⟨fun id port hm => ?_, nofun, fun _ _ _ hok => ?_⟩, h⟩
    · rw [heq] at hm
      simp at hm
    · rw [heq] at hok
      cases hok
  cases hinfo : vm.get_info D slot port with
  | none =>
    apply hfail
    simp only [exec, Vm.remove_binding, hinfo]
  | some r =>
    obtain ⟨bay, real⟩ := r
    cases hcard : vm.cards bay with
    | none =>
      apply hfail
      simp only [exec, Vm.remove_binding, hinfo, hcard]
    | some card =>
      by_cases hrem : Removable vm bay card
      · have hok := hc bay real card hinfo hcard hrem
        obtain ⟨vm', heq, hinv, hnone, hframe, ⟨new, hcalls, hnew⟩, -⟩ :=
          remove_binding_spec h hinfo hcard hrem hok
        have hex : exec D vm (Op.remove_binding slot port) = (true, vm') := heq
        refine ⟨⟨fun id p hm => ?_, nofun, ?_⟩, by rw [hex]; exact hinv⟩
        · rw [hex, hcalls, List.drop_left] at hm
          exact enabled_unsets hok.2 (hnew _ hm)
        · intro slot' port' hop _ bay' real' hinfo'
          simp only [Op.remove_binding.injEq] at hop
          rw [← hop.1, ← hop.2, hinfo] at hinfo'
          cases hinfo'
          rw [hex]
          exact ⟨hnone, hframe⟩
      · exact hfail (remove_binding_fails hinfo hcard hrem)

theorem exec_add_binding {dev_type : String} {slot port : Nat} (h : vm.Inv)
    (hc : Cond D vm (Op.add_binding dev_type slot port)) :
    StepOk D vm (Op.add_binding dev_type slot port) ∧
      (exec D vm (Op.add_binding dev_type slot port)).2.Inv := by
  have hfail : exec D vm (Op.add_binding dev_type slot port) = (false, vm) →
      StepOk D vm (Op.add_binding dev_type slot port) ∧
        (exec D vm (Op.add_binding dev_type slot port)).2.Inv := by
    intro heq
    rw [heq]
    refine ⟨⟨fun id port hm => ?_, fun _ _ _ _ _ _ _ => ?_, nofun⟩, h⟩
    · rw [heq] at hm
      simp at hm
    · rw [heq]
      exact ⟨fun _ _ => rfl, nofun⟩
  cases hinfo : vm.get_info D slot port with
  | none =>
    apply hfail
    simp only [exec, Vm.add_binding, hinfo]
  | some r =>
    obtain ⟨bay, real⟩ := r
    obtain ⟨-, hslot, -⟩ := get_info_some hinfo
    obtain ⟨hplace, hover⟩ := hc bay real hinfo
    cases hcard : vm.cards bay with
    | none =>
      cases hnew : vm.new_card D dev_type bay slot port with
      | none =>
        apply hfail
        simp only [exec, Vm.add_binding, hinfo, hcard, hnew]
      | some card =>
        obtain ⟨hinv, hframe, hptr, htrans⟩ := place_spec h hinfo hcard hnew (hplace hcard)
        have hex : exec D vm (Op.add_binding dev_type slot port) = (true, vm.place bay card) := by
          simp only [exec, Vm.add_binding, hinfo, hcard, hnew]
        refine ⟨⟨fun id p hm => ?_, ?_, nofun⟩, by rw [hex]; exact hinv⟩
        · rw [hex] at hm
          simp [Vm.place] at hm
        · intro _ _ _ hop bay' real' hinfo'
          simp only [Op.add_binding.injEq] at hop
          obtain ⟨rfl, rfl, rfl⟩ := hop
          rw [hinfo] at hinfo'
          cases hinfo'
          rw [hex]
          exact ⟨hframe, fun _ => ⟨Or.inl hcard, hptr, card, htrans, (new_card_some hnew).1⟩⟩
    | some old =>
      cases hflag : old.override with
      | false =>
        apply hfail
        simp only [exec, Vm.add_binding, hinfo, hcard, hflag, Bool.false_eq_true, ↓reduceIte]
      | true =>
        obtain ⟨hremok, hneed, hplace⟩ := hover old hcard hflag
        by_cases hrem : Removable vm bay old
        · obtain ⟨vm', heq, hinv, hnone, hframe, ⟨new, hcalls, hnew⟩, hnr, hcreated, hdrivers,
            htype⟩ := remove_binding_spec h hinfo hcard hrem (hremok hrem)
          have hinfo' := get_info_removed hinfo hnone hframe
          have hsame := new_card_removed (D := D) dev_type port hslot hnone hframe hcreated hdrivers
            htype
          have htold : ∀ id p, Call.unset id p ∈ vm'.calls.drop vm.calls.length →
              Call.set id p ∈ vm.calls := by
            intro id p hm
            rw [hcalls, List.drop_left] at hm
            exact enabled_unsets (hremok hrem).2 (hnew _ hm)
          cases hnew' : vm.new_card D dev_type bay slot port with
          | none =>
            have hex : exec D vm (Op.add_binding dev_type slot port) = (false, vm') := by
              simp only [exec, Vm.add_binding, hinfo, hcard, hflag, ↓reduceIte, heq, hsame, hnew']
            refine ⟨⟨?_, ?_, nofun⟩, by rw [hex]; exact hinv⟩
            · rw [hex]
              exact htold
            · intro _ _ _ hop bay' real' hb
              simp only [Op.add_binding.injEq] at hop
              obtain ⟨rfl, rfl, rfl⟩ := hop
              rw [hinfo] at hb
              cases hb
              rw [hex]
              exact ⟨hframe, nofun⟩
          | some card =>
            have hok' : PlaceOk D vm' dev_type bay slot port := by
              intro c hcnew
              rw [hsame] at hcnew
              rw [hnr]
              exact hplace c hcnew
            obtain ⟨hinv', hframe', hptr, htrans⟩ :=
              place_spec hinv hinfo' hnone (hsame.trans hnew') hok'
            have hex : exec D vm (Op.add_binding dev_type slot port) =
                (true, vm'.place bay card) := by
              simp only [exec, Vm.add_binding, hinfo, hcard, hflag, ↓reduceIte, heq, hsame, hnew']
            refine ⟨⟨?_, ?_, nofun⟩, by rw [hex]; exact hinv'⟩
            · rw [hex]
              exact htold
            · intro _ _ _ hop bay' real' hb
              simp only [Op.add_binding.injEq] at hop
              obtain ⟨rfl, rfl, rfl⟩ := hop
              rw [hinfo] at hb
              cases hb
              rw [hex, heq]
              exact ⟨fun b hb => (hframe' b hb).trans (hframe b hb), fun _ =>
                ⟨Or.inr rfl, hptr, card, htrans, (new_card_some hnew').1⟩⟩
        · -- a card that stays is only in the way where there is no driver for a new one
          have hnone : vm.new_card D dev_type bay slot port = none := by
            cases hnew : vm.new_card D dev_type bay slot port with
            | none => rfl
            | some card => exact absurd (hneed (by simp [hnew])) hrem
          apply hfail
          simp only [exec, Vm.add_binding, hinfo, hcard, hflag, ↓reduceIte,
            remove_binding_fails hinfo hcard hrem, hnone]

theorem find_nio_some {real : Nat} {nb : Binding}
    (h : Vm.find_nio_binding card real = some nb) : nb ∈ card.nio_list ∧ nb.port_id = real := by
  unfold Vm.find_nio_binding at h
  refine ⟨List.mem_of_find?_eq_some h, ?_⟩
  simpa using List.find?_some h

theorem translate_some {slot port real : Nat}
    (h : vm.translate_port_id D slot port = some (bay, card, real)) :
    vm.get_info D slot port = some (bay, real) ∧ vm.cards bay = some card := by
  unfold Vm.translate_port_id at h
  split at h
  · cases h
  · rename_i b r hinfo
    simp only [Option.map_eq_some_iff, Prod.mk.injEq] at h
    obtain ⟨c, hcard, rfl, rfl, rfl⟩ := h
    exact ⟨hinfo, hcard⟩

theorem set_state {new : List Call} (h : StateOk vm)
    (hnew : ∀ call ∈ new, ∃ bay card, vm.cards bay = some card ∧ ∃ nb ∈ card.nio_list,
      call = Call.set card.id nb.port_id) : StateOk { vm with calls := vm.calls ++ new } where
  counted := h.counted
  used := by
    intro id port hlive
    have hset : ∀ call ∈ new, ∃ i p, call = Call.set i p := by
      intro call hc
      obtain ⟨_, card, -, nb, -, rfl⟩ := hnew call hc
      exact ⟨_, _, rfl⟩
    cases live_append_set hset hlive with
    | inl hl => exact h.used id port hl
    | inr hm =>
      obtain ⟨b, card, hcard, nb, hnb, heq⟩ := hnew _ hm
      simp only [Call.set.injEq] at heq
      exact ⟨b, card, hcard, heq.1.symm, nb, hnb, heq.2.symm⟩

theorem unset_state {new : List Call} (h : StateOk vm)
    (hnew : ∀ call ∈ new, ∃ i p, call = Call.unset i p) :
    StateOk { vm with calls := vm.calls ++ new } where
  counted := h.counted
  used := fun id port hlive => h.used id port (live_append_unset hnew hlive).1

theorem mem_all_nio {f : Nat → Nat → Call} {call : Call} (h : call ∈ vm.all_nio f bay) :
    ∃ card, vm.cards bay = some card ∧ card.drv_info ∧ ∃ nb ∈ card.nio_list,
      call = f card.id nb.port_id := by
  unfold Vm.all_nio at h
  cases hcard : vm.cards bay with
  | none => simp [hcard] at h
  | some card =>
    simp only [hcard] at h
    split_ifs at h with hdrv
    · obtain ⟨nb, hnb, rfl⟩ := List.mem_map.mp h
      exact ⟨card, rfl, hdrv, nb, hnb, rfl⟩
    · simp at h

theorem slot_all_nio_spec (h : vm.Inv) (slot : Nat) (f : Nat → Nat → Call)
    (hf : f = Call.set ∨ f = Call.unset) :
    (vm.slot_all_nio f slot).Inv ∧ ∃ new, (vm.slot_all_nio f slot).calls = vm.calls ++ new ∧
      ∀ call ∈ new, vm.get_card_ptr slot ≠ none ∧ ∃ b ∈ Vm.slotBays slot,
        ∃ card, vm.cards b = some card ∧ card.drv_info ∧ ∃ nb ∈ card.nio_list,
          call = f card.id nb.port_id := by
  unfold Vm.slot_all_nio
  cases hptr : vm.get_card_ptr slot with
  | none => exact ⟨h, [], by simp, by simp⟩
  | some main =>
    have hmem : ∀ call ∈ (Vm.slotBays slot).flatMap (vm.all_nio f), ∃ b ∈ Vm.slotBays slot,
        ∃ card, vm.cards b = some card ∧ card.drv_info ∧ ∃ nb ∈ card.nio_list,
          call = f card.id nb.port_id := by
      intro call hc
      obtain ⟨b, hb, hc⟩ := List.mem_flatMap.mp hc
      exact ⟨b, hb, mem_all_nio hc⟩
    refine ⟨?_, _, rfl, fun call hc => ⟨nofun, hmem call hc⟩⟩
    refine h.of_shape rfl (fun _ => rfl) ?_
    cases hf with
    | inl hf =>
      subst hf
      apply set_state h.state
      intro call hc
      obtain ⟨b, -, card, hcard, -, hnb⟩ := hmem call hc
      exact ⟨b, card, hcard, hnb⟩
    | inr hf =>
      subst hf
      apply unset_state h.state
      intro call hc
      obtain ⟨b, -, card, -, -, nb, -, rfl⟩ := hmem call hc
      exact ⟨_, _, rfl⟩

theorem set_drv_info_inv (h : vm.Inv) (slot : Nat) (f : Option Nat → Bool → Bool) :
    (vm.set_drv_info slot f).Inv := by
  have hcards : ∀ b, (vm.set_drv_info slot f).cards b = vm.cards b ∨
      (vm.set_drv_info slot f).cards b =
        (vm.cards b).map fun card => { card with drv_info := f b.2 card.drv_info } := by
    intro b
    simp only [Vm.set_drv_info]
    split_ifs
    · exact Or.inr rfl
    · exact Or.inl rfl
  refine h.of_shape rfl (fun b => ?_) ?_
  · cases hcards b with
    | inl hb => rw [hb]
    | inr hb => simp [hb]
  · refine @StateOk.of_cards _ vm (vm.set_drv_info slot f) h.state rfl (fun b => ?_) ?_
    · cases hcards b with
      | inl hb => rw [hb]
      | inr hb =>
        rw [hb]
        cases vm.cards b with
        | none => rfl
        | some card => rfl
    · intro id port hlive
      obtain ⟨b, card, hcard, hid, hnb⟩ := h.state.used id port hlive
      cases hcards b with
      | inl hb => exact ⟨b, card, hb.trans hcard, hid, hnb⟩
      | inr hb =>
        rw [hcard] at hb
        exact ⟨b, _, hb, hid, hnb⟩

theorem exec_add_nio_binding {slot port : Nat} {nio : String} (h : vm.Inv) :
    StepOk D vm (Op.add_nio_binding slot port nio) ∧
      (exec D vm (Op.add_nio_binding slot port nio)).2.Inv := by
  suffices hs : (exec D vm (Op.add_nio_binding slot port nio)).2.calls = vm.calls ++ [] ∧
      (exec D vm (Op.add_nio_binding slot port nio)).2.Inv from
    ⟨StepOk.of_calls nofun nofun hs.1 (by simp), hs.2⟩
  have hfail : vm.calls = vm.calls ++ [] ∧ vm.Inv := ⟨by simp, h⟩
  simp only [exec, Vm.add_nio_binding]
  split
  · exact hfail
  · split
    · exact hfail
    · rename_i bay card real htrans
      obtain ⟨hinfo, hcard⟩ := translate_some htrans
      obtain ⟨hbay, -⟩ := get_info_some hinfo
      split_ifs
      · exact hfail
      · cases hacq : acquire REF_LIMIT vm.nios nio with
        | none => exact hfail
        | some nios =>
          refine ⟨by simp [Vm.setCard], h.of_shape rfl (fun b => ?_) ⟨?_, ?_⟩⟩
          · by_cases hb : b = bay
            · simp [Vm.setCard, hb, hcard]
            · simp [Vm.setCard, hb]
          · have hsum : ∀ n, (vm.setCard bay (some { card with
                nio_list := ⟨nio, real, port⟩ :: card.nio_list })).refs n +
                (bound (some card)).count n =
                  vm.refs n + (nio :: bound (some card)).count n := by
              intro n
              have := refs_setCard vm hbay (some { card with
                nio_list := ⟨nio, real, port⟩ :: card.nio_list }) n
              rw [hcard] at this
              exact this
            apply h.state.counted.acquire hacq
            · have := hsum nio
              rw [List.count_cons_self] at this
              simp only [Vm.refs] at this ⊢
              omega
            · intro m hm
              have := hsum m
              rw [List.count_cons_of_ne (Ne.symm hm)] at this
              simp only [Vm.refs] at this ⊢
              omega
          · intro id p hlive
            obtain ⟨b, c, hc, hid, nb, hnb, hport⟩ := h.state.used id p hlive
            by_cases hb : b = bay
            · subst hb
              rw [hcard] at hc
              cases hc
              exact ⟨b, _, Function.update_self .., hid, nb, List.mem_cons_of_mem _ hnb, hport⟩
            · refine ⟨b, c, ?_, hid, nb, hnb, hport⟩
              simp only [Vm.setCard, Function.update_of_ne hb]
              exact hc

theorem exec_remove_nio_binding {slot port : Nat} (h : vm.Inv)
    (hc : Cond D vm (Op.remove_nio_binding slot port)) :
    StepOk D vm (Op.remove_nio_binding slot port) ∧
      (exec D vm (Op.remove_nio_binding slot port)).2.Inv := by
  suffices hs : ∃ new, (exec D vm (Op.remove_nio_binding slot port)).2.calls = vm.calls ++ new ∧
      (∀ id p, Call.unset id p ∈ new → Call.set id p ∈ vm.calls) ∧
      (exec D vm (Op.remove_nio_binding slot port)).2.Inv by
    obtain ⟨new, hcalls, hnew, hinv⟩ := hs
    exact ⟨StepOk.of_calls nofun nofun hcalls hnew, hinv⟩
  have hfail : ∃ new, vm.calls = vm.calls ++ new ∧
      (∀ id p, Call.unset id p ∈ new → Call.set id p ∈ vm.calls) ∧ vm.Inv :=
    ⟨[], by simp, by simp, h⟩
  simp only [exec, Vm.remove_nio_binding]
  cases hptr : vm.get_card_ptr slot with
  | none => exact hfail
  | some main =>
    cases htrans : vm.translate_port_id D slot port with
    | none => exact hfail
    | some r =>
      obtain ⟨bay, card, real⟩ := r
      simp only
      cases hfind : Vm.find_nio_binding card real with
      | none => exact hfail
      | some nb =>
        obtain ⟨hinfo, hcard⟩ := translate_some htrans
        obtain ⟨hbay, -, -, hreal⟩ := get_info_some hinfo
        obtain ⟨hnb, hport⟩ := find_nio_some hfind
        obtain ⟨hmain, hset⟩ := hc bay card real (by simp [hptr]) htrans (by simp [hfind])
        have hport' : port = real := (hreal hmain).symm
        refine ⟨[Call.unset card.id port], rfl, ?_, h.of_shape rfl (fun b => ?_) ⟨?_, ?_⟩⟩
        · intro id p hm
          simp only [List.mem_singleton, Call.unset.injEq] at hm
          rw [hm.1, hm.2, hport']
          exact hset
        · by_cases hb : b = bay
          · simp [Vm.setCard, hb, hcard]
          · simp [Vm.setCard, hb]
        · have hsum : ∀ n, (vm.setCard bay (some { card with
              nio_list := card.nio_list.erase nb })).refs n + (bound (some card)).count n =
              vm.refs n + ((card.nio_list.erase nb).map Binding.nio).count n := by
            intro n
            have := refs_setCard vm hbay (some { card with
              nio_list := card.nio_list.erase nb }) n
            rw [hcard] at this
            exact this
          have hperm : ∀ n, (bound (some card)).count n =
              (nb.nio :: (card.nio_list.erase nb).map Binding.nio).count n := by
            intro n
            rw [← List.map_cons]
            exact ((List.perm_cons_erase hnb).map Binding.nio).count_eq n
          apply h.state.counted.release
          · have hn := hsum nb.nio
            rw [hperm, List.count_cons_self] at hn
            simp only [Vm.refs] at hn ⊢
            omega
          · intro m hm
            have hn := hsum m
            rw [hperm, List.count_cons_of_ne (Ne.symm hm)] at hn
            simp only [Vm.refs] at hn ⊢
            omega
        · intro id p hlive
          obtain ⟨hlive, hno⟩ := live_append_unset (by simp) hlive
          obtain ⟨b, c, hcb, hid, nb', hnb', hp⟩ := h.state.used id p hlive
          by_cases hb : b = bay
          · subst hb
            rw [hcard] at hcb
            cases hcb
            refine ⟨b, _, Function.update_self .., hid, nb', ?_, hp⟩
            have hne : nb' ≠ nb := by
              intro heq
              apply hno
              simp only [List.mem_singleton, Call.unset.injEq]
              exact ⟨hid.symm, by rw [← hp, heq, hport, hport']⟩
            exact (List.mem_erase_of_ne hne).mpr hnb'
          · refine ⟨b, c, ?_, hid, nb', hnb', hp⟩
            simp only [Vm.setCard, Function.update_of_ne hb]
            exact hcb

/-- What an operation tells the drivers, and the invariant after it -/
def Calm (D : Drivers δ) (vm : Vm δ) (op : Op) : Prop :=
  (exec D vm op).2.Inv ∧ ∃ new, (exec D vm op).2.calls = vm.calls ++ new ∧
    ∀ id port, Call.unset id port ∈ new → Call.set id port ∈ vm.calls

theorem Calm.stepOk {op : Op} (h : Calm D vm op)
    (hadd : ∀ dev_type slot port, op ≠ Op.add_binding dev_type slot port)
    (hremove : ∀ slot port, op ≠ Op.remove_binding slot port) :
    StepOk D vm op ∧ (exec D vm op).2.Inv := by
  obtain ⟨hinv, new, hcalls, hnew⟩ := h
  exact ⟨StepOk.of_calls hadd hremove hcalls hnew, hinv⟩

theorem calm_same (h : vm.Inv) :
    vm.Inv ∧ ∃ new, vm.calls = vm.calls ++ new ∧
      ∀ id port, Call.unset id port ∈ new → Call.set id port ∈ vm.calls :=
  ⟨h, [], by simp, by simp⟩

theorem calm_set_flag (h : vm.Inv) (slot port : Nat) : Calm D vm (Op.set_flag slot port) := by
  simp only [Calm, exec, Vm.set_flag]
  cases htrans : vm.translate_port_id D slot port with
  | none => exact calm_same h
  | some r =>
    obtain ⟨bay, card, real⟩ := r
    obtain ⟨hinfo, hcard⟩ := translate_some htrans
    refine ⟨h.of_shape rfl (fun b => ?_) ?_, [], (List.append_nil _).symm, by simp⟩
    · by_cases hb : b = bay
      · simp [Vm.setCard, hb, hcard]
      · simp [Vm.setCard, hb]
    · refine @StateOk.of_cards _ vm _ h.state rfl (fun b => ?_) fun id p hlive => ?_
      · by_cases hb : b = bay
        · simp only [Vm.setCard, hb, Function.update_self, hcard]
          rfl
        · simp only [Vm.setCard, Function.update_of_ne hb]
      · obtain ⟨b, c, hc, hid, hnb⟩ := h.state.used id p hlive
        by_cases hb : b = bay
        · subst hb
          rw [hcard] at hc
          cases hc
          exact ⟨b, _, Function.update_self .., hid, hnb⟩
        · refine ⟨b, c, ?_, hid, hnb⟩
          simp only [Vm.setCard, Function.update_of_ne hb]
          exact hc

theorem calm_remove_all {slot : Nat} (h : vm.Inv)
    (hc : Cond D vm (Op.remove_all_nio_bindings slot)) :
    Calm D vm (Op.remove_all_nio_bindings slot) := by
  cases hptr : vm.get_card_ptr slot with
  | none =>
    simp only [Calm, exec, Vm.remove_all_nio_bindings, hptr]
    exact calm_same h
  | some main =>
    obtain ⟨-, hcalls, -, -, -, -, hinv⟩ := remove_all_spec h hptr
    refine ⟨hinv, _, hcalls, fun id port hm => ?_⟩
    obtain ⟨b, hb, hm⟩ := List.mem_flatMap.mp hm
    exact enabled_unsets (hc (by simp [hptr]) b hb) hm

theorem calm_enable_nio (h : vm.Inv) (slot port : Nat) (ok : Bool) :
    Calm D vm (Op.enable_nio slot port ok) := by
  simp only [Calm, exec, Vm.enable_nio]
  cases vm.get_card_ptr slot with
  | none => exact calm_same h
  | some main =>
    cases htrans : vm.translate_port_id D slot port with
    | none => exact calm_same h
    | some r =>
      obtain ⟨bay, card, real⟩ := r
      simp only
      split_ifs with hset
      · obtain ⟨nb, hfind⟩ := Option.isSome_iff_exists.mp hset.1
        obtain ⟨hnb, hport⟩ := find_nio_some hfind
        refine ⟨h.of_shape rfl (fun _ => rfl) (set_state h.state ?_), _, rfl, by simp⟩
        intro call hcall
        rw [List.mem_singleton] at hcall
        exact ⟨bay, card, (translate_some htrans).2, nb, hnb, by rw [hcall, hport]⟩
      · exact calm_same h

theorem calm_disable_nio {slot port : Nat} {ok : Bool} (h : vm.Inv)
    (hc : Cond D vm (Op.disable_nio slot port ok)) : Calm D vm (Op.disable_nio slot port ok) := by
  simp only [Calm, exec, Vm.disable_nio]
  cases hptr : vm.get_card_ptr slot with
  | none => exact calm_same h
  | some main =>
    cases htrans : vm.translate_port_id D slot port with
    | none => exact calm_same h
    | some r =>
      obtain ⟨bay, card, real⟩ := r
      simp only
      split_ifs with hset
      · refine ⟨h.of_shape rfl (fun _ => rfl) (unset_state h.state (by simp)), _, rfl, ?_⟩
        intro id p hm
        rw [List.mem_singleton, Call.unset.injEq] at hm
        rw [hm.1, hm.2]
        exact hc bay card real (by simp [hptr]) htrans hset.1 hset.2
      · exact calm_same h

theorem calm_enable_all (h : vm.Inv) (slot : Nat) : Calm D vm (Op.enable_all_nio slot) := by
  obtain ⟨hinv, new, hcalls, hnew⟩ := slot_all_nio_spec h slot Call.set (Or.inl rfl)
  refine ⟨hinv, new, hcalls, fun id port hm => ?_⟩
  obtain ⟨-, b, -, card, -, -, nb, -, heq⟩ := hnew _ hm
  cases heq

theorem disable_all_spec {slot : Nat} (h : vm.Inv)
    (hc : vm.get_card_ptr slot ≠ none → ∀ b ∈ Vm.slotBays slot, ∀ card, vm.cards b = some card →
      card.drv_info → Enabled vm b) :
    (vm.slot_all_nio Call.unset slot).Inv ∧
      ∃ new, (vm.slot_all_nio Call.unset slot).calls = vm.calls ++ new ∧
        ∀ id port, Call.unset id port ∈ new → Call.set id port ∈ vm.calls := by
  obtain ⟨hinv, new, hcalls, hnew⟩ := slot_all_nio_spec h slot Call.unset (Or.inr rfl)
  refine ⟨hinv, new, hcalls, fun id port hm => ?_⟩
  obtain ⟨hptr, b, hb, card, hcard, hdrv, nb, hnb, heq⟩ := hnew _ hm
  rw [Call.unset.injEq] at heq
  rw [heq.1, heq.2]
  exact hc hptr b hb card hcard hdrv card hcard nb hnb

theorem calm_init (h : vm.Inv) (slot : Nat) (inited : Option Nat → Bool) :
    Calm D vm (Op.init slot inited) := by
  simp only [Calm, exec, Vm.init]
  split
  · exact calm_same h
  · obtain ⟨hinv, new, hcalls, hnew⟩ :=
      slot_all_nio_spec (set_drv_info_inv h slot fun i _ => inited i) slot Call.set (Or.inl rfl)
    refine ⟨hinv, new, hcalls, fun id port hm => ?_⟩
    obtain ⟨-, b, -, card, -, -, nb, -, heq⟩ := hnew _ hm
    cases heq

theorem calm_shutdown {slot : Nat} {ok : Option Nat → Bool} (h : vm.Inv)
    (hc : Cond D vm (Op.shutdown slot ok)) : Calm D vm (Op.shutdown slot ok) := by
  simp only [Calm, exec, Vm.shutdown]
  split
  · exact calm_same h
  · obtain ⟨hinv, hcalls⟩ := disable_all_spec h hc
    exact ⟨set_drv_info_inv hinv slot fun i drv_info => drv_info && !ok i, hcalls⟩

theorem calm_nio_create (h : vm.Inv) (nio : String) : Calm D vm (Op.nio_create nio) := by
  simp only [Calm, exec, Vm.nio_create]
  cases hn : vm.nios nio with
  | some k => exact calm_same h
  | none =>
    have hzero := h.state.counted nio
    simp only [hn] at hzero
    refine ⟨h.of_shape rfl (fun _ => rfl) ⟨fun n => ?_, h.state.used⟩, [],
      (List.append_nil _).symm, by simp⟩
    by_cases heq : n = nio
    · subst heq
      simp only [Function.update_self]
      exact hzero.symm
    · simp only [Function.update_of_ne heq]
      exact h.state.counted n

theorem calm_nio_delete (h : vm.Inv) (nio : String) : Calm D vm (Op.nio_delete nio) := by
  simp only [Calm, exec, Vm.nio_delete]
  split_ifs with hn
  · have hzero := h.state.counted nio
    simp only [hn] at hzero
    refine ⟨h.of_shape rfl (fun _ => rfl) ⟨fun n => ?_, h.state.used⟩, [],
      (List.append_nil _).symm, by simp⟩
    by_cases heq : n = nio
    · subst heq
      simp only [Function.update_self]
      exact hzero.symm
    · simp only [Function.update_of_ne heq]
      exact h.state.counted n
  · exact calm_same h

theorem exec_ok (op : Op) (h : vm.Inv) (hc : Cond D vm op) :
    StepOk D vm op ∧ (exec D vm op).2.Inv := by
  cases op with
  | add_binding dev_type slot port => exact exec_add_binding h hc
  | remove_binding slot port => exact exec_remove_binding h hc
  | set_flag slot port => exact (calm_set_flag h slot port).stepOk nofun nofun
  | add_nio_binding slot port nio => exact exec_add_nio_binding h
  | remove_nio_binding slot port => exact exec_remove_nio_binding h hc
  | remove_all_nio_bindings slot => exact (calm_remove_all h hc).stepOk nofun nofun
  | enable_nio slot port ok => exact (calm_enable_nio h slot port ok).stepOk nofun nofun
  | disable_nio slot port ok => exact (calm_disable_nio h hc).stepOk nofun nofun
  | enable_all_nio slot => exact (calm_enable_all h slot).stepOk nofun nofun
  | disable_all_nio slot =>
    have hcalm : Calm D vm (Op.disable_all_nio slot) := disable_all_spec h hc
    exact hcalm.stepOk nofun nofun
  | init slot inited => exact (calm_init h slot inited).stepOk nofun nofun
  | shutdown slot ok => exact (calm_shutdown h hc).stepOk nofun nofun
  | nio_create nio => exact (calm_nio_create h nio).stepOk nofun nofun
  | nio_delete nio => exact (calm_nio_delete h nio).stepOk nofun nofun

theorem empty_inv (nr_slots : Nat) (slots_type : CardType) (slots_drivers : List δ)
    (nios : List String) : (Vm.empty nr_slots slots_type slots_drivers nios).Inv where
  room := nofun
  main := nofun
  state := by
    refine ⟨fun n => ?_, fun id port hlive => by simp [live, Vm.empty] at hlive⟩
    have hzero : (Vm.empty nr_slots slots_type slots_drivers nios).refs n = 0 := by
      simp [Vm.refs, total, Vm.empty, bound]
    simp only [Vm.empty]
    split_ifs
    · exact hzero.symm
    · exact hzero

def Step (D : Drivers δ) (vm : Vm δ) (op : Op) (vm' : Vm δ) : Prop := vm' = (exec D vm op).2

/-- In every run whose operations meet their conditions, each of them does what
it should, and the counts and the bindings are right in every state. -/
theorem cards_ok {nr_slots : Nat} {slots_type : CardType} {slots_drivers : List δ}
    {nios : List String} {trace : List (Vm δ × Op)}
    (hrun : Run (Step D) (Vm.empty nr_slots slots_type slots_drivers nios) trace vm)
    (hcond : AllSteps (Cond D) trace) :
    AllSteps (StepOk D) trace ∧ Always StateOk trace vm := by
  have halways := hrun.invariant (P := Vm.Inv)
    (fun vm op vm' h hc hs => by rw [hs]; exact (exec_ok op h hc).2) (empty_inv ..) hcond
  refine ⟨fun x hx => ?_, halways.1.state, fun x hx => (halways.2 x hx).state⟩
  exact (exec_ok x.2 (halways.2 x hx) (hcond x hx)).1

def board : Drivers Bool where
  dev_type d := if d then "MB" else "WIC"
  wic_slots d := if d then 2 else 0
  card_get_sub_info d :=
    if d then some fun port => if 2 ≤ port % 16 then none else some ([false], CardType.WIC)
    else none

def chassis : Vm Bool := Vm.empty 1 CardType.NM [true] ["n0", "n1"]

def after (ops : List Op) : Vm Bool := ops.foldl (fun vm op => (exec board vm op).2) chassis

theorem run_after (ops : List Op) :
    Run (Step board) chassis (history (fun vm op => (exec board vm op).2) chassis ops)
      (after ops) :=
  run_history _ _ _

theorem cards_ok_wic : StateOk (after [Op.add_binding "MB" 0 0, Op.add_binding "WIC" 0 16]) ∧
    (after [Op.add_binding "MB" 0 0, Op.add_binding "WIC" 0 16]).cards (0, some 0) ≠ none := by
  refine ⟨(cards_ok (run_after _) ?_).2.1, by decide⟩
  simp only [history, allSteps_cons]
  refine ⟨fun bay real hinfo => ?_, fun bay real hinfo => ?_, fun _ hx => by cases hx⟩
  · have hmain : Vm.get_info board chassis 0 0 = some ((0, none), 0) := by decide
    rw [hmain] at hinfo
    cases hinfo
    refine ⟨fun _ card _ => ⟨by decide, fun _ _ _ => by decide⟩, ?_⟩
    intro card hcard
    cases hcard
  · have hwic : Vm.get_info board (exec board chassis (Op.add_binding "MB" 0 0)).2 0 16 =
        some ((0, some 0), 0) := by decide
    rw [hwic] at hinfo
    cases hinfo
    refine ⟨fun _ card _ => ⟨by decide, fun hbay => by cases hbay⟩, ?_⟩
    intro card hcard
    have hnone : (exec board chassis (Op.add_binding "MB" 0 0)).2.cards (0, some 0) = none := by
      decide
    rw [hnone] at hcard
    cases hcard

/-- A WIC that is put in and taken out again while the main board is in use
takes the binding of the main board with it. -/
theorem not_cards_ok : ¬ ∀ (vm : Vm Bool) (trace : List (Vm Bool × Op)),
    Run (Step board) chassis trace vm → AllSteps (StepOk board) trace ∧ Always StateOk trace vm := by
  intro hall
  have hsteps := (hall _ _ (run_after [Op.add_binding "MB" 0 0, Op.add_nio_binding 0 0 "n0",
    Op.init 0 fun _ => true, Op.add_binding "WIC" 0 16, Op.remove_binding 0 16])).1
  simp only [history, allSteps_cons] at hsteps
  have hremoved := hsteps.2.2.2.2.1.removed 0 16 rfl (by decide) (0, some 0) 0
    (by decide)
  have hkept := hremoved.2 (0, none) (by decide)
  revert hkept
  decide

end Dynamips.CiscoCard
