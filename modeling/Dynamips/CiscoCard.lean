import Dynamips.Lib.Refs
import Dynamips.Lib.Runs
import Mathlib.Data.Finset.Prod

/-! The slots of a VM (cisco_card.c): the cards in its bays, their bindings to
NIOs, and what the drivers are told. -/
set_option autoImplicit false

namespace Dynamips.CiscoCard

open Refs

def VM_MAX_SLOTS : Nat := 16

def CISCO_CARD_MAX_WIC : Nat := 8

def CISCO_CARD_MAX_SUBSLOTS : Nat := 16

/-- The limit of a reference count of the registry, `INT_MAX` -/
def REF_LIMIT : Nat := 0x7fffffff

inductive CardType where
  | UNDEF | PA | NM | WIC
deriving DecidableEq, Repr

/-- `struct cisco_nio_binding`. An NIO is known by its name: it is not deleted
while a binding refers to it. -/
structure Binding where
  nio : String
  port_id : Nat
  orig_port_id : Nat
deriving DecidableEq, Repr

/-- The drivers of the cards of a platform. `card_get_sub_info` is `none` for a
driver without sub-slots. -/
structure Drivers (δ : Type) where
  dev_type : δ → String
  wic_slots : δ → Nat
  card_get_sub_info : δ → Option (Nat → Option (List δ × CardType))

/-- `struct cisco_card`, but for its sub-slots, which are bays of their own;
`id` tells one allocation from another, `override` is the flag
`CISCO_CARD_FLAG_OVERRIDE`, and `drv_info` whether the driver has its data. -/
structure Card (δ : Type) where
  id : Nat
  card_type : CardType
  override : Bool
  card_id : Nat
  slot_id : Nat
  subslot_id : Nat
  dev_type : String
  driver : δ
  drv_info : Bool
  nio_list : List Binding
deriving DecidableEq

abbrev Bay : Type := Nat × Option Nat

/-- A call of `card_set_nio` or `card_unset_nio` for a card -/
inductive Call where
  | set (card port : Nat)
  | unset (card port : Nat)
deriving DecidableEq, Repr

/-- The part of a VM that the slots are about, the reference counts of the NIOs,
and the calls of the drivers so far. -/
structure Vm (δ : Type) where
  nr_slots : Nat
  slots_type : CardType
  slots_drivers : List δ
  cards : Bay → Option (Card δ)
  created : Nat
  nios : String → Option Nat
  calls : List Call

variable {δ : Type}

namespace Vm

variable (D : Drivers δ) (vm : Vm δ)

def setCard (bay : Bay) (card : Option (Card δ)) : Vm δ :=
  { vm with cards := Function.update vm.cards bay card }

def get_card_ptr (slot : Nat) : Option (Card δ) :=
  if vm.nr_slots ≤ slot then none else vm.cards (slot, none)

/-- `vm_slot_get_info`: the bay and the port number in it -/
def get_info (slot port : Nat) : Option (Bay × Nat) :=
  if VM_MAX_SLOTS ≤ slot then none
  else
    match vm.cards (slot, none) with
    | none => some ((slot, none), port)
    | some card =>
      if card.card_type = CardType.NM ∧ 0 < D.wic_slots card.driver then
        let wic_id := port / 16
        if CISCO_CARD_MAX_WIC + 1 ≤ wic_id then none
        else if 1 ≤ wic_id then some ((slot, some (wic_id - 1)), port % 16)
        else some ((slot, none), port)
      else some ((slot, none), port)

/-- `vm_slot_translate_port_id`, as a bay with its card -/
def translate_port_id (slot port : Nat) : Option (Bay × Card δ × Nat) :=
  match vm.get_info D slot port with
  | none => none
  | some (bay, real) => (vm.cards bay).map fun card => (bay, card, real)

def active (slot port : Nat) : Bool := (vm.translate_port_id D slot port).isSome

def find_nio_binding (card : Card δ) (port : Nat) : Option Binding :=
  card.nio_list.find? fun nb => nb.port_id = port

def subBays (slot : Nat) : List Bay :=
  (List.range CISCO_CARD_MAX_SUBSLOTS).map fun i => (slot, some i)

def slotBays (slot : Nat) : List Bay := (slot, none) :: subBays slot

/-- `cisco_card_remove_all_nio_bindings` -/
def remove_card_bindings (bay : Bay) : Vm δ :=
  match vm.cards bay with
  | none => vm
  | some card =>
    { vm.setCard bay (some { card with nio_list := [] }) with
      calls := vm.calls ++ card.nio_list.map fun nb => Call.unset card.id nb.port_id
      nios := releaseAll vm.nios (card.nio_list.map Binding.nio) }

def remove_all_nio_bindings (slot : Nat) : Vm δ :=
  match vm.get_card_ptr slot with
  | none => vm
  | some _ => (slotBays slot).foldl remove_card_bindings vm

def remove_binding (slot port : Nat) : Bool × Vm δ :=
  match vm.get_info D slot port with
  | none => (false, vm)
  | some (bay, _) =>
    match vm.cards bay with
    | none => (false, vm)
    | some card =>
      if card.drv_info then (false, vm)
      else if bay.2 = none ∧ (subBays slot).any fun b => (vm.cards b).isSome then (false, vm)
      else (true, (vm.remove_all_nio_bindings slot).setCard bay none)

/-- The drivers for a bay, the type of the card and its id, as
`vm_slot_add_binding` finds them once the bay is known -/
def drivers_for (bay : Bay) (slot port : Nat) : Option (List δ × CardType × Nat) :=
  match vm.cards (slot, none) with
  | none => some (vm.slots_drivers, vm.slots_type, slot)
  | some card =>
    if bay.2 = none then some (vm.slots_drivers, vm.slots_type, slot)
    else
      match D.card_get_sub_info card.driver with
      | none => none
      | some info => (info port).map fun x => (x.1, x.2, port)

def new_card (dev_type : String) (bay : Bay) (slot port : Nat) : Option (Card δ) :=
  match vm.drivers_for D bay slot port with
  | none => none
  | some (drivers, card_type, card_id) =>
    (drivers.find? fun driver => D.dev_type driver = dev_type).map fun driver =>
      { id := vm.created
        card_type := card_type
        override := false
        card_id := card_id
        slot_id := slot
        subslot_id := port
        dev_type := D.dev_type driver
        driver := driver
        drv_info := false
        nio_list := [] }

/-- A new card is put into a bay; the sub-slots of a main card are empty. -/
def place (bay : Bay) (card : Card δ) : Vm δ :=
  { vm with
    created := vm.created + 1
    cards := fun b =>
      if b = bay then some card
      else if bay.2 = none ∧ b.1 = bay.1 then none
      else vm.cards b }

def add_binding (dev_type : String) (slot port : Nat) : Bool × Vm δ :=
  match vm.get_info D slot port with
  | none => (false, vm)
  | some (bay, _) =>
    match vm.cards bay with
    | some card =>
      if card.override then
        let vm := (vm.remove_binding D slot port).2
        match vm.new_card D dev_type bay slot port with
        | none => (false, vm)
        | some card => (true, vm.place bay card)
      else (false, vm)
    | none =>
      match vm.new_card D dev_type bay slot port with
      | none => (false, vm)
      | some card => (true, vm.place bay card)

/-- `vm_slot_set_flag`, of the only flag there is -/
def set_flag (slot port : Nat) : Bool × Vm δ :=
  match vm.translate_port_id D slot port with
  | none => (false, vm)
  | some (bay, card, _) => (true, vm.setCard bay (some { card with override := true }))

def add_nio_binding (slot port : Nat) (nio : String) : Bool × Vm δ :=
  match vm.get_card_ptr slot with
  | none => (false, vm)
  | some _ =>
    match vm.translate_port_id D slot port with
    | none => (false, vm)
    | some (bay, card, real) =>
      if (find_nio_binding card real).isSome then (false, vm)
      else
        match acquire REF_LIMIT vm.nios nio with
        | none => (false, vm)
        | some nios =>
          (true, { vm.setCard bay
            (some { card with nio_list := ⟨nio, real, port⟩ :: card.nio_list }) with
              nios := nios })

def remove_nio_binding (slot port : Nat) : Bool × Vm δ :=
  match vm.get_card_ptr slot with
  | none => (false, vm)
  | some _ =>
    match vm.translate_port_id D slot port with
    | none => (false, vm)
    | some (bay, card, real) =>
      match find_nio_binding card real with
      | none => (false, vm)
      | some nb =>
        (true, { vm.setCard bay (some { card with nio_list := card.nio_list.erase nb }) with
          calls := vm.calls ++ [Call.unset card.id port]
          nios := release vm.nios nb.nio })

/-- `vm_slot_enable_nio`; `ok` is what the driver answers. -/
def enable_nio (slot port : Nat) (ok : Bool) : Bool × Vm δ :=
  match vm.get_card_ptr slot with
  | none => (false, vm)
  | some _ =>
    match vm.translate_port_id D slot port with
    | none => (false, vm)
    | some (_, card, real) =>
      if (find_nio_binding card real).isSome ∧ card.drv_info then
        (ok, { vm with calls := vm.calls ++ [Call.set card.id real] })
      else (false, vm)

def disable_nio (slot port : Nat) (ok : Bool) : Bool × Vm δ :=
  match vm.get_card_ptr slot with
  | none => (false, vm)
  | some _ =>
    match vm.translate_port_id D slot port with
    | none => (false, vm)
    | some (_, card, real) =>
      if (find_nio_binding card real).isSome ∧ card.drv_info then
        (ok, { vm with calls := vm.calls ++ [Call.unset card.id real] })
      else (false, vm)

/-- The calls of `cisco_card_enable_all_nio` and `cisco_card_disable_all_nio` -/
def all_nio (call : Nat → Nat → Call) (bay : Bay) : List Call :=
  match vm.cards bay with
  | none => []
  | some card =>
    if card.drv_info then card.nio_list.map fun nb => call card.id nb.port_id else []

/-- `vm_slot_enable_all_nio`, with `Call.set`, and `vm_slot_disable_all_nio` -/
def slot_all_nio (call : Nat → Nat → Call) (slot : Nat) : Vm δ :=
  match vm.get_card_ptr slot with
  | none => vm
  | some _ => { vm with calls := vm.calls ++ (slotBays slot).flatMap (vm.all_nio call) }

/-- The driver data of the cards of a slot, as the drivers leave them -/
def set_drv_info (slot : Nat) (f : Option Nat → Bool → Bool) : Vm δ :=
  { vm with cards := fun b =>
      if b ∈ slotBays slot then
        (vm.cards b).map fun card => { card with drv_info := f b.2 card.drv_info }
      else vm.cards b }

/-- `vm_slot_init`; `inited` is whether a driver has its data after `card_init`. -/
def init (slot : Nat) (inited : Option Nat → Bool) : Bool × Vm δ :=
  match vm.get_card_ptr slot with
  | none => (true, vm)
  | some _ => (true, (vm.set_drv_info slot fun i _ => inited i).slot_all_nio Call.set slot)

/-- `vm_slot_shutdown`; `ok` is what `card_shutdown` of a driver answers. -/
def shutdown (slot : Nat) (ok : Option Nat → Bool) : Bool × Vm δ :=
  match vm.get_card_ptr slot with
  | none => (false, vm)
  | some _ =>
    (true, (vm.slot_all_nio Call.unset slot).set_drv_info slot fun i drv_info => drv_info && !ok i)

def nio_create (nio : String) : Bool × Vm δ :=
  match vm.nios nio with
  | none => (true, { vm with nios := Function.update vm.nios nio (some 0) })
  | some _ => (false, vm)

/-- `netio_delete`, of an NIO without references -/
def nio_delete (nio : String) : Bool × Vm δ :=
  if vm.nios nio = some 0 then (true, { vm with nios := Function.update vm.nios nio none })
  else (false, vm)

end Vm

inductive Op where
  | add_binding (dev_type : String) (slot port : Nat)
  | remove_binding (slot port : Nat)
  | set_flag (slot port : Nat)
  | add_nio_binding (slot port : Nat) (nio : String)
  | remove_nio_binding (slot port : Nat)
  | remove_all_nio_bindings (slot : Nat)
  | enable_nio (slot port : Nat) (ok : Bool)
  | disable_nio (slot port : Nat) (ok : Bool)
  | enable_all_nio (slot : Nat)
  | disable_all_nio (slot : Nat)
  | init (slot : Nat) (inited : Option Nat → Bool)
  | shutdown (slot : Nat) (ok : Option Nat → Bool)
  | nio_create (nio : String)
  | nio_delete (nio : String)

def exec (D : Drivers δ) (vm : Vm δ) : Op → Bool × Vm δ
  | Op.add_binding dev_type slot port => vm.add_binding D dev_type slot port
  | Op.remove_binding slot port => vm.remove_binding D slot port
  | Op.set_flag slot port => vm.set_flag D slot port
  | Op.add_nio_binding slot port nio => vm.add_nio_binding D slot port nio
  | Op.remove_nio_binding slot port => vm.remove_nio_binding D slot port
  | Op.remove_all_nio_bindings slot => (true, vm.remove_all_nio_bindings slot)
  | Op.enable_nio slot port ok => vm.enable_nio D slot port ok
  | Op.disable_nio slot port ok => vm.disable_nio D slot port ok
  | Op.enable_all_nio slot => (true, vm.slot_all_nio Call.set slot)
  | Op.disable_all_nio slot => (true, vm.slot_all_nio Call.unset slot)
  | Op.init slot inited => vm.init slot inited
  | Op.shutdown slot ok => vm.shutdown slot ok
  | Op.nio_create nio => vm.nio_create nio
  | Op.nio_delete nio => vm.nio_delete nio

def Vm.empty (nr_slots : Nat) (slots_type : CardType) (slots_drivers : List δ)
    (nios : List String) : Vm δ where
  nr_slots := nr_slots
  slots_type := slots_type
  slots_drivers := slots_drivers
  cards := fun _ => none
  created := 0
  nios := fun n => if n ∈ nios then some 0 else none
  calls := []

end Dynamips.CiscoCard
