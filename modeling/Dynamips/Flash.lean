import Dynamips.Lib.Runs

/-! The ROM flash (dev_flash.c): the decoder of its write cycles, and the bytes
of the array that a program and an erase change. -/
set_option autoImplicit false

namespace Dynamips.Flash

open Runs

abbrev Byte := BitVec 8

abbrev Word := BitVec 32

/-- `struct flash_data`, with the length of its device and the host memory from
`host_addr`, the bytes behind the array included. -/
structure FlashData where
  state : Nat
  sectorSize : Nat
  physLen : Nat
  mem : Nat → Byte

def memset (mem : Nat → Byte) (pos : Nat) (value : Byte) (len : Nat) : Nat → Byte :=
  fun i => if pos ≤ i ∧ i < pos + len then value else mem i

/-- The write part of `dev_flash_access` -/
def flashWrite (d : FlashData) (offset : Word) (data : BitVec 64) : FlashData :=
  match d.state with
  | 0 =>
    if offset = 0xAAA then
      if data = 0xAA then { d with state := 1 } else d
    else if data = 0xB0 then { d with state := 0 }
    else if data = 0x30 then { d with state := 0 }
    else d
  | 1 =>
    if offset ≠ 0x555 ∧ data ≠ 0x55 then { d with state := 0 } else { d with state := 2 }
  | 2 =>
    let d := { d with state := 0 }
    if offset = 0xAAA then
      if data = 0x80 then { d with state := 3 }
      else if data = 0xA0 then { d with state := 4 }
      else if data = 0xF0 then d
      else if data = 0xC0 then { d with state := 5 }
      else if data = 0x90 then { d with state := 6 }
      else if data = 0xD0 then { d with state := 7 }
      else d
    else d
  | 3 =>
    if offset ≠ 0xAAA ∧ data ≠ 0xAA then { d with state := 0 } else { d with state := 8 }
  | 8 =>
    if offset ≠ 0x555 ∧ data ≠ 0x55 then { d with state := 0 } else { d with state := 9 }
  | 9 =>
    let d := { d with state := 0 }
    if data = 0x10 then { d with mem := memset d.mem offset.toNat 0 d.physLen }
    else if data = 0x30 then { d with mem := memset d.mem offset.toNat 0 d.sectorSize }
    else d
  | 4 =>
    { d with state := 0, mem := Function.update d.mem offset.toNat (data.setWidth 8) }
  | _ => d

/-- `dev_flash_access`, a write when there is data. A read in the initial state
answers with the place in the host memory. -/
def devFlashAccess (d : FlashData) (offset : Word) : Option (BitVec 64) → FlashData × Option Nat
  | none => if d.state = 0 then (d, some offset.toNat) else (d, none)
  | some data => (flashWrite d offset data, none)

/-- `dev_flash_init` over a file -/
def devFlashInit (len : Nat) (file : Nat → Byte) : FlashData where
  state := 0
  sectorSize := 0x4000
  physLen := len
  mem := file

/-- An access that the memory system gives to a device of `len` bytes. -/
structure Access (len : Nat) where
  offset : Word
  data : Option (BitVec 64)
  inside : offset.toNat < len

structure Cycle where
  offset : Word
  data : BitVec 64
deriving DecidableEq

structure Watched where
  flash : FlashData
  cycles : List Cycle

def Watched.step {len : Nat} (w : Watched) (a : Access len) : Watched where
  flash := (devFlashAccess w.flash a.offset a.data).1
  cycles :=
    match a.data with
    | none => w.cycles
    | some data => w.cycles ++ [⟨a.offset, data⟩]

def unlock : List Cycle := [⟨0xAAA, 0xAA⟩, ⟨0x555, 0x55⟩]

def programUnlock : List Cycle := unlock ++ [⟨0xAAA, 0xA0⟩]

def eraseUnlock : List Cycle := unlock ++ [⟨0xAAA, 0x80⟩] ++ unlock

structure StepRight {len : Nat} (w : Watched) (a : Access len) : Prop where
  unlocked : (w.step a).flash.mem ≠ w.flash.mem →
    (w.flash.state = 4 ∧ programUnlock <:+ w.cycles) ∨
      (w.flash.state = 9 ∧ eraseUnlock <:+ w.cycles)
  program : w.flash.state = 4 → ∀ data, a.data = some data →
    (w.step a).flash.mem = Function.update w.flash.mem a.offset.toNat (data.setWidth 8)
  chipErase : w.flash.state = 9 → a.data = some 0x10 →
    ∀ i, (w.step a).flash.mem i = if i < len then 0xFF else w.flash.mem i
  sectorErase : w.flash.state = 9 → a.data = some 0x30 →
    ∀ i, (w.step a).flash.mem i =
      if i < len ∧ i / w.flash.sectorSize = a.offset.toNat / w.flash.sectorSize then 0xFF
      else w.flash.mem i
  inside : ∀ i, len ≤ i → (w.step a).flash.mem i = w.flash.mem i

/-- No cycle matches in only one of its address and its data where the decoder
tests both, and no erase is confirmed. -/
structure CycleOk {len : Nat} (w : Watched) (a : Access len) : Prop where
  second : w.flash.state = 1 ∨ w.flash.state = 8 →
    ∀ data, a.data = some data → (a.offset = 0x555 ↔ data = 0x55)
  fourth : w.flash.state = 3 → ∀ data, a.data = some data → (a.offset = 0xAAA ↔ data = 0xAA)
  erase : w.flash.state = 9 → a.data ≠ some 0x10 ∧ a.data ≠ some 0x30

instance {len : Nat} (w : Watched) (a : Access len) : Decidable (CycleOk w a) :=
  decidable_of_iff
    ((w.flash.state = 1 ∨ w.flash.state = 8 →
        a.data.all fun data => decide (a.offset = 0x555 ↔ data = 0x55)) ∧
      (w.flash.state = 3 → a.data.all fun data => decide (a.offset = 0xAAA ↔ data = 0xAA)) ∧
      (w.flash.state = 9 → a.data ≠ some 0x10 ∧ a.data ≠ some 0x30))
    (by
      simp only [Option.all_eq_true, decide_eq_true_eq]
      exact ⟨fun h => ⟨h.1, h.2.1, h.2.2⟩, fun h => ⟨h.second, h.fourth, h.erase⟩⟩)

def unlockOf : Nat → List Cycle
  | 1 => [⟨0xAAA, 0xAA⟩]
  | 2 => unlock
  | 3 => unlock ++ [⟨0xAAA, 0x80⟩]
  | 8 => unlock ++ [⟨0xAAA, 0x80⟩] ++ [⟨0xAAA, 0xAA⟩]
  | 9 => eraseUnlock
  | 4 => programUnlock
  | _ => []

/-- The cycles of the decoder's state are the last ones that the flash got. -/
def Unlocked (w : Watched) : Prop := unlockOf w.flash.state <:+ w.cycles

variable {len : Nat} {w : Watched} {a : Access len} {data : BitVec 64}

theorem suffix_concat {l cs : List Cycle} (h : l <:+ cs) (c : Cycle) : l ++ [c] <:+ cs ++ [c] := by
  obtain ⟨t, rfl⟩ := h
  exact ⟨t, by simp⟩

theorem unlockOf_flashWrite (hok : CycleOk w a) (hdata : a.data = some data) :
    unlockOf (flashWrite w.flash a.offset data).state = [] ∨
      unlockOf (flashWrite w.flash a.offset data).state =
        unlockOf w.flash.state ++ [⟨a.offset, data⟩] := by
  have hsecond := fun hs => hok.second hs data hdata
  have hfourth := fun hs => hok.fourth hs data hdata
  by_cases h1 : w.flash.state = 1 ∨ w.flash.state = 8
  · have hboth := hsecond h1
    by_cases hd : data = 0x55
    · have ho := hboth.mpr hd
      cases h1 with
      | inl h1 => simp [flashWrite, h1, ho, hd, unlockOf, unlock]
      | inr h8 => simp [flashWrite, h8, ho, hd, unlockOf, unlock, eraseUnlock]
    · have ho : a.offset ≠ 0x555 := fun ho => hd (hboth.mp ho)
      cases h1 with
      | inl h1 => simp only [flashWrite, h1, if_pos (And.intro ho hd), unlockOf, true_or]
      | inr h8 => simp only [flashWrite, h8, if_pos (And.intro ho hd), unlockOf, true_or]
  by_cases h3 : w.flash.state = 3
  · have hboth := hfourth h3
    by_cases hd : data = 0xAA
    · simp [flashWrite, h3, hboth.mpr hd, hd, unlockOf]
    · have ho : a.offset ≠ 0xAAA := fun ho => hd (hboth.mp ho)
      simp only [flashWrite, h3, if_pos (And.intro ho hd), unlockOf, true_or]
  unfold flashWrite
  split
  next h0 =>
    grind [unlockOf]
  next => grind
  next h2 => grind [unlockOf, unlock, programUnlock]
  next => grind
  next => grind
  next => grind [unlockOf]
  next => simp [unlockOf]
  next => grind [unlockOf]

theorem unlocked_step (h : Unlocked w) (hok : CycleOk w a) : Unlocked (w.step a) := by
  unfold Unlocked Watched.step
  cases hdata : a.data with
  | none =>
    have hread : (devFlashAccess w.flash a.offset none).1 = w.flash := by
      simp only [devFlashAccess]
      split <;> rfl
    rw [hread]
    exact h
  | some data =>
    simp only [devFlashAccess]
    cases unlockOf_flashWrite hok hdata with
    | inl hnil =>
      rw [hnil]
      exact List.nil_suffix
    | inr hnext =>
      rw [hnext]
      exact suffix_concat h _

theorem mem_flashWrite (d : FlashData) (offset : Word) :
    (flashWrite d offset data).mem = d.mem ∨ d.state = 4 ∨
      d.state = 9 ∧ (data = 0x10 ∨ data = 0x30) := by
  unfold flashWrite
  split <;> grind

theorem mem_step (w : Watched) (a : Access len) :
    (w.step a).flash.mem = w.flash.mem ∨ w.flash.state = 4 ∨
      w.flash.state = 9 ∧ (a.data = some 0x10 ∨ a.data = some 0x30) := by
  unfold Watched.step devFlashAccess
  cases a.data with
  | none => simp only [ite_self, apply_ite Prod.fst, true_or]
  | some data => simpa using mem_flashWrite w.flash a.offset

theorem stepRight_of_unlocked (h : Unlocked w) (hok : CycleOk w a) : StepRight w a := by
  have hmem : (w.step a).flash.mem = w.flash.mem ∨ w.flash.state = 4 := by
    have hall := mem_step w a
    have herase := hok.erase
    grind
  have hprogram : w.flash.state = 4 → ∀ data, a.data = some data →
      (w.step a).flash.mem =
        Function.update w.flash.mem a.offset.toNat (data.setWidth 8) := by
    intro h4 data hdata
    simp only [Watched.step, hdata, devFlashAccess, flashWrite, h4]
  have hread : a.data = none → (w.step a).flash.mem = w.flash.mem := by
    intro hdata
    simp only [Watched.step, hdata, devFlashAccess, ite_self, apply_ite Prod.fst]
  constructor
  case unlocked =>
    intro hchange
    have h4 := hmem.resolve_left hchange
    unfold Unlocked at h
    rw [h4] at h
    exact Or.inl ⟨h4, h⟩
  case program => exact hprogram
  case chipErase =>
    intro h9 hdata
    exact absurd hdata (hok.erase h9).1
  case sectorErase =>
    intro h9 hdata
    exact absurd hdata (hok.erase h9).2
  case inside =>
    intro i hi
    cases hmem with
    | inl hsame => rw [hsame]
    | inr h4 =>
      cases hdata : a.data with
      | none => rw [hread hdata]
      | some data =>
        have hne : i ≠ a.offset.toNat := by
          have hinside := a.inside
          omega
        rw [hprogram h4 data hdata, Function.update_of_ne hne]

/-- The flash as `dev_flash_init` leaves it, before its first access. -/
def watchedInit (len : Nat) (file : Nat → Byte) : Watched := ⟨devFlashInit len file, []⟩

theorem flash_right (file : Nat → Byte) (accesses : List (Access len))
    (hok : AllSteps CycleOk (history Watched.step (watchedInit len file) accesses)) :
    AllSteps StepRight (history Watched.step (watchedInit len file) accesses) := by
  have hinit : Unlocked (watchedInit len file) := List.nil_suffix
  have hrun := run_history Watched.step (watchedInit len file) accesses
  have halways := hrun.invariant
    (fun w a w' h hcycle hstep => hstep ▸ unlocked_step h hcycle) hinit hok
  intro x hx
  exact stepRight_of_unlocked (halways.2 x hx) (hok x hx)

def programByte : List (Access 0x1000) :=
  [⟨0xAAA, some 0xAA, by decide⟩, ⟨0x555, some 0x55, by decide⟩, ⟨0xAAA, some 0xA0, by decide⟩,
    ⟨7, some 0x12, by decide⟩, ⟨7, none, by decide⟩]

theorem flash_right_programByte :
    AllSteps StepRight (history Watched.step (watchedInit 0x1000 fun _ => 0xFF) programByte) :=
  flash_right _ _ (by decide)

def programElsewhere : List (Access 0x1000) :=
  [⟨0xAAA, some 0xAA, by decide⟩, ⟨0, some 0x55, by decide⟩, ⟨0xAAA, some 0xA0, by decide⟩,
    ⟨0, some 0x12, by decide⟩]

theorem not_flash_right :
    ¬ ∀ (len : Nat) (file : Nat → Byte) (accesses : List (Access len)),
      AllSteps StepRight (history Watched.step (watchedInit len file) accesses) := by
  intro h
  have hright := h 0x1000 (fun _ => 0xFF) programElsewhere
    (programElsewhere.take 3 |>.foldl Watched.step (watchedInit 0x1000 fun _ => 0xFF),
      ⟨0, some 0x12, by decide⟩)
    (by simp [history, programElsewhere])
  have hchange := hright.unlocked (fun heq => absurd (congrFun heq 0) (by decide))
  revert hchange
  decide

end Dynamips.Flash
