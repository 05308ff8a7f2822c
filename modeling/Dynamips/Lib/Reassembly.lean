import Mathlib.Data.List.Basic

/-! Packets put together from cells, in buffers with room for some cells each. -/
set_option autoImplicit false

namespace Dynamips.Reassembly

variable {α : Type}

/-- A buffer at an address, with the cells in it. -/
structure Buf (α : Type) where
  addr : Nat
  room : Nat
  cells : List α

/-- A channel between two cells: a packet in full buffers and a last one, or a packet
that is dropped up to its end. -/
inductive Chan (α : Type) where
  | idle
  | filling (full : List (Buf α)) (cur : Buf α)
  | skipping (count : Nat)

def Chan.bufs : Chan α → List (Buf α)
  | .filling full cur => full ++ [cur]
  | _ => []

def cells (bufs : List (Buf α)) : List α := bufs.flatMap Buf.cells

/-- How many cells of its packet a channel has seen. -/
def Chan.seen : Chan α → Nat
  | .idle => 0
  | .filling full cur => (cells (full ++ [cur])).length
  | .skipping count => count

/-- The buffer for the next cell, which may be a free one. -/
def Chan.place (supply : Option (Nat × Nat)) : Chan α → Option (List (Buf α) × Buf α)
  | .idle => supply.map fun s => ([], ⟨s.1, s.2, []⟩)
  | .filling full cur =>
    if cur.cells.length < cur.room then some (full, cur)
    else supply.map fun s => (full ++ [cur], ⟨s.1, s.2, []⟩)
  | .skipping _ => none

def Buf.put (b : Buf α) (cell : α) : Buf α := { b with cells := b.cells ++ [cell] }

/-- A cell comes in. A packet is given at its last cell. -/
def Chan.absorb (isLast : Nat → Bool) (supply : Option (Nat × Nat)) (cell : α) (ch : Chan α) :
    Chan α × Option (List (Buf α) × Buf α) :=
  match ch.place supply with
  | none => (if isLast (ch.seen + 1) then .idle else .skipping (ch.seen + 1), none)
  | some (full, cur) =>
    if isLast (ch.seen + 1) then (.idle, some (full, cur.put cell))
    else (.filling full (cur.put cell), none)

variable {isLast : Nat → Bool} {supply : Option (Nat × Nat)} {cell : α} {ch : Chan α}
  {full : List (Buf α)} {cur : Buf α}

theorem absorb_of_none (h : ch.place supply = none) : ch.absorb isLast supply cell =
    (if isLast (ch.seen + 1) then .idle else .skipping (ch.seen + 1), none) := by
  rw [Chan.absorb, h]

theorem absorb_of_last (h : ch.place supply = some (full, cur)) (hlast : isLast (ch.seen + 1)) :
    ch.absorb isLast supply cell = (.idle, some (full, cur.put cell)) := by
  rw [Chan.absorb, h]
  exact if_pos hlast

theorem absorb_of_more (h : ch.place supply = some (full, cur))
    (hlast : isLast (ch.seen + 1) = false) :
    ch.absorb isLast supply cell = (.filling full (cur.put cell), none) := by
  rw [Chan.absorb, h]
  exact if_neg (by simp [hlast])

theorem cells_put : cells (full ++ [cur.put cell]) = cells (full ++ [cur]) ++ [cell] := by
  simp [cells, Buf.put]

/-- The place of a cell holds the cells of the packet so far. -/
theorem cells_place (h : ch.place supply = some (full, cur)) :
    cells (full ++ [cur]) = cells ch.bufs := by
  cases ch with
  | idle =>
    obtain ⟨s, _, hs⟩ := Option.map_eq_some_iff.mp h
    cases hs
    rfl
  | filling full' cur' =>
    simp only [Chan.place] at h
    split at h
    · cases h
      rfl
    · obtain ⟨s, _, hs⟩ := Option.map_eq_some_iff.mp h
      cases hs
      simp [cells, Chan.bufs]
  | skipping n => cases h

theorem absorb_posted {packet : List (Buf α) × Buf α}
    (h : (ch.absorb isLast supply cell).2 = some packet) :
    (ch.absorb isLast supply cell).1 = .idle ∧
      ∃ cur, ch.place supply = some (packet.1, cur) ∧ packet.2 = cur.put cell := by
  cases hplace : ch.place supply with
  | none =>
    rw [absorb_of_none hplace] at h
    cases h
  | some place =>
    cases hlast : isLast (ch.seen + 1) with
    | true =>
      rw [absorb_of_last hplace hlast] at h ⊢
      cases h
      exact ⟨rfl, place.2, rfl, rfl⟩
    | false =>
      rw [absorb_of_more hplace hlast] at h
      cases h

/-- A packet is given with its cells in order, the last one at the end. -/
theorem cells_absorb {packet : List (Buf α) × Buf α}
    (h : (ch.absorb isLast supply cell).2 = some packet) :
    cells (packet.1 ++ [packet.2]) = cells ch.bufs ++ [cell] := by
  obtain ⟨_, cur, hplace, hput⟩ := absorb_posted h
  rw [hput, cells_put, cells_place hplace]

end Dynamips.Reassembly
