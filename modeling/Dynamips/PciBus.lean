import Dynamips.Lib.Runs
import Mathlib.Data.Fintype.Option
import Mathlib.Logic.Function.Basic

/-! The numbers of PCI buses (pci_dev.c): the bridges that a guest programs, those
that number themselves, and the lookup of a bus behind them. -/
set_option autoImplicit false

namespace Dynamips.PciBus

open Runs

/-- The buses `B` and the bridges `R` between them, which do not change: the bridge
list of each bus and the secondary bus of each bridge, where it has one. -/
structure PciTree (B R : Type) where
  root : B
  bridgeList : B → List R
  pciBus : R → Option B
  depth : B → Nat
  levels : Nat
  depth_le : ∀ b, depth b ≤ levels
  depth_down : ∀ b r b', r ∈ bridgeList b → pciBus r = some b' → depth b' = depth b + 1
  on_some : ∀ r, ∃ b, r ∈ bridgeList b
  on_one : ∀ r b b', r ∈ bridgeList b → r ∈ bridgeList b' → b = b'
  behind_some : ∀ b, b ≠ root → ∃ r, pciBus r = some b
  behind_one : ∀ r r' b, pciBus r = some b → pciBus r' = some b → r = r'
  root_top : ∀ r, pciBus r ≠ some root

/-- `struct pci_bridge` -/
structure PciBridge where
  priBus : Int
  secBus : Int
  subBus : Int
  skipBusCheck : Bool
  cfgRegBus : BitVec 32

structure PciState (B R : Type) where
  bus : B → Int
  bridge : R → PciBridge

variable {B R : Type} [DecidableEq B] [DecidableEq R]

def PciState.setBridge (s : PciState B R) (r : R) (bridge : PciBridge) : PciState B R :=
  { s with bridge := Function.update s.bridge r bridge }

def bridgeSetBusInfo (t : PciTree B R) (s : PciState B R) (r : R) (priBus secBus subBus : Int) :
    PciState B R :=
  let s := s.setBridge r { s.bridge r with priBus := priBus, secBus := secBus, subBus := subBus }
  match t.pciBus r with
  | none => s
  | some b => { s with bus := Function.update s.bus b secBus }

def stopsAt (s : PciState B R) (bus : Int) (r : R) : Bool :=
  (s.bridge r).skipBusCheck || decide ((s.bridge r).secBus ≤ bus ∧ bus ≤ (s.bridge r).subBus)

/-- The turns of the loop of `pci_bus_lookup` from a bus on, with the bus that it
returns and the state that it leaves. -/
def lookupFrom (t : PciTree B R) (s : PciState B R) (bus : Int) :
    Nat → B → Option (Option B × PciState B R)
  | 0, _ => none
  | fuel + 1, curBus =>
    if s.bus curBus = bus then some (some curBus, s)
    else
      match (t.bridgeList curBus).find? (stopsAt s bus) with
      | none => some (none, s)
      | some r =>
        if (s.bridge r).skipBusCheck then
          let s := bridgeSetBusInfo t s r (s.bus curBus) bus bus
          some (t.pciBus r, s.setBridge r { s.bridge r with skipBusCheck := false })
        else
          match t.pciBus r with
          | none => some (none, s)
          | some nextBus => lookupFrom t s bus fuel nextBus

def busLookup (t : PciTree B R) (s : PciState B R) (bus : Int) :
    Option (Option B × PciState B R) :=
  lookupFrom t s bus (t.levels + 1) t.root

/-- `pci_bridge_write_reg`. The handlers of the other registers do not touch the
numbers. -/
def bridgeWriteReg (t : PciTree B R) (s : PciState B R) (r : R) (reg : Nat) (value : BitVec 32) :
    PciState B R :=
  if reg = 0x18 then
    let s := s.setBridge r { s.bridge r with cfgRegBus := value }
    let subBus := (value >>> 16) &&& 0xFF
    let secBus := (value >>> 8) &&& 0xFF
    let priBus := value &&& 0xFF
    bridgeSetBusInfo t s r priBus.toNat secBus.toNat subBus.toNat
  else s

/-- What a guest does to the numbers: the write of a register of a bridge, and the
lookup for an access to the configuration space. -/
inductive PciEvent (R : Type) where
  | write (r : R) (reg : Nat) (value : BitVec 32)
  | lookup (bus : BitVec 8)

def PciState.step (t : PciTree B R) (s : PciState B R) (e : PciEvent R) : PciState B R :=
  match e with
  | .write r reg value => bridgeWriteReg t s r reg value
  | .lookup bus =>
    match busLookup t s bus.toNat with
    | none => s
    | some (_, s) => s

/-- The state that `pci_bus_create` and `pci_bridge_create_dev` leave. -/
structure Started (t : PciTree B R) (s : PciState B R) : Prop where
  bus : ∀ b, b ≠ t.root → s.bus b = -1
  secBus : ∀ r, (s.bridge r).secBus = -1
  subBus : ∀ r, (s.bridge r).subBus = -1

def Programmed (s : PciState B R) (r : R) : Prop := 0 ≤ (s.bridge r).secBus

def Covers (s : PciState B R) (r : R) (bus : Int) : Prop :=
  (s.bridge r).secBus ≤ bus ∧ bus ≤ (s.bridge r).subBus

structure Nested (t : PciTree B R) (s : PciState B R) : Prop where
  ordered : ∀ r, Programmed s r → (s.bridge r).secBus ≤ (s.bridge r).subBus
  disjoint : ∀ b r q, r ∈ t.bridgeList b → q ∈ t.bridgeList b → r ≠ q → Programmed s r →
    Programmed s q → (s.bridge r).subBus < (s.bridge q).secBus ∨
      (s.bridge q).subBus < (s.bridge r).secBus
  inside : ∀ p b r, t.pciBus p = some b → r ∈ t.bridgeList b → Programmed s r →
    Programmed s p ∧ (s.bridge p).secBus < (s.bridge r).secBus ∧
      (s.bridge r).subBus ≤ (s.bridge p).subBus
  root : ∀ r, r ∈ t.bridgeList t.root → Programmed s r → ¬ Covers s r (s.bus t.root)

/-- The buses that a lookup looks at: on each of them the first bridge that it stops
at covers the number. -/
inductive Reaches (t : PciTree B R) (s : PciState B R) (bus : Int) : B → Prop where
  | root : Reaches t s bus t.root
  | down {b b' : B} {r : R} : Reaches t s bus b → s.bus b ≠ bus →
      (t.bridgeList b).find? (stopsAt s bus) = some r → (s.bridge r).skipBusCheck = false →
      t.pciBus r = some b' → Reaches t s bus b'

def Meets (t : PciTree B R) (s : PciState B R) (bus : Int) (b : B) (r : R) : Prop :=
  Reaches t s bus b ∧ s.bus b ≠ bus ∧ (t.bridgeList b).find? (stopsAt s bus) = some r ∧
    (s.bridge r).skipBusCheck = true

/-- A bridge took a number: itself and its bus have it, all else is as before. -/
structure Numbered (t : PciTree B R) (s s' : PciState B R) (b : B) (r : R) (bus : Int) : Prop where
  bridge : s'.bridge r = ⟨s.bus b, bus, bus, false, (s.bridge r).cfgRegBus⟩
  others : ∀ q, q ≠ r → s'.bridge q = s.bridge q
  secondary : ∀ b', t.pciBus r = some b' → s'.bus b' = bus
  buses : ∀ b', t.pciBus r ≠ some b' → s'.bus b' = s.bus b'

structure LookupFound (t : PciTree B R) (s : PciState B R) (bus : Int) (res : Option B) : Prop where
  root : s.bus t.root = bus → res = some t.root
  owner : ∀ r, (s.bridge r).secBus = bus → res = t.pciBus r
  none : s.bus t.root ≠ bus → (∀ r, ¬ Covers s r bus) → res = none

/-- What a lookup of a number does: a bridge that it meets takes the number, and where
it meets none nothing changes. -/
structure LookupRight (t : PciTree B R) (s : PciState B R) (bus : Int) : Prop where
  met : ∀ b r, Meets t s bus b r → ∃ s',
    busLookup t s bus = some (t.pciBus r, s') ∧ Numbered t s s' b r bus
  found : (∀ b r, ¬ Meets t s bus b r) → ∃ res,
    busLookup t s bus = some (res, s) ∧ LookupFound t s bus res

/-- Each bus has the number of its bridge, and a bridge that is not programmed
covers no number. -/
structure Agree (t : PciTree B R) (s : PciState B R) : Prop where
  number : ∀ r b, t.pciBus r = some b → s.bus b = (s.bridge r).secBus
  off : ∀ r, Programmed s r ∨ (s.bridge r).subBus < 0

variable {t : PciTree B R} {s : PciState B R} {bus : Int} {b : B} {r : R}

theorem setBusInfo_bridge (t : PciTree B R) (s : PciState B R) (r : R) (pri sec sub : Int) :
    (bridgeSetBusInfo t s r pri sec sub).bridge =
      Function.update s.bridge r
        { s.bridge r with priBus := pri, secBus := sec, subBus := sub } := by
  unfold bridgeSetBusInfo
  cases t.pciBus r <;> rfl

theorem setBusInfo_bus (t : PciTree B R) (s : PciState B R) (r : R) (pri sec sub : Int) (b : B) :
    (bridgeSetBusInfo t s r pri sec sub).bus b = if t.pciBus r = some b then sec else s.bus b := by
  unfold bridgeSetBusInfo
  cases h : t.pciBus r with
  | none => simp [PciState.setBridge]
  | some b' => simp [Function.update_apply, PciState.setBridge, eq_comm]

theorem Agree.update {s' : PciState B R} (h : Agree t s) (hsec : 0 ≤ (s'.bridge r).secBus)
    (hother : ∀ q, q ≠ r → s'.bridge q = s.bridge q)
    (hbus : ∀ b, s'.bus b = if t.pciBus r = some b then (s'.bridge r).secBus else s.bus b) :
    Agree t s' := by
  constructor
  case number =>
    intro q b hq
    rw [hbus]
    by_cases hqr : q = r
    · rw [← hqr, if_pos hq]
    · rw [if_neg fun hr => hqr (t.behind_one q r b hq hr), hother q hqr]
      exact h.number q b hq
  case off =>
    intro q
    by_cases hqr : q = r
    · rw [hqr]
      exact Or.inl hsec
    · rw [Programmed, hother q hqr]
      exact h.off q

theorem agree_write (h : Agree t s) (r : R) (reg : Nat) (value : BitVec 32) :
    Agree t (bridgeWriteReg t s r reg value) := by
  unfold bridgeWriteReg
  split
  · refine h.update (r := r) ?_ (fun q hq => ?_) fun b => ?_
    · simp [setBusInfo_bridge]
    · simp [setBusInfo_bridge, PciState.setBridge, Function.update_of_ne hq]
    · simp [setBusInfo_bridge, setBusInfo_bus, PciState.setBridge]
  · exact h

omit [DecidableEq B] [DecidableEq R] in
theorem agree_started (h : Started t s) : Agree t s where
  number r b hr := by
    have hb : b ≠ t.root := fun heq => t.root_top r (heq ▸ hr)
    rw [h.bus b hb, h.secBus r]
  off r := by
    rw [h.subBus r]
    exact Or.inr (by decide)

omit [DecidableEq B] [DecidableEq R] in
theorem mem_of_find (h : (t.bridgeList b).find? (stopsAt s bus) = some r) : r ∈ t.bridgeList b :=
  List.mem_of_find?_eq_some h

omit [DecidableEq B] [DecidableEq R] in
theorem covers_of_find (h : (t.bridgeList b).find? (stopsAt s bus) = some r)
    (hskip : (s.bridge r).skipBusCheck = false) : Covers s r bus := by
  have hstop := List.find?_some h
  simpa [stopsAt, hskip, Covers] using hstop

theorem lookup_reaches (h : Reaches t s bus b) :
    ∃ fuel, t.levels < fuel + t.depth b ∧ busLookup t s bus = lookupFrom t s bus fuel b := by
  induction h with
  | root => exact ⟨t.levels + 1, by omega, rfl⟩
  | @down b b' r _ hne hfind hskip hr ih =>
    obtain ⟨fuel, hfuel, hlookup⟩ := ih
    have hle := t.depth_le b
    have hdepth := t.depth_down b r b' (mem_of_find hfind) hr
    obtain ⟨fuel, rfl⟩ : ∃ k, fuel = k + 1 := ⟨fuel - 1, by omega⟩
    refine ⟨fuel, by omega, ?_⟩
    rw [hlookup, lookupFrom, if_neg hne]
    simp [hfind, hskip, hr]

theorem lookup_at (h : Reaches t s bus b) : ∃ fuel, t.levels ≤ fuel + t.depth b ∧
    busLookup t s bus = lookupFrom t s bus (fuel + 1) b := by
  obtain ⟨fuel, hfuel, hlookup⟩ := lookup_reaches h
  have hle := t.depth_le b
  obtain ⟨fuel, rfl⟩ : ∃ k, fuel = k + 1 := ⟨fuel - 1, by omega⟩
  exact ⟨fuel, by omega, hlookup⟩

theorem lookup_number (h : Reaches t s bus b) (hb : s.bus b = bus) :
    busLookup t s bus = some (some b, s) := by
  obtain ⟨fuel, -, hlookup⟩ := lookup_at h
  rw [hlookup, lookupFrom, if_pos hb]

theorem lookup_none (h : Reaches t s bus b) (hb : s.bus b ≠ bus)
    (hfind : (t.bridgeList b).find? (stopsAt s bus) = none) :
    busLookup t s bus = some (none, s) := by
  obtain ⟨fuel, -, hlookup⟩ := lookup_at h
  rw [hlookup, lookupFrom, if_neg hb]
  simp [hfind]

theorem lookup_open (h : Reaches t s bus b) (hb : s.bus b ≠ bus)
    (hfind : (t.bridgeList b).find? (stopsAt s bus) = some r)
    (hskip : (s.bridge r).skipBusCheck = false) (hr : t.pciBus r = none) :
    busLookup t s bus = some (none, s) := by
  obtain ⟨fuel, -, hlookup⟩ := lookup_at h
  rw [hlookup, lookupFrom, if_neg hb]
  simp [hfind, hskip, hr]

theorem lookup_meets (h : Meets t s bus b r) :
    ∃ s', busLookup t s bus = some (t.pciBus r, s') ∧ Numbered t s s' b r bus := by
  obtain ⟨hreach, hne, hfind, hskip⟩ := h
  obtain ⟨fuel, -, hlookup⟩ := lookup_at hreach
  refine ⟨(bridgeSetBusInfo t s r (s.bus b) bus bus).setBridge r
    { (bridgeSetBusInfo t s r (s.bus b) bus bus).bridge r with skipBusCheck := false }, ?_, ?_⟩
  · rw [hlookup, lookupFrom, if_neg hne]
    simp [hfind, hskip]
  · constructor
    case bridge => simp [PciState.setBridge, setBusInfo_bridge]
    case others =>
      intro q hq
      simp [PciState.setBridge, setBusInfo_bridge, Function.update_of_ne hq]
    case secondary =>
      intro b' hb'
      simp [PciState.setBridge, setBusInfo_bus, hb']
    case buses =>
      intro b' hb'
      simp [PciState.setBridge, setBusInfo_bus, hb']

/-- A bus where a lookup ends without a bridge that numbers itself. -/
def Stops (t : PciTree B R) (s : PciState B R) (bus : Int) (b : B) : Prop :=
  s.bus b = bus ∨ (t.bridgeList b).find? (stopsAt s bus) = none ∨
    ∃ r, (t.bridgeList b).find? (stopsAt s bus) = some r ∧ (s.bridge r).skipBusCheck = false ∧
      t.pciBus r = none

omit [DecidableEq B] [DecidableEq R] in
theorem reaches_cases (h : Reaches t s bus b) : (∃ r, Meets t s bus b r) ∨ Stops t s bus b ∨
    ∃ b', Reaches t s bus b' ∧ t.depth b' = t.depth b + 1 := by
  by_cases hb : s.bus b = bus
  · exact Or.inr (Or.inl (Or.inl hb))
  cases hfind : (t.bridgeList b).find? (stopsAt s bus) with
  | none => exact Or.inr (Or.inl (Or.inr (Or.inl hfind)))
  | some r =>
    cases hskip : (s.bridge r).skipBusCheck with
    | true => exact Or.inl ⟨r, h, hb, hfind, hskip⟩
    | false =>
      cases hr : t.pciBus r with
      | none => exact Or.inr (Or.inl (Or.inr (Or.inr ⟨r, hfind, hskip, hr⟩)))
      | some b' =>
        have hdown := Reaches.down h hb hfind hskip hr
        exact Or.inr (Or.inr ⟨b', hdown, t.depth_down b r b' (mem_of_find hfind) hr⟩)

omit [DecidableEq B] [DecidableEq R] in
theorem ends_from (k : Nat) (h : Reaches t s bus b) (hk : t.levels < t.depth b + k) :
    (∃ b r, Meets t s bus b r) ∨ ∃ b, Reaches t s bus b ∧ Stops t s bus b := by
  induction k generalizing b with
  | zero =>
    have hle := t.depth_le b
    omega
  | succ k ih =>
    obtain ⟨r, hmeets⟩ | hstops | ⟨b', hdown, hdepth⟩ := reaches_cases h
    · exact Or.inl ⟨b, r, hmeets⟩
    · exact Or.inr ⟨b, h, hstops⟩
    · exact ih hdown (by omega)

theorem lookup_cases (t : PciTree B R) (s : PciState B R) (bus : Int) :
    (∃ b r, Meets t s bus b r) ∨ ∃ res, busLookup t s bus = some (res, s) := by
  have hroot : Reaches t s bus t.root := Reaches.root
  have hends := ends_from (t.levels + 1) hroot (by omega)
  obtain hmeets | ⟨b, hreach, hstops⟩ := hends
  · exact Or.inl hmeets
  · right
    by_cases hb : s.bus b = bus
    · exact ⟨some b, lookup_number hreach hb⟩
    obtain hnone | ⟨r, hfind, hskip, hr⟩ := hstops.resolve_left hb
    · exact ⟨none, lookup_none hreach hb hnone⟩
    · exact ⟨none, lookup_open hreach hb hfind hskip hr⟩

theorem agree_lookup (h : Agree t s) (bus : BitVec 8) : Agree t (s.step t (.lookup bus)) := by
  have hnat : (0 : Int) ≤ bus.toNat := Int.natCast_nonneg _
  unfold PciState.step
  obtain ⟨b, r, hmeets⟩ | ⟨res, hlookup⟩ := lookup_cases t s bus.toNat
  · obtain ⟨s', hlookup, hnum⟩ := lookup_meets hmeets
    simp only [hlookup]
    refine h.update (r := r) ?_ hnum.others fun b' => ?_
    · rw [hnum.bridge]
      exact hnat
    · rw [hnum.bridge]
      split
      next hb' => exact hnum.secondary b' hb'
      next hb' => exact hnum.buses b' hb'
  · simp only [hlookup]
    exact h

theorem agree_step (h : Agree t s) (e : PciEvent R) : Agree t (s.step t e) := by
  cases e with
  | write r reg value => exact agree_write h r reg value
  | lookup bus => exact agree_lookup h bus

theorem agree_run (h : Agree t s) (events : List (PciEvent R)) :
    Agree t (events.foldl (PciState.step t) s) := by
  have hrun := run_history (PciState.step t) s events
  have hstep : ∀ s e s', Agree t s → s' = PciState.step t s e → Agree t s' := by
    intro s e s' ha hs
    rw [hs]
    exact agree_step ha e
  exact (hrun.always hstep h).1

omit [DecidableEq B] [DecidableEq R] in
theorem programmed_of_covers (h : Agree t s) (hbus : 0 ≤ bus) (hr : Covers s r bus) :
    Programmed s r := by
  refine (h.off r).resolve_right fun hsub => ?_
  have hle := hr.2
  omega

omit [DecidableEq B] [DecidableEq R] in
theorem find_of_covers (h : Agree t s) (hn : Nested t s) (hbus : 0 ≤ bus)
    (hfree : ∀ b r, ¬ Meets t s bus b r) (hreach : Reaches t s bus b) (hb : s.bus b ≠ bus)
    (hr : r ∈ t.bridgeList b) (hcovers : Covers s r bus) :
    (t.bridgeList b).find? (stopsAt s bus) = some r ∧ (s.bridge r).skipBusCheck = false := by
  cases hfind : (t.bridgeList b).find? (stopsAt s bus) with
  | none =>
    have hstop := List.find?_eq_none.mp hfind r hr
    exact absurd (by simp [stopsAt, hcovers.1, hcovers.2]) hstop
  | some q =>
    cases hskip : (s.bridge q).skipBusCheck with
    | true => exact absurd ⟨hreach, hb, hfind, hskip⟩ (hfree b q)
    | false =>
      have hq := covers_of_find hfind hskip
      by_cases heq : q = r
      · exact ⟨by rw [heq], heq ▸ hskip⟩
      · have hdisjoint := hn.disjoint b q r (mem_of_find hfind) hr heq
          (programmed_of_covers h hbus hq) (programmed_of_covers h hbus hcovers)
        have hq₁ := hq.1
        have hq₂ := hq.2
        have hr₁ := hcovers.1
        have hr₂ := hcovers.2
        omega

omit [DecidableEq B] [DecidableEq R] in
theorem reaches_of_covers (h : Agree t s) (hn : Nested t s) (hbus : 0 ≤ bus)
    (hfree : ∀ b r, ¬ Meets t s bus b r) (d : Nat) (hd : t.depth b < d)
    (hr : r ∈ t.bridgeList b) (hcovers : Covers s r bus) :
    Reaches t s bus b ∧ s.bus b ≠ bus := by
  induction d generalizing b r with
  | zero => omega
  | succ d ih =>
    have hprog := programmed_of_covers h hbus hcovers
    by_cases hroot : b = t.root
    · subst hroot
      refine ⟨Reaches.root, fun heq => hn.root r hr hprog ?_⟩
      rw [heq]
      exact hcovers
    · obtain ⟨p, hp⟩ := t.behind_some b hroot
      obtain ⟨b₀, hb₀⟩ := t.on_some p
      obtain ⟨-, hsec, hsub⟩ := hn.inside p b r hp hr hprog
      have hlow := hcovers.1
      have hhigh := hcovers.2
      have hcoversp : Covers s p bus := ⟨by omega, by omega⟩
      have hdepth := t.depth_down b₀ p b hb₀ hp
      obtain ⟨hreach, hne⟩ := ih (by omega) hb₀ hcoversp
      obtain ⟨hfind, hskip⟩ := find_of_covers h hn hbus hfree hreach hne hb₀ hcoversp
      refine ⟨Reaches.down hreach hne hfind hskip hp, ?_⟩
      rw [h.number p b hp]
      omega

theorem lookup_owner (h : Agree t s) (hn : Nested t s) (hbus : 0 ≤ bus)
    (hfree : ∀ b r, ¬ Meets t s bus b r) (hsec : (s.bridge r).secBus = bus) :
    busLookup t s bus = some (t.pciBus r, s) := by
  have hprog : Programmed s r := by
    rw [Programmed, hsec]
    exact hbus
  have hcovers : Covers s r bus := ⟨hsec.le, hsec ▸ hn.ordered r hprog⟩
  obtain ⟨b, hb⟩ := t.on_some r
  obtain ⟨hreach, hne⟩ :=
    reaches_of_covers h hn hbus hfree (t.depth b + 1) (Nat.lt_succ_self _) hb hcovers
  obtain ⟨hfind, hskip⟩ := find_of_covers h hn hbus hfree hreach hne hb hcovers
  cases hr : t.pciBus r with
  | none => exact lookup_open hreach hne hfind hskip hr
  | some b' =>
    have hdown := Reaches.down hreach hne hfind hskip hr
    exact lookup_number hdown ((h.number r b' hr).trans hsec)

theorem lookup_uncovered (hfree : ∀ b r, ¬ Meets t s bus b r) (hroot : s.bus t.root ≠ bus)
    (hnone : ∀ r, ¬ Covers s r bus) : busLookup t s bus = some (none, s) := by
  refine lookup_none Reaches.root hroot ?_
  cases hfind : (t.bridgeList t.root).find? (stopsAt s bus) with
  | none => rfl
  | some r =>
    cases hskip : (s.bridge r).skipBusCheck with
    | true => exact absurd ⟨Reaches.root, hroot, hfind, hskip⟩ (hfree t.root r)
    | false => exact absurd (covers_of_find hfind hskip) (hnone r)

theorem found_lookup (h : Agree t s) (hn : Nested t s) (hbus : 0 ≤ bus)
    (hfree : ∀ b r, ¬ Meets t s bus b r) :
    ∃ res, busLookup t s bus = some (res, s) ∧ LookupFound t s bus res := by
  have hcases := lookup_cases t s bus
  obtain ⟨b, r, hmeets⟩ | ⟨res, hlookup⟩ := hcases
  · exact absurd hmeets (hfree b r)
  · have hres : ∀ res', busLookup t s bus = some (res', s) → res = res' := by
      intro res' hlookup'
      rw [hlookup] at hlookup'
      cases hlookup'
      rfl
    refine ⟨res, hlookup, ?_⟩
    constructor
    case root => exact fun hb => hres _ (lookup_number Reaches.root hb)
    case owner => exact fun r hr => hres _ (lookup_owner h hn hbus hfree hr)
    case none => exact fun hb hr => hres _ (lookup_uncovered hfree hb hr)

/-- Lookups after any accesses of the guest that leave the ranges nested and disjoint. -/
theorem lookup_right (t : PciTree B R) (s : PciState B R) (hstarted : Started t s)
    (events : List (PciEvent R)) (hnested : Nested t (events.foldl (PciState.step t) s))
    (bus : BitVec 8) : LookupRight t (events.foldl (PciState.step t) s) bus.toNat where
  met _ _ hmeets := lookup_meets hmeets
  found hfree :=
    found_lookup (agree_run (agree_started hstarted) events) hnested (Int.natCast_nonneg _) hfree

def twoBridges (first : Bool) : PciTree (Option Bool) Bool where
  root := none
  bridgeList
    | none => [first, !first]
    | some _ => []
  pciBus r := some (some r)
  depth
    | none => 0
    | some _ => 1
  levels := 1
  depth_le b := by cases b <;> simp
  depth_down b r b' hr hb := by
    cases b with
    | none =>
      cases hb
      rfl
    | some _ => cases hr
  on_some r := ⟨none, by cases first <;> cases r <;> decide⟩
  on_one r b b' hb hb' := by
    cases b with
    | some _ => cases hb
    | none =>
      cases b' with
      | some _ => cases hb'
      | none => rfl
  behind_some b hb := by
    cases b with
    | none => exact absurd rfl hb
    | some r => exact ⟨r, rfl⟩
  behind_one r r' b hb hb' := by
    cases hb
    cases hb'
    rfl
  root_top r := by simp

/-- The bridge `false` numbers itself. -/
def twoStarted : PciState (Option Bool) Bool where
  bus b := if b = none then 0 else -1
  bridge r := ⟨0, -1, -1, !r, 0⟩

def programOther : List (PciEvent Bool) := [.write true 0x18 0x00010100]

theorem started_two (first : Bool) : Started (twoBridges first) twoStarted where
  bus _ hb := if_neg hb
  secBus _ := rfl
  subBus _ := rfl

theorem nested_two (first : Bool) : Nested (twoBridges first)
    (programOther.foldl (PciState.step (twoBridges first)) twoStarted) := by
  have hself : ¬ Programmed
      (programOther.foldl (PciState.step (twoBridges first)) twoStarted) false := by
    unfold Programmed
    cases first <;> decide
  constructor
  case ordered =>
    intro r hr
    cases r with
    | false => exact absurd hr hself
    | true => cases first <;> decide
  case disjoint =>
    intro b r q _ _ hne hr hq
    cases r with
    | false => exact absurd hr hself
    | true =>
      cases q with
      | false => exact absurd hq hself
      | true => exact absurd rfl hne
  case inside =>
    intro p b r hp hr
    cases hp
    cases hr
  case root =>
    intro r _ hr
    cases r with
    | false => exact absurd hr hself
    | true =>
      unfold Covers
      cases first <;> decide

theorem lookup_right_two : LookupRight (twoBridges true)
    (programOther.foldl (PciState.step (twoBridges true)) twoStarted) (1 : BitVec 8).toNat :=
  lookup_right _ _ (started_two true) _ (nested_two true) _

theorem not_lookup_owner :
    ¬ ∀ (t : PciTree (Option Bool) Bool) (s : PciState (Option Bool) Bool)
      (events : List (PciEvent Bool)), Started t s →
      Nested t (events.foldl (PciState.step t) s) → ∀ (bus : BitVec 8) (r : Bool),
      ((events.foldl (PciState.step t) s).bridge r).secBus = bus.toNat →
      (busLookup t (events.foldl (PciState.step t) s) bus.toNat).map Prod.fst =
        some (t.pciBus r) := by
  intro h
  exact absurd (h (twoBridges false) twoStarted programOther (started_two false) (nested_two false)
    1 true (by decide)) (by decide)

end Dynamips.PciBus
