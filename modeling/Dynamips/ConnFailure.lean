import Dynamips.AtmSwitch
import Dynamips.FrameRelay

/-! Connections that cannot be created: what the Frame Relay switches, the ATM
switches and the ATM bridges leave behind. -/
set_option autoImplicit false

namespace Dynamips.Conn
open BackLinks Rxl Nio Atmsw Frsw

/-- The part of `atm_bridge_t` that is configured. -/
structure AtmBridge where
  ethNio : Option NioPtr
  atmNio : Option NioPtr
  vpi : BitVec 32
  vci : BitVec 32

/-- `atm_bridge_configure`; the last two arguments tell whether the listeners could
be created. -/
def atmBridgeConfigure (t : AtmBridge) (n : Nios) (ethNio atmNio : String) (vpi vci : BitVec 32)
    (atmGranted ethGranted : Bool) : Int × AtmBridge × Nios :=
  if t.ethNio ≠ none ∨ t.atmNio ≠ none then
    (-1, t, n)
  else
    let (eNio, n) := netioAcquire n ethNio
    let (aNio, n) := netioAcquire n atmNio
    match eNio, aNio with
    | some e, some a =>
      let t : AtmBridge := { ethNio := some e, atmNio := some a, vpi := vpi, vci := vci }
      let (res, n) := netioRxlAdd n a atmGranted
      if res = -1 then
        (-1, t, n)
      else
        let (res, n) := netioRxlAdd n e ethGranted
        if res = -1 then (-1, t, n) else (0, t, n)
    | _, _ => (-1, t, n)

/-- The switches and bridges of an emulator, on the NIOs they share. -/
structure Net where
  fr : FrState
  atmsw : Nat → AtmswTable
  bridge : Nat → AtmBridge

def Net.nios (s : Net) : Nios := s.fr.nios

def Net.setAtmsw (s : Net) (t : Nat) (r : AtmswTable × Nios) : Net :=
  { s with fr := { s.fr with nios := r.2 }, atmsw := Function.update s.atmsw t r.1 }

def Net.setBridge (s : Net) (t : Nat) (r : AtmBridge × Nios) : Net :=
  { s with fr := { s.fr with nios := r.2 }, bridge := Function.update s.bridge t r.1 }

inductive Creation where
  | vc (t : TablePtr) (nioInput : String) (dlciIn : BitVec 32) (nioOutput : String)
      (dlciOut : BitVec 32) (mem : Option VcPtr) (granted : Bool)
  | vpc (t : Nat) (nioInput : String) (vpiIn : BitVec 32) (nioOutput : String) (vpiOut : BitVec 32)
      (alloc granted : Bool)
  | vcc (t : Nat) (nioInput : String) (vpiIn vciIn : BitVec 32) (nioOutput : String)
      (vpiOut vciOut : BitVec 32) (alloc granted : Bool)
  | bridge (t : Nat) (ethNio atmNio : String) (vpi vci : BitVec 32) (atmGranted ethGranted : Bool)

def create (fuel : Nat) (s : Net) : Creation → Option (Int × Net)
  | .vc t nioInput dlciIn nioOutput dlciOut mem granted =>
    (frswCreateVc fuel s.fr t nioInput dlciIn nioOutput dlciOut mem granted).map fun r =>
      (r.1, { s with fr := r.2 })
  | .vpc t nioInput vpiIn nioOutput vpiOut alloc granted =>
    let r := atmswCreateVpc (s.atmsw t) s.nios nioInput vpiIn nioOutput vpiOut alloc granted
    some (r.1, s.setAtmsw t r.2)
  | .vcc t nioInput vpiIn vciIn nioOutput vpiOut vciOut alloc granted =>
    let r := atmswCreateVcc (s.atmsw t) s.nios nioInput vpiIn vciIn nioOutput vpiOut vciOut alloc
      granted
    some (r.1, s.setAtmsw t r.2)
  | .bridge t ethNio atmNio vpi vci atmGranted ethGranted =>
    let r := atmBridgeConfigure (s.bridge t) s.nios ethNio atmNio vpi vci atmGranted ethGranted
    some (r.1, s.setBridge t r.2)

/-- Nothing was acquired for the input, or the input has no listener that the
cleanup would take away. -/
def InputUnused (n : Nios) (nioInput : String) : Prop :=
  ∀ i, (netioAcquire n nioInput).1 = some i → netioRxlFind n.rxlList i = none

def CleanFailure (s : Net) : Creation → Prop
  | .vc _ nioInput _ _ _ mem _ => mem = none ∨ InputUnused s.nios nioInput
  | .vpc _ nioInput _ _ _ alloc _ => alloc = false ∨ InputUnused s.nios nioInput
  | .vcc _ nioInput _ _ _ _ _ alloc _ => alloc = false ∨ InputUnused s.nios nioInput
  | .bridge t ethNio atmNio _ _ _ _ =>
    (s.bridge t).ethNio ≠ none ∨ (s.bridge t).atmNio ≠ none ∨
      (netioAcquire s.nios ethNio).1 = none ∧ (netioAcquire s.nios atmNio).1 = none

variable {n : Nios} {nioInput nioOutput : String}

theorem afterCleanup_eq : afterCleanup n nioInput = n ↔ InputUnused n nioInput := by
  unfold afterCleanup InputUnused
  cases (netioAcquire n nioInput).1 with
  | none => simp
  | some i => simpa using rxlRemove_eq

theorem createVpc_failed {t : AtmswTable} {vpiIn vpiOut : BitVec 32} {alloc granted : Bool}
    (h : (atmswCreateVpc t n nioInput vpiIn nioOutput vpiOut alloc granted).1 = -1) :
    (atmswCreateVpc t n nioInput vpiIn nioOutput vpiOut alloc granted).2 =
      (t, if alloc then afterCleanup n nioInput else n) := by
  revert h
  cases alloc with
  | false => simp [atmswCreateVpc]
  | true =>
    rcases h₁ : netioAcquire n nioInput with ⟨input, n₁⟩
    rcases h₂ : netioAcquire n₁ nioOutput with ⟨output, n₂⟩
    have hrel := releaseConn_acquired h₁ h₂
    cases input with
    | none => simp [atmswCreateVpc, h₁, h₂, atmswReleaseVpc, hrel]
    | some i =>
      cases output with
      | none => simp [atmswCreateVpc, h₁, h₂, atmswReleaseVpc, hrel]
      | some o =>
        rcases h₃ : netioRxlAdd n₂ i granted with ⟨res, n₃⟩
        by_cases hvp : atmswVpLookup t (some i) vpiIn = none
        · by_cases hres : res = -1
          · subst hres
            obtain rfl := rxlAdd_failed h₃
            simp [atmswCreateVpc, h₁, h₂, h₃, hvp, atmswReleaseVpc, hrel]
          · simp [atmswCreateVpc, h₁, h₂, h₃, hvp, hres]
        · simp [atmswCreateVpc, h₁, h₂, hvp, atmswReleaseVpc, hrel]

theorem createVcc_failed {t : AtmswTable} {vpiIn vciIn vpiOut vciOut : BitVec 32}
    {alloc granted : Bool}
    (h : (atmswCreateVcc t n nioInput vpiIn vciIn nioOutput vpiOut vciOut alloc granted).1 = -1) :
    (atmswCreateVcc t n nioInput vpiIn vciIn nioOutput vpiOut vciOut alloc granted).2 =
      (t, if alloc then afterCleanup n nioInput else n) := by
  revert h
  cases alloc with
  | false => simp [atmswCreateVcc]
  | true =>
    rcases h₁ : netioAcquire n nioInput with ⟨input, n₁⟩
    rcases h₂ : netioAcquire n₁ nioOutput with ⟨output, n₂⟩
    have hrel := releaseConn_acquired h₁ h₂
    by_cases hvp : atmswVpLookup t input vpiIn = none
    · cases input with
      | none => simp [atmswCreateVcc, h₁, h₂, hvp, atmswReleaseVcc, hrel]
      | some i =>
        cases output with
        | none => simp [atmswCreateVcc, h₁, h₂, hvp, atmswReleaseVcc, hrel]
        | some o =>
          rcases h₃ : netioRxlAdd n₂ i granted with ⟨res, n₃⟩
          by_cases hvc : atmswVcLookup t (some i) vpiIn vciIn = none
          · by_cases hres : res = -1
            · subst hres
              obtain rfl := rxlAdd_failed h₃
              simp [atmswCreateVcc, h₁, h₂, h₃, hvp, hvc, atmswReleaseVcc, hrel]
            · simp [atmswCreateVcc, h₁, h₂, h₃, hvp, hvc, hres]
          · simp [atmswCreateVcc, h₁, h₂, hvp, hvc, atmswReleaseVcc, hrel]
    · simp [atmswCreateVcc, h₁, h₂, hvp, atmswReleaseVcc, hrel]

theorem createVc_failed {s s' : FrState} {t : TablePtr} {dlciIn dlciOut : BitVec 32}
    {mem : Option VcPtr} {granted : Bool} {fuel : Nat}
    (h : frswCreateVc fuel s t nioInput dlciIn nioOutput dlciOut mem granted = some (-1, s')) :
    s' = { s with nios := if mem = none then s.nios else afterCleanup s.nios nioInput } := by
  unfold frswCreateVc at h
  cases htable : s.tables t with
  | none => simp [htable] at h
  | some table =>
    cases mem with
    | none =>
      simp only [htable, Option.some.injEq, Prod.mk.injEq, true_and] at h
      exact h.symm
    | some vc =>
      rcases h₁ : netioAcquire s.nios nioInput with ⟨input, n₁⟩
      rcases h₂ : netioAcquire n₁ nioOutput with ⟨output, n₂⟩
      have hrel := releaseConn_acquired h₁ h₂
      simp only [htable, h₁, h₂, frswReleaseVc, hrel] at h
      split at h
      · rename_i i o
        split at h
        · cases h
          rfl
        · rcases h₃ : netioRxlAdd n₂ i granted with ⟨res, n₃⟩
          simp only [h₃] at h
          split at h
          · rename_i hres
            subst hres
            obtain rfl := rxlAdd_failed h₃
            rw [hrel] at h
            cases h
            rfl
          · obtain ⟨p, -, heq⟩ := Option.map_eq_some_iff.mp h
            cases heq
      · cases h
        rfl

theorem bridge_failed {t : AtmBridge} {ethNio atmNio : String} {vpi vci : BitVec 32}
    {atmGranted ethGranted : Bool}
    (h : (atmBridgeConfigure t n ethNio atmNio vpi vci atmGranted ethGranted).1 = -1) :
    (atmBridgeConfigure t n ethNio atmNio vpi vci atmGranted ethGranted).2 = (t, n) ↔
      t.ethNio ≠ none ∨ t.atmNio ≠ none ∨
        (netioAcquire n ethNio).1 = none ∧ (netioAcquire n atmNio).1 = none := by
  revert h
  unfold atmBridgeConfigure
  split
  · rename_i hset
    intro _
    exact iff_of_true rfl (hset.imp_right Or.inl)
  · rename_i hset
    obtain ⟨heth, hatm⟩ := not_or.mp hset
    rcases h₁ : netioAcquire n ethNio with ⟨e, n₁⟩
    rcases h₂ : netioAcquire n₁ atmNio with ⟨a, n₂⟩
    simp only [heth, hatm, false_or]
    cases e with
    | none =>
      obtain rfl := acquire_none h₁
      cases a with
      | none =>
        obtain rfl := acquire_none h₂
        simp [h₂]
      | some a => simp [h₂, (acquire_some h₂).1]
    | some e =>
      cases a with
      | none =>
        obtain rfl := acquire_none h₂
        simp [h₂, (acquire_some h₁).1]
      | some a =>
        have hne : ∀ n' : Nios, ((⟨some e, some a, vpi, vci⟩, n') : AtmBridge × Nios) ≠ (t, n) := by
          intro n' heq
          have heth' : some e = t.ethNio := congrArg (fun r => r.1.ethNio) heq
          exact heth (by simp [← heth'])
        intro _
        refine iff_of_false ?_ (by simp)
        simp only [h₂]
        split
        · exact hne _
        · split
          · exact hne _
          · exact hne _

theorem Net.setAtmsw_eq {s : Net} {t : Nat} {m : Nios} :
    s.setAtmsw t (s.atmsw t, m) = s ↔ m = s.nios := by
  constructor
  · intro heq
    exact congrArg Net.nios heq
  · rintro rfl
    simp [Net.setAtmsw, Net.nios]

theorem Net.setBridge_eq {s : Net} {t : Nat} {r : AtmBridge × Nios} :
    s.setBridge t r = s ↔ r = (s.bridge t, s.nios) := by
  constructor
  · intro heq
    refine Prod.ext ?_ (congrArg Net.nios heq)
    have hbridge := congrFun (congrArg Net.bridge heq) t
    simpa [Net.setBridge] using hbridge
  · rintro rfl
    simp [Net.setBridge, Net.nios]

/-- A creation that fails leaves everything as it was exactly if the input had no
listener that the cleanup could take away; for a bridge, if nothing was acquired. -/
theorem failure_unchanged_iff {fuel : Nat} {s s' : Net} {c : Creation}
    (h : create fuel s c = some (-1, s')) : s' = s ↔ CleanFailure s c := by
  cases c with
  | vc t nioInput dlciIn nioOutput dlciOut mem granted =>
    obtain ⟨⟨res, fr⟩, hr, heq⟩ := Option.map_eq_some_iff.mp h
    cases heq
    obtain rfl := createVc_failed hr
    have hsame : ({ s with fr := { s.fr with
        nios := if mem = none then s.nios else afterCleanup s.nios nioInput } } : Net) = s ↔
        (if mem = none then s.nios else afterCleanup s.nios nioInput) = s.nios :=
      ⟨fun heq => congrArg Net.nios heq, fun heq => by rw [heq]; rfl⟩
    refine hsame.trans ?_
    cases mem with
    | none => simp [CleanFailure]
    | some vc => simpa [CleanFailure] using afterCleanup_eq
  | vpc t nioInput vpiIn nioOutput vpiOut alloc granted =>
    simp only [create, Option.some.injEq, Prod.mk.injEq] at h
    obtain ⟨hres, rfl⟩ := h
    rw [createVpc_failed hres, Net.setAtmsw_eq]
    cases alloc with
    | false => simp [CleanFailure]
    | true => simpa [CleanFailure] using afterCleanup_eq
  | vcc t nioInput vpiIn vciIn nioOutput vpiOut vciOut alloc granted =>
    simp only [create, Option.some.injEq, Prod.mk.injEq] at h
    obtain ⟨hres, rfl⟩ := h
    rw [createVcc_failed hres, Net.setAtmsw_eq]
    cases alloc with
    | false => simp [CleanFailure]
    | true => simpa [CleanFailure] using afterCleanup_eq
  | bridge t ethNio atmNio vpi vci atmGranted ethGranted =>
    simp only [create, Option.some.injEq, Prod.mk.injEq] at h
    obtain ⟨hres, rfl⟩ := h
    rw [Net.setBridge_eq]
    exact bridge_failed hres

def Net.init (n : Nios) : Net where
  fr := (World.init n).fr
  atmsw := fun _ => (State.init n).table
  bridge := fun _ => { ethNio := none, atmNio := none, vpi := 0, vci := 0 }

/-- An unknown output, for an input that no connection uses -/
theorem failure_unchanged_unused : ∃ s',
    create 1 (.init twoNios) (.vpc 0 "A" 5 "C" 6 true true) = some (-1, s') ∧
      s' = .init twoNios := by
  have h : create 1 (.init twoNios) (.vpc 0 "A" 5 "C" 6 true true) = some (-1, _) := rfl
  refine ⟨_, h, (failure_unchanged_iff h).mpr (Or.inr fun i hi => ?_)⟩
  rfl

/-- The same call when NIO A is the input of another connection: the listener of
that connection is gone. -/
theorem not_failure_unchanged : ∃ s s',
    create 1 (.init twoNios) (.vpc 0 "A" 1 "B" 2 true true) = some (0, s) ∧
      create 1 s (.vpc 0 "A" 5 "C" 6 true true) = some (-1, s') ∧
      refCountOf s.nios.rxlList 0 = 1 ∧ refCountOf s'.nios.rxlList 0 = 0 ∧ s' ≠ s := by
  refine ⟨_, _, rfl, rfl, rfl, rfl, fun heq => ?_⟩
  have hcount := congrArg (fun s => refCountOf s.nios.rxlList 0) heq
  exact absurd (hcount : 0 = 1) (by decide)

end Dynamips.Conn
