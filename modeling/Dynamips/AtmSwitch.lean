import Dynamips.AtmVsar
import Dynamips.NetioUsers
import Dynamips.Lib.Buckets
import Dynamips.Lib.Runs

/-! The virtual ATM switch of atm.c: the tables of VP and VC connections and the
cells that go through them. -/
set_option autoImplicit false

namespace Dynamips.Atmsw
open Atm Buckets Rxl Nio Runs

def hdrVpiMask : BitVec 32 := 0xFFF00000
def hdrVciMask : BitVec 32 := 0x000FFFF0

def vpHashSize : Nat := 256
def vcHashSize : Nat := 1024

instance : NeZero vpHashSize := ⟨by decide⟩
instance : NeZero vcHashSize := ⟨by decide⟩

structure AtmswVpConn where
  input : NioPtr
  output : NioPtr
  vpiIn : BitVec 32
  vpiOut : BitVec 32
deriving DecidableEq

structure AtmswVcConn where
  input : NioPtr
  output : NioPtr
  vpiIn : BitVec 32
  vciIn : BitVec 32
  vpiOut : BitVec 32
  vciOut : BitVec 32
deriving DecidableEq

structure AtmswTable where
  vpTable : Table vpHashSize AtmswVpConn
  vcTable : Table vcHashSize AtmswVcConn

def atmswVpcHash (vpi : BitVec 32) : Fin vpHashSize :=
  Fin.ofNat vpHashSize ((vpi ^^^ (vpi >>> 8)) &&& 0xff).toNat

def atmswVccHash (vpi vci : BitVec 32) : Fin vcHashSize :=
  Fin.ofNat vcHashSize ((vpi ^^^ vci) &&& 0x3ff).toNat

def AtmswTable.addVpc (t : AtmswTable) (swc : AtmswVpConn) : AtmswTable :=
  { t with vpTable := push t.vpTable (atmswVpcHash swc.vpiIn) swc }

def AtmswTable.addVcc (t : AtmswTable) (swc : AtmswVcConn) : AtmswTable :=
  { t with vcTable := push t.vcTable (atmswVccHash swc.vpiIn swc.vciIn) swc }

/-- `atmsw_vp_lookup`; the input may be a null pointer. -/
def atmswVpLookup (t : AtmswTable) (input : Option NioPtr) (vpi : BitVec 32) :
    Option AtmswVpConn :=
  (t.vpTable (atmswVpcHash vpi)).find? fun swc => some swc.input = input ∧ swc.vpiIn = vpi

def atmswVcLookup (t : AtmswTable) (input : Option NioPtr) (vpi vci : BitVec 32) :
    Option AtmswVcConn :=
  (t.vcTable (atmswVccHash vpi vci)).find? fun swc =>
    some swc.input = input ∧ swc.vpiIn = vpi ∧ swc.vciIn = vci

def atmswVpSwitch (vpc : AtmswVpConn) (cell : List Byte) : List Byte :=
  let atmHdr := mNtoh32 cell
  let atmHdr := atmHdr &&& ~~~hdrVpiMask
  let atmHdr := atmHdr ||| (vpc.vpiOut <<< hdrVpiShift)
  atmInsertHec (memcpy cell 0 (mHton32 atmHdr))

def atmswVcSwitch (vcc : AtmswVcConn) (cell : List Byte) : List Byte :=
  let atmHdr := mNtoh32 cell
  let atmHdr := atmHdr &&& ~~~(hdrVpiMask ||| hdrVciMask)
  let atmHdr := atmHdr ||| (vcc.vpiOut <<< hdrVpiShift)
  let atmHdr := atmHdr ||| (vcc.vciOut <<< hdrVciShift)
  atmInsertHec (memcpy cell 0 (mHton32 atmHdr))

/-- What `atmsw_handle_cell` gives to `netio_send`. -/
def atmswHandleCell (t : AtmswTable) (input : NioPtr) (cell : List Byte) :
    Option NioPtr × List Byte :=
  let atmHdr := mNtoh32 cell
  let vpi := (atmHdr &&& hdrVpiMask) >>> hdrVpiShift
  let vci := (atmHdr &&& hdrVciMask) >>> hdrVciShift
  match atmswVpLookup t (some input) vpi with
  | some vpc => (some vpc.output, atmswVpSwitch vpc cell)
  | none =>
    match atmswVcLookup t (some input) vpi vci with
    | some vcc => (some vcc.output, atmswVcSwitch vcc cell)
    | none => (none, cell)

def atmswReleaseVpc (n : Nios) (input output : Option NioPtr) : Nios := releaseConn n input output

def atmswReleaseVcc (n : Nios) (input output : Option NioPtr) : Nios := releaseConn n input output

/-- `atmsw_create_vpc`. `alloc` and `granted` tell whether the connection and its
listener could be created. -/
def atmswCreateVpc (t : AtmswTable) (n : Nios) (nioInput : String) (vpiIn : BitVec 32)
    (nioOutput : String) (vpiOut : BitVec 32) (alloc granted : Bool) : Int × AtmswTable × Nios :=
  if ¬ alloc then
    (-1, t, n)
  else
    let (input, n) := netioAcquire n nioInput
    let (output, n) := netioAcquire n nioOutput
    match input, output with
    | some i, some o =>
      if atmswVpLookup t input vpiIn ≠ none then
        (-1, t, atmswReleaseVpc n input output)
      else
        let (res, n) := netioRxlAdd n i granted
        if res = -1 then
          (-1, t, atmswReleaseVpc n input output)
        else
          let swc : AtmswVpConn := { input := i, output := o, vpiIn := vpiIn, vpiOut := vpiOut }
          (0, t.addVpc swc, n)
    | _, _ => (-1, t, atmswReleaseVpc n input output)

def atmswCreateVcc (t : AtmswTable) (n : Nios) (nioInput : String) (vpiIn vciIn : BitVec 32)
    (nioOutput : String) (vpiOut vciOut : BitVec 32) (alloc granted : Bool) :
    Int × AtmswTable × Nios :=
  if ¬ alloc then
    (-1, t, n)
  else
    let (input, n) := netioAcquire n nioInput
    let (output, n) := netioAcquire n nioOutput
    if atmswVpLookup t input vpiIn ≠ none then
      (-1, t, atmswReleaseVcc n input output)
    else
      match input, output with
      | some i, some o =>
        if atmswVcLookup t input vpiIn vciIn ≠ none then
          (-1, t, atmswReleaseVcc n input output)
        else
          let (res, n) := netioRxlAdd n i granted
          if res = -1 then
            (-1, t, atmswReleaseVcc n input output)
          else
            let swc : AtmswVcConn :=
              { input := i, output := o, vpiIn := vpiIn, vciIn := vciIn
                vpiOut := vpiOut, vciOut := vciOut }
            (0, t.addVcc swc, n)
      | _, _ => (-1, t, atmswReleaseVcc n input output)

def atmswDeleteVpc (t : AtmswTable) (n : Nios) (nioInput : String) (vpiIn : BitVec 32)
    (nioOutput : String) (vpiOut : BitVec 32) : Int × AtmswTable × Nios :=
  match registryExists n nioInput, registryExists n nioOutput with
  | some input, some output =>
    let hbucket := atmswVpcHash vpiIn
    let found : AtmswVpConn → Bool := fun p =>
      p.input = input ∧ p.output = output ∧ p.vpiIn = vpiIn ∧ p.vpiOut = vpiOut
    match (t.vpTable hbucket).find? found with
    | some p =>
      (0, { t with vpTable := eraseFirst t.vpTable hbucket found },
        atmswReleaseVpc n (some p.input) (some p.output))
    | none => (-1, t, n)
  | _, _ => (-1, t, n)

/-- `atmsw_delete_vcc`, which compares with a null pointer where an NIO is unknown. -/
def atmswDeleteVcc (t : AtmswTable) (n : Nios) (nioInput : String) (vpiIn vciIn : BitVec 32)
    (nioOutput : String) (vpiOut vciOut : BitVec 32) : Int × AtmswTable × Nios :=
  let input := registryExists n nioInput
  let output := registryExists n nioOutput
  let hbucket := atmswVccHash vpiIn vciIn
  let found : AtmswVcConn → Bool := fun p =>
    some p.input = input ∧ some p.output = output ∧ p.vpiIn = vpiIn ∧ p.vciIn = vciIn ∧
      p.vpiOut = vpiOut ∧ p.vciOut = vciOut
  match (t.vcTable hbucket).find? found with
  | some p =>
    (0, { t with vcTable := eraseFirst t.vcTable hbucket found },
      atmswReleaseVcc n (some p.input) (some p.output))
  | none => (-1, t, n)

structure State where
  table : AtmswTable
  nios : Nios

def State.init (n : Nios) : State where
  table := { vpTable := empty _ _, vcTable := empty _ _ }
  nios := n

/-- The last event is what the other users of the NIOs do. -/
inductive Event where
  | createVpc (nioInput : String) (vpiIn : BitVec 32) (nioOutput : String) (vpiOut : BitVec 32)
      (alloc granted : Bool)
  | deleteVpc (nioInput : String) (vpiIn : BitVec 32) (nioOutput : String) (vpiOut : BitVec 32)
  | createVcc (nioInput : String) (vpiIn vciIn : BitVec 32) (nioOutput : String)
      (vpiOut vciOut : BitVec 32) (alloc granted : Bool)
  | deleteVcc (nioInput : String) (vpiIn vciIn : BitVec 32) (nioOutput : String)
      (vpiOut vciOut : BitVec 32)
  | others (n : Nios)

def State.next (r : Int × AtmswTable × Nios) : State := { table := r.2.1, nios := r.2.2 }

def step (s : State) : Event → State
  | .createVpc nioInput vpiIn nioOutput vpiOut alloc granted =>
    .next (atmswCreateVpc s.table s.nios nioInput vpiIn nioOutput vpiOut alloc granted)
  | .deleteVpc nioInput vpiIn nioOutput vpiOut =>
    .next (atmswDeleteVpc s.table s.nios nioInput vpiIn nioOutput vpiOut)
  | .createVcc nioInput vpiIn vciIn nioOutput vpiOut vciOut alloc granted =>
    .next (atmswCreateVcc s.table s.nios nioInput vpiIn vciIn nioOutput vpiOut vciOut alloc granted)
  | .deleteVcc nioInput vpiIn vciIn nioOutput vpiOut vciOut =>
    .next (atmswDeleteVcc s.table s.nios nioInput vpiIn vciIn nioOutput vpiOut vciOut)
  | .others n => { s with nios := n }

def Step (s : State) (e : Event) (s' : State) : Prop := some (step s e) = some s'

inductive Conn where
  | vp (vpc : AtmswVpConn)
  | vc (vcc : AtmswVcConn)

def Conn.In (t : AtmswTable) : Conn → Prop
  | .vp vpc => Mem t.vpTable vpc
  | .vc vcc => Mem t.vcTable vcc

def Conn.Accepts (input : NioPtr) (vpi vci : BitVec 32) : Conn → Prop
  | .vp vpc => vpc.input = input ∧ vpc.vpiIn = vpi
  | .vc vcc => vcc.input = input ∧ vcc.vpiIn = vpi ∧ vcc.vciIn = vci

/-- No VPI of an NIO is both VP-switched and the input of a VC connection, and a
cell has one possible connection at most. -/
structure OneConnection (t : AtmswTable) : Prop where
  exclusive : ∀ vpc vcc, Mem t.vpTable vpc → Mem t.vcTable vcc → vpc.input = vcc.input →
    vpc.vpiIn ≠ vcc.vpiIn
  unique : ∀ input vpi vci (a b : Conn), a.In t → b.In t → a.Accepts input vpi vci →
    b.Accepts input vpi vci → a = b

def VpcAccepted (t : AtmswTable) (n : Nios) (nioInput : String) (vpiIn : BitVec 32)
    (nioOutput : String) (alloc granted : Bool) (input : NioPtr) : Prop :=
  alloc = true ∧ ∃ output n₁ n₂, netioAcquire n nioInput = (some input, n₁) ∧
    netioAcquire n₁ nioOutput = (some output, n₂) ∧ atmswVpLookup t (some input) vpiIn = none ∧
    (netioRxlAdd n₂ input granted).1 ≠ -1

/-- No VC connection has the input of a VP connection that is accepted. -/
def NoVccFirst (s : State) : Event → Prop
  | .createVpc nioInput vpiIn nioOutput _ alloc granted =>
    ∀ input, VpcAccepted s.table s.nios nioInput vpiIn nioOutput alloc granted input →
      ∀ vcc, Mem s.table.vcTable vcc → vcc.input = input → vcc.vpiIn ≠ vpiIn
  | _ => True

def vpKey (vpc : AtmswVpConn) : NioPtr × BitVec 32 := (vpc.input, vpc.vpiIn)

def vcKey (vcc : AtmswVcConn) : NioPtr × BitVec 32 × BitVec 32 := (vcc.input, vcc.vpiIn, vcc.vciIn)

structure Placed (t : AtmswTable) : Prop where
  vps : Indexed (fun k => atmswVpcHash k.2) vpKey t.vpTable
  vcs : Indexed (fun k => atmswVccHash k.2.1 k.2.2) vcKey t.vcTable

def Exclusive (t : AtmswTable) : Prop :=
  ∀ vpc vcc, Mem t.vpTable vpc → Mem t.vcTable vcc → vpc.input = vcc.input →
    vpc.vpiIn ≠ vcc.vpiIn

variable {t : AtmswTable} {n : Nios} {nioInput nioOutput : String} {s : State} {i : NioPtr}
  {vpiIn vciIn vpiOut vciOut : BitVec 32} {alloc granted : Bool}

theorem Placed.oneConnection (h : Placed t) : OneConnection t ↔ Exclusive t := by
  constructor
  · intro hone
    exact hone.exclusive
  · intro hex
    refine ⟨hex, fun input vpi vci a b ha hb haccept hbccept => ?_⟩
    cases a with
    | vp a =>
      cases b with
      | vp b =>
        have hkey : vpKey a = vpKey b := by
          rw [vpKey, vpKey, haccept.1, haccept.2, hbccept.1, hbccept.2]
        rw [h.vps.eq_of_key ha hb hkey]
      | vc b =>
        exact absurd (haccept.2.trans hbccept.2.1.symm)
          (hex a b ha hb (haccept.1.trans hbccept.1.symm))
    | vc a =>
      cases b with
      | vp b =>
        exact absurd (hbccept.2.trans haccept.2.1.symm)
          (hex b a hb ha (hbccept.1.trans haccept.1.symm))
      | vc b =>
        have hkey : vcKey a = vcKey b := by
          rw [vcKey, vcKey, haccept.1, haccept.2.1, haccept.2.2, hbccept.1, hbccept.2.1,
            hbccept.2.2]
        rw [h.vcs.eq_of_key ha hb hkey]

theorem Placed.vpLookup_eq_none (h : Placed t) :
    atmswVpLookup t (some i) vpiIn = none ↔
      ∀ vpc, Mem t.vpTable vpc → vpc.input = i → vpc.vpiIn ≠ vpiIn := by
  have hfind := h.vps.find_eq_none (i, vpiIn)
  simp only [vpKey, Prod.mk.injEq, ne_eq, not_and] at hfind
  simpa only [atmswVpLookup, Option.some.injEq] using hfind

theorem Placed.vcLookup_eq_none (h : Placed t) :
    atmswVcLookup t (some i) vpiIn vciIn = none ↔
      ∀ vcc, Mem t.vcTable vcc → vcc.input = i → vcc.vpiIn = vpiIn → vcc.vciIn ≠ vciIn := by
  have hfind := h.vcs.find_eq_none (i, vpiIn, vciIn)
  simp only [vcKey, Prod.mk.injEq, ne_eq, not_and] at hfind
  simpa only [atmswVcLookup, Option.some.injEq] using hfind

theorem createVpc_cases :
    (∃ input output n', VpcAccepted t n nioInput vpiIn nioOutput alloc granted input ∧
      atmswCreateVpc t n nioInput vpiIn nioOutput vpiOut alloc granted =
        (0, t.addVpc { input := input, output := output, vpiIn := vpiIn, vpiOut := vpiOut },
          n')) ∨
    ((∀ input, ¬ VpcAccepted t n nioInput vpiIn nioOutput alloc granted input) ∧
      ∃ n', atmswCreateVpc t n nioInput vpiIn nioOutput vpiOut alloc granted = (-1, t, n')) := by
  unfold atmswCreateVpc VpcAccepted
  cases alloc with
  | false => simp
  | true =>
    rcases h₁ : netioAcquire n nioInput with ⟨input, n₁⟩
    rcases h₂ : netioAcquire n₁ nioOutput with ⟨output, n₂⟩
    cases input with
    | none => simp
    | some i =>
      cases output with
      | none => simp [h₂]
      | some o =>
        rcases h₃ : netioRxlAdd n₂ i granted with ⟨res, n₃⟩
        by_cases hvp : atmswVpLookup t (some i) vpiIn = none
        · by_cases hres : res = -1
          · simp [h₂, h₃, hvp, hres]
          · left
            exact ⟨i, o, n₃, ⟨rfl, o, n₁, n₂, rfl, h₂, hvp, by simpa [h₃] using hres⟩,
              by simp [h₂, h₃, hvp, hres]⟩
        · simp [h₂, hvp]

theorem createVcc_cases :
    (∃ input output n', atmswVpLookup t (some input) vpiIn = none ∧
      atmswVcLookup t (some input) vpiIn vciIn = none ∧
      atmswCreateVcc t n nioInput vpiIn vciIn nioOutput vpiOut vciOut alloc granted =
        (0, t.addVcc { input := input, output := output, vpiIn := vpiIn, vciIn := vciIn,
                       vpiOut := vpiOut, vciOut := vciOut }, n')) ∨
    ∃ n', atmswCreateVcc t n nioInput vpiIn vciIn nioOutput vpiOut vciOut alloc granted =
      (-1, t, n') := by
  unfold atmswCreateVcc
  cases alloc with
  | false => simp
  | true =>
    rcases netioAcquire n nioInput with ⟨input, n₁⟩
    rcases h₂ : netioAcquire n₁ nioOutput with ⟨output, n₂⟩
    by_cases hvp : atmswVpLookup t input vpiIn = none
    · cases input with
      | none => simp [hvp]
      | some i =>
        cases output with
        | none => simp [hvp, h₂]
        | some o =>
          rcases h₃ : netioRxlAdd n₂ i granted with ⟨res, n₃⟩
          by_cases hvc : atmswVcLookup t (some i) vpiIn vciIn = none
          · by_cases hres : res = -1
            · simp [hvp, hvc, h₂, h₃, hres]
            · left
              exact ⟨i, o, n₃, hvp, hvc, by simp [hvp, hvc, h₂, h₃, hres]⟩
          · simp [hvp, hvc, h₂]
    · simp [hvp, h₂]

def Deletes (t t' : AtmswTable) : Prop :=
  t' = t ∨ (∃ b p, t' = { t with vpTable := eraseFirst t.vpTable b p }) ∨
    ∃ b p, t' = { t with vcTable := eraseFirst t.vcTable b p }

theorem deleteVpc_table (t : AtmswTable) (n : Nios) (nioInput : String) (vpiIn : BitVec 32)
    (nioOutput : String) (vpiOut : BitVec 32) :
    Deletes t (atmswDeleteVpc t n nioInput vpiIn nioOutput vpiOut).2.1 := by
  simp only [atmswDeleteVpc]
  split
  · split
    · exact Or.inr (Or.inl ⟨_, _, rfl⟩)
    · exact Or.inl rfl
  · exact Or.inl rfl

theorem deleteVcc_table (t : AtmswTable) (n : Nios) (nioInput : String)
    (vpiIn vciIn : BitVec 32) (nioOutput : String) (vpiOut vciOut : BitVec 32) :
    Deletes t (atmswDeleteVcc t n nioInput vpiIn vciIn nioOutput vpiOut vciOut).2.1 := by
  simp only [atmswDeleteVcc]
  split
  · exact Or.inr (Or.inr ⟨_, _, rfl⟩)
  · exact Or.inl rfl

theorem step_cases (s : State) (e : Event) :
    (∃ nioInput vpiIn nioOutput vpiOut alloc granted input output,
      e = .createVpc nioInput vpiIn nioOutput vpiOut alloc granted ∧
      VpcAccepted s.table s.nios nioInput vpiIn nioOutput alloc granted input ∧
      (step s e).table =
        s.table.addVpc { input := input, output := output, vpiIn := vpiIn, vpiOut := vpiOut }) ∨
    NoVccFirst s e ∧ (Deletes s.table (step s e).table ∨
      ∃ swc, atmswVpLookup s.table (some swc.input) swc.vpiIn = none ∧
        atmswVcLookup s.table (some swc.input) swc.vpiIn swc.vciIn = none ∧
        (step s e).table = s.table.addVcc swc) := by
  cases e with
  | createVpc nioInput vpiIn nioOutput vpiOut alloc granted =>
    obtain ⟨input, output, n', haccepted, heq⟩ | ⟨hrefused, n', heq⟩ :=
      @createVpc_cases s.table s.nios nioInput nioOutput vpiIn vpiOut alloc granted
    · left
      refine ⟨nioInput, vpiIn, nioOutput, vpiOut, alloc, granted, input, output, rfl, haccepted, ?_⟩
      simp only [step, State.next, heq]
    · right
      refine ⟨fun input haccepted => absurd haccepted (hrefused input), Or.inl (Or.inl ?_)⟩
      simp only [step, State.next, heq]
  | deleteVpc nioInput vpiIn nioOutput vpiOut =>
    exact Or.inr ⟨trivial, Or.inl (deleteVpc_table _ _ _ _ _ _)⟩
  | createVcc nioInput vpiIn vciIn nioOutput vpiOut vciOut alloc granted =>
    right
    refine ⟨trivial, ?_⟩
    obtain ⟨input, output, n', hvp, hvc, heq⟩ | ⟨n', heq⟩ :=
      @createVcc_cases s.table s.nios nioInput nioOutput vpiIn vciIn vpiOut vciOut alloc granted
    · right
      refine ⟨{ input := input, output := output, vpiIn := vpiIn, vciIn := vciIn,
                vpiOut := vpiOut, vciOut := vciOut }, hvp, hvc, ?_⟩
      simp only [step, State.next, heq]
    · left
      left
      simp only [step, State.next, heq]
  | deleteVcc nioInput vpiIn vciIn nioOutput vpiOut vciOut =>
    exact Or.inr ⟨trivial, Or.inl (deleteVcc_table _ _ _ _ _ _ _ _)⟩
  | others n => exact Or.inr ⟨trivial, Or.inl (Or.inl rfl)⟩

theorem Placed.addVpc (h : Placed t) {swc : AtmswVpConn}
    (hnew : atmswVpLookup t (some swc.input) swc.vpiIn = none) : Placed (t.addVpc swc) := by
  refine ⟨h.vps.push rfl fun w hw hkey => ?_, h.vcs⟩
  obtain ⟨hinput, hvpi⟩ := Prod.mk.inj hkey
  exact h.vpLookup_eq_none.mp hnew w hw hinput hvpi

theorem Placed.addVcc (h : Placed t) {swc : AtmswVcConn}
    (hnew : atmswVcLookup t (some swc.input) swc.vpiIn swc.vciIn = none) :
    Placed (t.addVcc swc) := by
  refine ⟨h.vps, h.vcs.push rfl fun w hw hkey => ?_⟩
  obtain ⟨hinput, hrest⟩ := Prod.mk.inj hkey
  obtain ⟨hvpi, hvci⟩ := Prod.mk.inj hrest
  exact h.vcLookup_eq_none.mp hnew w hw hinput hvpi hvci

theorem exclusive_addVpc (h : Exclusive t) {swc : AtmswVpConn} :
    Exclusive (t.addVpc swc) ↔
      ∀ vcc, Mem t.vcTable vcc → vcc.input = swc.input → vcc.vpiIn ≠ swc.vpiIn := by
  constructor
  · intro hex vcc hvcc hinput hvpi
    exact hex swc vcc (mem_push.mpr (Or.inl rfl)) hvcc hinput.symm hvpi.symm
  · intro hno vpc vcc hvpc hvcc hinput hvpi
    cases mem_push.mp hvpc with
    | inl heq =>
      subst heq
      exact hno vcc hvcc hinput.symm hvpi.symm
    | inr hold => exact h vpc vcc hold hvcc hinput hvpi

theorem exclusive_addVcc (hp : Placed t) (h : Exclusive t) {swc : AtmswVcConn}
    (hvp : atmswVpLookup t (some swc.input) swc.vpiIn = none) : Exclusive (t.addVcc swc) := by
  intro vpc vcc hvpc hvcc hinput hvpi
  cases mem_push.mp hvcc with
  | inl heq =>
    subst heq
    exact hp.vpLookup_eq_none.mp hvp vpc hvpc hinput hvpi
  | inr hold => exact h vpc vcc hvpc hold hinput hvpi

theorem Placed.deletes {t' : AtmswTable} (h : Placed t) (hd : Deletes t t') : Placed t' := by
  obtain rfl | ⟨b, p, rfl⟩ | ⟨b, p, rfl⟩ := hd
  · exact h
  · exact ⟨h.vps.eraseFirst b p, h.vcs⟩
  · exact ⟨h.vps, h.vcs.eraseFirst b p⟩

theorem exclusive_deletes {t' : AtmswTable} (h : Exclusive t) (hd : Deletes t t') :
    Exclusive t' := by
  obtain rfl | ⟨b, p, rfl⟩ | ⟨b, p, rfl⟩ := hd
  · exact h
  · exact fun vpc vcc hvpc => h vpc vcc (mem_of_mem_eraseFirst hvpc)
  · exact fun vpc vcc hvpc hvcc => h vpc vcc hvpc (mem_of_mem_eraseFirst hvcc)

theorem placed_init (n : Nios) : Placed (State.init n).table := ⟨indexed_empty, indexed_empty⟩

theorem exclusive_init (n : Nios) : Exclusive (State.init n).table := fun _ _ h =>
  absurd h not_mem_empty

theorem placed_step {e : Event} {s' : State} (h : Placed s.table) (hs : Step s e s') :
    Placed s'.table := by
  cases hs
  obtain ⟨_, _, _, _, _, _, input, output, -, haccepted, heq⟩ | ⟨-, hd | ⟨swc, -, hnew, heq⟩⟩ :=
    step_cases s e
  · obtain ⟨-, output', n₁, n₂, -, -, hnew, -⟩ := haccepted
    rw [heq]
    exact h.addVpc hnew
  · exact h.deletes hd
  · rw [heq]
    exact h.addVcc hnew

theorem exclusive_step {e : Event} {s' : State} (hp : Placed s.table) (h : Exclusive s.table)
    (hs : Step s e s') : Exclusive s'.table ↔ NoVccFirst s e := by
  cases hs
  obtain ⟨_, _, _, _, _, _, input, output, rfl, haccepted, heq⟩ | ⟨hno, hd | ⟨swc, hvp, -, heq⟩⟩ :=
    step_cases s e
  · rw [heq, exclusive_addVpc h]
    constructor
    · intro hno other hother
      obtain ⟨-, output', n₁, n₂, hacq, -⟩ := haccepted
      obtain ⟨-, other', m₁, m₂, hacq', -⟩ := hother
      cases hacq.symm.trans hacq'
      exact hno
    · intro hno
      exact hno input haccepted
  · exact iff_of_true (exclusive_deletes h hd) hno
  · refine iff_of_true ?_ hno
    rw [heq]
    exact exclusive_addVcc hp h hvp

/-- No VPI is VP-switched and VC-switched at once in any state of a run, exactly if
every VP connection that is accepted comes where no VC connection is. -/
theorem one_connection_iff {n : Nios} {trace : List (State × Event)}
    (hrun : Run Step (State.init n) trace s) :
    Always (fun s => OneConnection s.table) trace s ↔ AllSteps NoVccFirst trace := by
  have hplaced : Always (fun s => Placed s.table) trace s :=
    hrun.always (fun _ _ _ h hs => placed_step h hs) (placed_init n)
  have hexclusive : Always (fun s => Exclusive s.table) trace s ↔ AllSteps NoVccFirst trace :=
    hrun.invariant_iff_of (fun _ _ _ h hs => placed_step h hs)
      (fun _ _ _ hp h hs => exclusive_step hp h hs) (placed_init n) (exclusive_init n)
  rw [← hexclusive]
  exact hplaced.congr fun s h => h.oneConnection

theorem run_of_steps {n : Nios} {events : List Event} {trace : List (State × Event)}
    (h : execute (fun s e => some (step s e)) (.init n) events = some (trace, s)) :
    Run Step (.init n) trace s :=
  run_of_execute h

def replaceEvents : List Event :=
  [.createVpc "A" 1 "B" 2 true true, .createVcc "A" 3 4 "B" 5 6 true true,
    .deleteVpc "A" 1 "B" 2, .createVcc "A" 1 7 "B" 2 7 true true]

theorem one_connection_replace : ∃ trace s,
    execute (fun s e => some (step s e)) (.init twoNios) replaceEvents = some (trace, s) ∧
      Always (fun s => OneConnection s.table) trace s := by
  have hex : execute (fun s e => some (step s e)) (.init twoNios) replaceEvents = some (_, _) := rfl
  refine ⟨_, _, hex, (one_connection_iff (run_of_steps hex)).mpr ?_⟩
  simp only [AllSteps, List.forall_mem_cons]
  refine ⟨?_, trivial, trivial, trivial, by simp⟩
  intro input _ vcc hvcc
  exact absurd hvcc not_mem_empty

def overlapEvents : List Event :=
  [.createVcc "A" 1 7 "B" 2 7 true true, .createVpc "A" 1 "B" 2 true true]

theorem not_one_connection : ∃ trace s,
    execute (fun s e => some (step s e)) (.init twoNios) overlapEvents = some (trace, s) ∧
      Run Step (.init twoNios) trace s ∧ ¬ OneConnection s.table := by
  have hex : execute (fun s e => some (step s e)) (.init twoNios) overlapEvents = some (_, _) := rfl
  refine ⟨_, _, hex, run_of_steps hex, fun hone => ?_⟩
  have hvpc : Mem (step (step (.init twoNios) (.createVcc "A" 1 7 "B" 2 7 true true))
      (.createVpc "A" 1 "B" 2 true true)).table.vpTable ⟨0, 1, 1, 2⟩ := ⟨atmswVpcHash 1, List.mem_cons_self⟩
  have hvcc : Mem (step (step (.init twoNios) (.createVcc "A" 1 7 "B" 2 7 true true))
      (.createVpc "A" 1 "B" 2 true true)).table.vcTable ⟨0, 1, 1, 7, 2, 7⟩ :=
    ⟨atmswVccHash 1 7, List.mem_cons_self⟩
  exact hone.exclusive _ _ hvpc hvcc rfl rfl

end Dynamips.Atmsw
