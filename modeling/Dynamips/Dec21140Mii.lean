import Dynamips.Lib.MsbBits
import Mathlib.Logic.Function.Basic

/-! The serial line to the PHY registers of the DEC21140, which the guest drives
through CSR9 (dev_dec21140.c). -/
set_option autoImplicit false

namespace Dynamips.Dec21140

open MsbBits

def DEC21140_CSR9_RX_BIT : BitVec 32 := 0x00080000

def DEC21140_CSR9_MII_READ : BitVec 64 := 0x00040000

def DEC21140_CSR9_TX_BIT : BitVec 64 := 0x00020000

def DEC21140_CSR9_MDC_CLOCK : BitVec 64 := 0x00010000

def DEC21140_CSR9_READ : BitVec 64 := 0x00004000

def DEC21140_CSR9_WRITE : BitVec 64 := 0x00002000

/-- The fields of `struct dec21140_data` for the PHY, without the bits to be read. -/
structure Mii where
  state : Nat
  phy : BitVec 32
  reg : BitVec 32
  data : BitVec 32
  regs : BitVec 32 → BitVec 32 → BitVec 16

/-- The two numbers are in the bounds of `mii_regs`. -/
def Mii.InBounds (m : Mii) : Prop := m.phy.toNat < 32 ∧ m.reg.toNat < 32

instance (m : Mii) : Decidable m.InBounds := inferInstanceAs (Decidable (_ ∧ _))

/-- `mii_reg_read`; none out of the bounds of the array. -/
def Mii.regRead (linked : Bool) (m : Mii) : Option (BitVec 16) :=
  if m.reg = 1 then some (if linked then 0x04 else 0x00)
  else if m.InBounds then some (m.regs m.phy m.reg)
  else none

def Mii.stored (m : Mii) : Mii :=
  { m with
    regs := fun phy reg =>
      if phy = m.phy ∧ reg = m.reg then m.data.setWidth 16 else m.regs phy reg }

/-- `mii_reg_write`; none where an assertion fails. -/
def Mii.regWrite (m : Mii) : Option Mii := if m.InBounds then some m.stored else none

/-- The value that a read leaves in `mii_outbits`, behind a bit that is thrown away. -/
def outbitsOf (val : BitVec 16) : BitVec 32 := val.setWidth 32 <<< 15

/-- `mii_newbit`, with the new `mii_outbits` if there are some; none in a state that
the switch does not know. -/
def Mii.newbit (linked : Bool) (m : Mii) (newbit : Bool) : Option (Mii × Option (BitVec 32)) :=
  if m.state = 0 then
    some ({ m with state := if newbit then 0 else 1, phy := 0, reg := 0, data := 0 }, none)
  else if m.state = 1 then some ({ m with state := if newbit then 2 else 0 }, none)
  else if m.state = 2 then some ({ m with state := if newbit then 3 else 4 }, none)
  else if m.state = 3 then some ({ m with state := if newbit then 0 else 10 }, none)
  else if m.state = 4 then some ({ m with state := if newbit then 20 else 0 }, none)
  else if (10 ≤ m.state ∧ m.state < 15) ∨ (20 ≤ m.state ∧ m.state < 25) then
    some ({ m with phy := shiftIn m.phy newbit, state := m.state + 1 }, none)
  else if (15 ≤ m.state ∧ m.state < 20) ∨ (25 ≤ m.state ∧ m.state < 30) then
    let m := { m with reg := shiftIn m.reg newbit, state := m.state + 1 }
    if m.state = 20 then
      (m.regRead linked).map fun val => ({ m with state := 0 }, some (outbitsOf val))
    else some (m, none)
  else if m.state = 30 then some ({ m with state := if newbit then 31 else 0 }, none)
  else if m.state = 31 then some ({ m with state := if newbit then 0 else 32 }, none)
  else if 32 ≤ m.state ∧ m.state < 48 then
    let m := { m with data := shiftIn m.data newbit, state := m.state + 1 }
    if m.state = 48 then m.regWrite.map fun m => ({ m with state := 0 }, none)
    else some (m, none)
  else none

inductive Csr9Op where
  | pop
  | bit (newbit : Bool)
  | other
deriving DecidableEq

def csr9Op (data : BitVec 64) : Csr9Op :=
  if data &&& ~~~DEC21140_CSR9_TX_BIT =
      (DEC21140_CSR9_MII_READ ||| DEC21140_CSR9_READ ||| DEC21140_CSR9_MDC_CLOCK) then .pop
  else if data &&& ~~~DEC21140_CSR9_TX_BIT =
      (DEC21140_CSR9_WRITE ||| DEC21140_CSR9_MDC_CLOCK) then
    .bit (decide (data &&& DEC21140_CSR9_TX_BIT ≠ 0))
  else .other

/-- The chip as CSR9 sees it. `linked` says that there is an interface. -/
structure MiiChip where
  mii : Mii
  outbits : BitVec 32
  csr9 : BitVec 32
  linked : Bool

/-- The write of CSR9 in `dev_dec21140_access` -/
def csr9Write (c : MiiChip) (data : BitVec 64) : Option MiiChip :=
  let c := { c with csr9 := data.setWidth 32 }
  match csr9Op data with
  | .pop =>
    some { c with
      csr9 :=
        if c.outbits.msb then c.csr9 ||| DEC21140_CSR9_RX_BIT
        else c.csr9 &&& ~~~DEC21140_CSR9_RX_BIT
      outbits := c.outbits <<< 1 }
  | .bit newbit =>
    (c.mii.newbit c.linked newbit).map fun (mii, outbits) =>
      { c with mii := mii, outbits := outbits.getD c.outbits }
  | .other => some c

def csr9Writes (c : MiiChip) (words : List (BitVec 64)) : Option MiiChip :=
  words.foldlM csr9Write c

def rxBits : MiiChip → List (BitVec 64) → List Bool
  | _, [] => []
  | c, data :: words =>
    match csr9Write c data with
    | none => []
    | some c' =>
      if csr9Op data = .pop then decide (c'.csr9 &&& DEC21140_CSR9_RX_BIT ≠ 0) :: rxBits c' words
      else rxBits c' words

def sentBits (words : List (BitVec 64)) : List Bool :=
  words.filterMap fun data =>
    match csr9Op data with
    | .bit b => some b
    | _ => none

def poppedBits (words : List (BitVec 64)) : Nat := words.countP fun data => csr9Op data = .pop

structure MiiFrame where
  preamble : Nat
  phy : BitVec 5
  reg : BitVec 5
  write : Option (BitVec 16)

/-- The bits that the guest sends for a frame: a start, an operation, the numbers, and
for a write the turnaround and the value. -/
def MiiFrame.bits (f : MiiFrame) : List Bool :=
  List.replicate f.preamble true ++
    match f.write with
    | none => [false, true, true, false] ++ (bitsMsb f.phy ++ bitsMsb f.reg)
    | some val =>
      [false, true, false, true] ++
        (bitsMsb f.phy ++ (bitsMsb f.reg ++ ([true, false] ++ bitsMsb val)))

/-- The states that the switch of `mii_newbit` knows. -/
def KnownState (s : Nat) : Prop := s < 5 ∨ (10 ≤ s ∧ s < 48)

instance (s : Nat) : Decidable (KnownState s) := inferInstanceAs (Decidable (_ ∨ _))

def phyWidth (s : Nat) : Nat :=
  if s = 0 ∨ 30 ≤ s then 5 else if s < 10 then 0 else min 5 (s % 10)

def regWidth (s : Nat) : Nat := if s = 0 ∨ 30 ≤ s then 5 else if s < 10 then 0 else s % 10 - 5

structure MiiOk (m : Mii) : Prop where
  known : KnownState m.state
  phy : m.phy.toNat < 2 ^ phyWidth m.state
  reg : m.reg.toNat < 2 ^ regWidth m.state

variable {m m' : Mii} {linked : Bool} {c : MiiChip}

theorem MiiOk.inBounds (h : MiiOk m) : m.InBounds := by
  have hphy : phyWidth m.state ≤ 5 := by
    unfold phyWidth
    split
    · omega
    · split
      · omega
      · omega
  have hreg : regWidth m.state ≤ 5 := by
    unfold regWidth
    split
    · omega
    · split
      · omega
      · omega
  have h32 : (2 : Nat) ^ 5 = 32 := rfl
  refine ⟨?_, ?_⟩
  · have hle := Nat.pow_le_pow_right (show 0 < 2 by decide) hphy
    have hlt := h.phy
    omega
  · have hle := Nat.pow_le_pow_right (show 0 < 2 by decide) hreg
    have hlt := h.reg
    omega

theorem regWrite_eq (h : m.InBounds) : m.regWrite = some m.stored := if_pos h

/-! What a bit does in each kind of state. -/

section
variable (linked : Bool) (b : Bool)

theorem newbit_idle (h : m.state = 0) : m.newbit linked b =
    some ({ m with state := if b then 0 else 1, phy := 0, reg := 0, data := 0 }, none) :=
  if_pos h

theorem newbit_phy (h : (10 ≤ m.state ∧ m.state < 15) ∨ (20 ≤ m.state ∧ m.state < 25)) :
    m.newbit linked b =
      some ({ m with phy := shiftIn m.phy b, state := m.state + 1 }, none) := by
  unfold Mii.newbit
  rw [if_neg (by omega), if_neg (by omega), if_neg (by omega), if_neg (by omega),
    if_neg (by omega), if_pos h]

theorem newbit_regs (h : (15 ≤ m.state ∧ m.state < 20) ∨ (25 ≤ m.state ∧ m.state < 30)) :
    m.newbit linked b =
      if m.state = 19 then
        (Mii.regRead linked { m with reg := shiftIn m.reg b, state := m.state + 1 }).map fun val =>
          ({ m with reg := shiftIn m.reg b, state := 0 }, some (outbitsOf val))
      else some ({ m with reg := shiftIn m.reg b, state := m.state + 1 }, none) := by
  unfold Mii.newbit
  rw [if_neg (by omega), if_neg (by omega), if_neg (by omega), if_neg (by omega),
    if_neg (by omega), if_neg (by omega), if_pos h]
  by_cases h19 : m.state = 19
  · rw [if_pos h19]
    exact if_pos (show m.state + 1 = 20 by omega)
  · rw [if_neg h19]
    exact if_neg (show ¬ m.state + 1 = 20 by omega)

theorem newbit_data (h : 32 ≤ m.state ∧ m.state < 48) :
    m.newbit linked b =
      if m.state = 47 then
        (Mii.regWrite { m with data := shiftIn m.data b, state := m.state + 1 }).map fun m =>
          ({ m with state := 0 }, none)
      else some ({ m with data := shiftIn m.data b, state := m.state + 1 }, none) := by
  unfold Mii.newbit
  rw [if_neg (by omega), if_neg (by omega), if_neg (by omega), if_neg (by omega),
    if_neg (by omega), if_neg (by omega), if_neg (by omega), if_neg (by omega),
    if_neg (by omega), if_pos h]
  by_cases h47 : m.state = 47
  · rw [if_pos h47]
    exact if_pos (show m.state + 1 = 48 by omega)
  · rw [if_neg h47]
    exact if_neg (show ¬ m.state + 1 = 48 by omega)

/-- The state that a bit of the start, the operation or the turnaround leads to. -/
def turnTo (s : Nat) (b : Bool) : Nat :=
  if s = 1 then if b then 2 else 0
  else if s = 2 then if b then 3 else 4
  else if s = 3 then if b then 0 else 10
  else if s = 4 then if b then 20 else 0
  else if s = 30 then if b then 31 else 0
  else if b then 0 else 32

def TurnState (s : Nat) : Prop := (1 ≤ s ∧ s < 5) ∨ s = 30 ∨ s = 31

instance (s : Nat) : Decidable (TurnState s) := inferInstanceAs (Decidable (_ ∨ _))

theorem newbit_turn (h : TurnState m.state) :
    m.newbit linked b = some ({ m with state := turnTo m.state b }, none) := by
  unfold Mii.newbit turnTo
  by_cases h1 : m.state = 1
  · simp [h1]
  by_cases h2 : m.state = 2
  · simp [h2]
  by_cases h3 : m.state = 3
  · simp [h3]
  by_cases h4 : m.state = 4
  · simp [h4]
  by_cases h30 : m.state = 30
  · simp [h30]
  · have h31 : m.state = 31 := by
      unfold TurnState at h
      omega
    simp [h31]

end

theorem MiiOk.move (h : MiiOk m) {s : Nat} (hs : KnownState s)
    (hphy : phyWidth m.state ≤ phyWidth s) (hreg : regWidth m.state ≤ regWidth s) :
    MiiOk { m with state := s } where
  known := hs
  phy := Nat.lt_of_lt_of_le h.phy (Nat.pow_le_pow_right (by decide) hphy)
  reg := Nat.lt_of_lt_of_le h.reg (Nat.pow_le_pow_right (by decide) hreg)

theorem turnTo_widths {s : Nat} (h : TurnState s) (b : Bool) : KnownState (turnTo s b) ∧
    phyWidth s ≤ phyWidth (turnTo s b) ∧ regWidth s ≤ regWidth (turnTo s b) := by
  have hs : s = 1 ∨ s = 2 ∨ s = 3 ∨ s = 4 ∨ s = 30 ∨ s = 31 := by
    unfold TurnState at h
    omega
  unfold KnownState
  rcases hs with rfl | rfl | rfl | rfl | rfl | rfl <;> cases b <;> decide

theorem widths_phy {s : Nat} (h : (10 ≤ s ∧ s < 15) ∨ (20 ≤ s ∧ s < 25)) :
    phyWidth (s + 1) = phyWidth s + 1 ∧ regWidth (s + 1) = regWidth s := by
  have hall : ∀ s : Fin 48, (10 ≤ s.val ∧ s.val < 15) ∨ (20 ≤ s.val ∧ s.val < 25) →
      phyWidth (s.val + 1) = phyWidth s.val + 1 ∧ regWidth (s.val + 1) = regWidth s.val := by
    decide
  exact hall ⟨s, by omega⟩ h

theorem widths_regs {s : Nat} (h : (15 ≤ s ∧ s < 20) ∨ (25 ≤ s ∧ s < 30)) :
    phyWidth s = 5 ∧ regWidth s + 1 ≤ 5 ∧
      (s ≠ 19 → phyWidth (s + 1) = 5 ∧ regWidth (s + 1) = regWidth s + 1) := by
  have hall : ∀ s : Fin 48, (15 ≤ s.val ∧ s.val < 20) ∨ (25 ≤ s.val ∧ s.val < 30) →
      phyWidth s.val = 5 ∧ regWidth s.val + 1 ≤ 5 ∧
        (s.val ≠ 19 → phyWidth (s.val + 1) = 5 ∧ regWidth (s.val + 1) = regWidth s.val + 1) := by
    decide
  exact hall ⟨s, by omega⟩ h

theorem widths_data {s : Nat} (h : 30 ≤ s) : phyWidth s = 5 ∧ regWidth s = 5 :=
  ⟨if_pos (.inr h), if_pos (.inr h)⟩

/-- Every bit is understood, and leaves the numbers in their bounds. -/
theorem newbit_ok (h : MiiOk m) (linked b : Bool) :
    ∃ m' out, m.newbit linked b = some (m', out) ∧ MiiOk m' := by
  have hphy := h.phy
  have hreg := h.reg
  by_cases h0 : m.state = 0
  · rw [newbit_idle linked b h0]
    refine ⟨_, _, rfl, ?_, Nat.pow_pos (by decide), Nat.pow_pos (by decide)⟩
    cases b <;> simp [KnownState]
  by_cases hturn : TurnState m.state
  · rw [newbit_turn linked b hturn]
    obtain ⟨hs, hp, hr⟩ := turnTo_widths hturn b
    exact ⟨_, _, rfl, h.move hs hp hr⟩
  by_cases hp : (10 ≤ m.state ∧ m.state < 15) ∨ (20 ≤ m.state ∧ m.state < 25)
  · rw [newbit_phy linked b hp]
    obtain ⟨hwp, hwr⟩ := widths_phy hp
    refine ⟨_, _, rfl, ?_, ?_, ?_⟩
    · simp only [KnownState]
      omega
    · simp only [hwp]
      exact shiftIn_lt hphy b
    · simp only [hwr]
      exact hreg
  by_cases hr : (15 ≤ m.state ∧ m.state < 20) ∨ (25 ≤ m.state ∧ m.state < 30)
  · rw [newbit_regs linked b hr]
    obtain ⟨hwp, hle, hnext⟩ := widths_regs hr
    have hlt := shiftIn_lt hreg b
    rw [hwp] at hphy
    by_cases h19 : m.state = 19
    · rw [if_pos h19]
      have hlt32 : (shiftIn m.reg b).toNat < 2 ^ 5 :=
        Nat.lt_of_lt_of_le hlt (Nat.pow_le_pow_right (by decide) hle)
      have hval : ∃ val, Mii.regRead linked
          { m with reg := shiftIn m.reg b, state := m.state + 1 } = some val := by
        unfold Mii.regRead
        by_cases h1 : shiftIn m.reg b = 1
        · exact ⟨_, if_pos h1⟩
        · exact ⟨_, (if_neg h1).trans (if_pos ⟨hphy, hlt32⟩)⟩
      obtain ⟨val, hval⟩ := hval
      rw [hval]
      exact ⟨_, _, rfl, by simp [KnownState], hphy, hlt32⟩
    · rw [if_neg h19]
      obtain ⟨hwp', hwr'⟩ := hnext h19
      refine ⟨_, _, rfl, ?_, ?_, ?_⟩
      · simp only [KnownState]
        omega
      · simp only [hwp']
        exact hphy
      · simp only [hwr']
        exact hlt
  · have hknown := h.known
    have hd : 32 ≤ m.state ∧ m.state < 48 := by
      unfold KnownState at hknown
      unfold TurnState at hturn
      omega
    rw [newbit_data linked b hd]
    obtain ⟨hwp, hwr⟩ := widths_data (show 30 ≤ m.state by omega)
    rw [hwp] at hphy
    rw [hwr] at hreg
    by_cases h47 : m.state = 47
    · have hin : Mii.InBounds { m with data := shiftIn m.data b, state := m.state + 1 } :=
        ⟨hphy, hreg⟩
      rw [if_pos h47, regWrite_eq hin]
      exact ⟨_, _, rfl, by simp [KnownState], hphy, hreg⟩
    · rw [if_neg h47]
      obtain ⟨hwp', hwr'⟩ := widths_data (show 30 ≤ m.state + 1 by omega)
      refine ⟨_, _, rfl, ?_, ?_, ?_⟩
      · simp only [KnownState]
        omega
      · simp only [hwp']
        exact hphy
      · simp only [hwr']
        exact hreg

def Mii.newbits (linked : Bool) (m : Mii) : List Bool → Option Mii
  | [] => some m
  | b :: bits => (m.newbit linked b).bind fun r => newbits linked r.1 bits

theorem newbits_append (linked : Bool) (m : Mii) (bits bits' : List Bool) :
    m.newbits linked (bits ++ bits') = (m.newbits linked bits).bind (·.newbits linked bits') := by
  induction bits generalizing m with
  | nil => rfl
  | cons b bits ih =>
    rw [List.cons_append, Mii.newbits, Mii.newbits]
    cases m.newbit linked b with
    | none => rfl
    | some r => exact ih r.1

def nextState (s : Nat) (b : Bool) : Nat :=
  if s = 0 then if b then 0 else 1
  else if TurnState s then turnTo s b
  else if s = 19 ∨ s = 47 then 0
  else s + 1

def onesLeft (s : Nat) : Nat :=
  if s = 0 then 0
  else if s < 4 then 4 - s
  else if s = 4 then 13
  else if s < 20 then 20 - s
  else if s < 32 then 32 - s
  else 48 - s

theorem newbit_state {b : Bool} {out : Option (BitVec 32)} (h : MiiOk m)
    (hb : m.newbit linked b = some (m', out)) : m'.state = nextState m.state b := by
  unfold nextState
  by_cases h0 : m.state = 0
  · rw [newbit_idle linked b h0] at hb
    cases hb
    simp [h0]
  rw [if_neg h0]
  by_cases hturn : TurnState m.state
  · rw [newbit_turn linked b hturn] at hb
    cases hb
    simp [hturn]
  rw [if_neg hturn]
  by_cases hp : (10 ≤ m.state ∧ m.state < 15) ∨ (20 ≤ m.state ∧ m.state < 25)
  · rw [newbit_phy linked b hp] at hb
    cases hb
    exact (if_neg (by omega)).symm
  by_cases hr : (15 ≤ m.state ∧ m.state < 20) ∨ (25 ≤ m.state ∧ m.state < 30)
  · rw [newbit_regs linked b hr] at hb
    by_cases h19 : m.state = 19
    · rw [if_pos h19] at hb
      obtain ⟨val, -, heq⟩ := Option.map_eq_some_iff.mp hb
      cases heq
      exact (if_pos (.inl h19)).symm
    · rw [if_neg h19] at hb
      cases hb
      exact (if_neg (by omega)).symm
  · have hknown := h.known
    have hd : 32 ≤ m.state ∧ m.state < 48 := by
      unfold KnownState at hknown
      unfold TurnState at hturn
      omega
    rw [newbit_data linked b hd] at hb
    by_cases h47 : m.state = 47
    · rw [if_pos h47] at hb
      obtain ⟨m₁, -, heq⟩ := Option.map_eq_some_iff.mp hb
      cases heq
      exact (if_pos (.inr h47)).symm
    · rw [if_neg h47] at hb
      cases hb
      exact (if_neg (by omega)).symm

theorem onesLeft_next {s : Nat} (h : KnownState s) :
    onesLeft (nextState s true) = onesLeft s - 1 := by
  have hall : ∀ s : Fin 48, KnownState s.val →
      onesLeft (nextState s.val true) = onesLeft s.val - 1 := by
    decide
  unfold KnownState at h
  exact hall ⟨s, by omega⟩ h

theorem ones_idle (h : MiiOk m) (linked : Bool) {n : Nat} (hn : onesLeft m.state ≤ n) :
    ∃ m', m.newbits linked (List.replicate n true) = some m' ∧ MiiOk m' ∧ m'.state = 0 := by
  induction n generalizing m with
  | zero =>
    have hknown := h.known
    refine ⟨m, rfl, h, ?_⟩
    unfold onesLeft at hn
    unfold KnownState at hknown
    split at hn
    · assumption
    · split at hn
      · omega
      · split at hn
        · omega
        · split at hn
          · omega
          · split at hn
            · omega
            · omega
  | succ n ih =>
    obtain ⟨m₁, out, hb, hok⟩ := newbit_ok h linked true
    rw [List.replicate_succ, Mii.newbits, hb]
    refine ih hok ?_
    rw [newbit_state h hb, onesLeft_next h.known]
    omega

theorem ones_regs (h : m.state = 0) (linked : Bool) (n : Nat) :
    ∃ m', m.newbits linked (List.replicate n true) = some m' ∧ m'.state = 0 ∧
      m'.regs = m.regs := by
  induction n generalizing m with
  | zero => exact ⟨m, rfl, h, rfl⟩
  | succ n ih =>
    rw [List.replicate_succ, Mii.newbits, newbit_idle linked true h]
    obtain ⟨m', hrun, hs, hregs⟩ :=
      @ih { m with state := 0, phy := 0, reg := 0, data := 0 } rfl
    exact ⟨m', hrun, hs, hregs⟩

theorem push_phy (linked : Bool) (bits : List Bool)
    (h : (10 ≤ m.state ∧ m.state + bits.length ≤ 15) ∨
      (20 ≤ m.state ∧ m.state + bits.length ≤ 25)) :
    m.newbits linked bits =
      some { m with phy := pushBits m.phy bits, state := m.state + bits.length } := by
  induction bits generalizing m with
  | nil => rfl
  | cons b bits ih =>
    rw [List.length_cons] at h
    rw [Mii.newbits, newbit_phy linked b (by omega), Option.bind_some, ih (by simp only; omega)]
    simp [pushBits, Nat.add_assoc, Nat.add_comm 1]

theorem push_regs (linked : Bool) (bits : List Bool)
    (h : (15 ≤ m.state ∧ m.state + bits.length ≤ 19) ∨
      (25 ≤ m.state ∧ m.state + bits.length ≤ 30)) :
    m.newbits linked bits =
      some { m with reg := pushBits m.reg bits, state := m.state + bits.length } := by
  induction bits generalizing m with
  | nil => rfl
  | cons b bits ih =>
    rw [List.length_cons] at h
    rw [Mii.newbits, newbit_regs linked b (by omega), if_neg (by omega), Option.bind_some,
      ih (by simp only; omega)]
    simp [pushBits, Nat.add_assoc, Nat.add_comm 1]

theorem push_data (linked : Bool) (bits : List Bool)
    (h : 32 ≤ m.state ∧ m.state + bits.length ≤ 47) :
    m.newbits linked bits =
      some { m with data := pushBits m.data bits, state := m.state + bits.length } := by
  induction bits generalizing m with
  | nil => rfl
  | cons b bits ih =>
    rw [List.length_cons] at h
    rw [Mii.newbits, newbit_data linked b (by omega), if_neg (by omega), Option.bind_some,
      ih (by simp only; omega)]
    simp [pushBits, Nat.add_assoc, Nat.add_comm 1]

theorem start_run (h : m.state = 0) (linked w : Bool) :
    m.newbits linked [false, true, !w, w] =
      some { m with state := if w then 20 else 10, phy := 0, reg := 0, data := 0 } := by
  cases w <;> simp [Mii.newbits, Mii.newbit, h]

theorem numbers_run (linked : Bool) (phy : BitVec 5) (bits : List Bool)
    (h : (m.state = 10 ∧ bits.length = 4) ∨ (m.state = 20 ∧ bits.length = 5)) (hphy : m.phy = 0) :
    m.newbits linked (bitsMsb phy ++ bits) =
      some { m with
        phy := phy.setWidth 32
        reg := pushBits m.reg bits
        state := m.state + 5 + bits.length } := by
  rw [newbits_append, push_phy linked _ (by rw [length_bitsMsb]; omega), hphy, pushBits_bitsMsb,
    Option.bind_some, push_regs linked _ (by simp only [length_bitsMsb]; omega)]
  simp only [length_bitsMsb]

theorem exists_snoc {w : Nat} (x : BitVec (w + 1)) :
    ∃ init last, bitsMsb x = init ++ [last] ∧ init.length = w := by
  have hlen := length_bitsMsb x
  rcases List.eq_nil_or_concat (bitsMsb x) with hnil | ⟨init, last, heq⟩
  · simp [hnil] at hlen
  · rw [List.concat_eq_append] at heq
    refine ⟨init, last, heq, ?_⟩
    rw [heq] at hlen
    simpa using hlen

theorem toNat_setWidth_lt (x : BitVec 5) : (x.setWidth 32).toNat < 32 := by
  have hlt := x.isLt
  rw [BitVec.toNat_setWidth]
  omega

theorem setWidth_inj {w : Nat} (hw : w ≤ 32) {x y : BitVec w} :
    x.setWidth 32 = y.setWidth 32 ↔ x = y := by
  refine ⟨fun h => ?_, fun h => by rw [h]⟩
  have hnat := congrArg BitVec.toNat h
  have hx := x.isLt
  have hy := y.isLt
  have hpow : 2 ^ w ≤ 2 ^ 32 := Nat.pow_le_pow_right (by decide) hw
  rw [BitVec.toNat_setWidth, BitVec.toNat_setWidth] at hnat
  apply BitVec.eq_of_toNat_eq
  omega

theorem readFrame_run (h : m.state = 0) (linked : Bool) (phy reg : BitVec 5) :
    ∃ init last m₁ m' val, [false, true, true, false] ++ (bitsMsb phy ++ bitsMsb reg) =
        init ++ [last] ∧
      m.newbits linked init = some m₁ ∧
      m₁.newbit linked last = some (m', some (outbitsOf val)) ∧
      m'.state = 0 ∧ m'.regs = m.regs ∧
      (reg ≠ 1 → val = m.regs (phy.setWidth 32) (reg.setWidth 32)) := by
  obtain ⟨init, last, hreg, hlen⟩ := exists_snoc reg
  have hnum : shiftIn (pushBits 0 init) last = reg.setWidth 32 := by
    rw [← pushBits_bitsMsb reg, hreg, pushBits_append]
    rfl
  have hstart : m.newbits linked [false, true, true, false] =
      some { m with state := 10, phy := 0, reg := 0, data := 0 } := start_run h linked false
  let m₂ : Mii := { m with state := 20, phy := phy.setWidth 32, reg := reg.setWidth 32, data := 0 }
  have hval : ∃ val, m₂.regRead linked = some val ∧
      (reg ≠ 1 → val = m.regs (phy.setWidth 32) (reg.setWidth 32)) := by
    have hin : m₂.InBounds := ⟨toNat_setWidth_lt phy, toNat_setWidth_lt reg⟩
    unfold Mii.regRead
    by_cases h1 : m₂.reg = 1
    · have hstatus : reg = 1 := (setWidth_inj (by decide)).mp h1
      exact ⟨_, if_pos h1, fun hne => absurd hstatus hne⟩
    · exact ⟨_, (if_neg h1).trans (if_pos hin), fun _ => rfl⟩
  obtain ⟨val, hread, hval⟩ := hval
  refine ⟨[false, true, true, false] ++ (bitsMsb phy ++ init), last,
    { m with state := 19, phy := phy.setWidth 32, reg := pushBits 0 init, data := 0 },
    { m₂ with state := 0 }, val, ?_, ?_, ?_, rfl, rfl, hval⟩
  · rw [hreg]
    simp
  · rw [newbits_append, hstart, Option.bind_some,
      numbers_run linked phy init (.inl ⟨rfl, hlen⟩) rfl, hlen]
  · rw [newbit_regs linked last (by simp), if_pos rfl]
    simp only [hnum]
    rw [show Mii.regRead linked _ = some val from hread]
    rfl

theorem writeFrame_run (h : m.state = 0) (linked : Bool) (phy reg : BitVec 5) (val : BitVec 16) :
    ∃ m', m.newbits linked ([false, true, false, true] ++
        (bitsMsb phy ++ (bitsMsb reg ++ ([true, false] ++ bitsMsb val)))) = some m' ∧
      m'.state = 0 ∧ m'.regs = fun p r =>
        if p = phy.setWidth 32 ∧ r = reg.setWidth 32 then val else m.regs p r := by
  obtain ⟨init, last, hbits, hlen⟩ := exists_snoc val
  have hstart : m.newbits linked [false, true, false, true] =
      some { m with state := 20, phy := 0, reg := 0, data := 0 } := start_run h linked true
  have hdata : shiftIn (pushBits 0 init) last = val.setWidth 32 := by
    rw [← pushBits_bitsMsb val, hbits, pushBits_append]
    rfl
  have hturn (m : Mii) (hs : m.state = 30) :
      m.newbits linked [true, false] = some { m with state := 32 } := by
    simp [Mii.newbits, Mii.newbit, hs]
  rw [newbits_append, hstart, Option.bind_some, ← List.append_assoc, newbits_append,
    numbers_run linked phy _ (.inr ⟨rfl, length_bitsMsb reg⟩) rfl, Option.bind_some,
    newbits_append, hturn _ (by simp), Option.bind_some, hbits, newbits_append,
    push_data linked init (by simp only [hlen]; omega), Option.bind_some, pushBits_bitsMsb]
  have hin : Mii.InBounds { m with
      state := 48, phy := phy.setWidth 32, reg := reg.setWidth 32, data := val.setWidth 32 } :=
    ⟨toNat_setWidth_lt phy, toNat_setWidth_lt reg⟩
  rw [Mii.newbits, newbit_data linked last (by simp only [hlen]; omega),
    if_pos (by simp only [hlen])]
  simp only [hlen, hdata]
  rw [regWrite_eq hin]
  refine ⟨_, rfl, rfl, ?_⟩
  funext p r
  simp [Mii.stored]

def MiiFrame.apply (f : MiiFrame) (regs : BitVec 32 → BitVec 32 → BitVec 16) :
    BitVec 32 → BitVec 32 → BitVec 16 :=
  match f.write with
  | none => regs
  | some val => fun p r => if p = f.phy.setWidth 32 ∧ r = f.reg.setWidth 32 then val else regs p r

theorem frame_run (h : m.state = 0) (linked : Bool) (f : MiiFrame) :
    ∃ m', m.newbits linked f.bits = some m' ∧ m'.state = 0 ∧ m'.regs = f.apply m.regs := by
  obtain ⟨m₀, hrun, hs, hregs⟩ := ones_regs h linked f.preamble
  unfold MiiFrame.bits MiiFrame.apply
  rw [newbits_append, hrun, Option.bind_some, ← hregs]
  cases f.write with
  | some val => exact writeFrame_run hs linked f.phy f.reg val
  | none =>
    obtain ⟨init, last, m₁, m', val, hbits, hinit, hlast, hs', hregs', -⟩ :=
      readFrame_run hs linked f.phy f.reg
    refine ⟨m', ?_, hs', hregs'⟩
    simp only [hbits]
    rw [newbits_append, hinit, Option.bind_some, Mii.newbits, hlast]
    rfl

theorem frames_run (h : m.state = 0) (linked : Bool) (frames : List MiiFrame) (p r : BitVec 5)
    (hframes : ∀ f ∈ frames, f.write = none ∨ f.phy ≠ p ∨ f.reg ≠ r) :
    ∃ m', m.newbits linked (frames.flatMap MiiFrame.bits) = some m' ∧ m'.state = 0 ∧
      m'.regs (p.setWidth 32) (r.setWidth 32) = m.regs (p.setWidth 32) (r.setWidth 32) := by
  induction frames generalizing m with
  | nil => exact ⟨m, rfl, h, rfl⟩
  | cons f frames ih =>
    obtain ⟨m₁, hrun, hs, hregs⟩ := frame_run h linked f
    obtain ⟨m', hrun', hs', hregs'⟩ := ih hs fun f' hf => hframes f' (List.mem_cons_of_mem f hf)
    refine ⟨m', ?_, hs', ?_⟩
    · rw [List.flatMap_cons, newbits_append, hrun, Option.bind_some, hrun']
    · rw [hregs', hregs, MiiFrame.apply]
      cases hw : f.write with
      | none => rfl
      | some val =>
        have hne : ¬ (p.setWidth 32 = f.phy.setWidth 32 ∧ r.setWidth 32 = f.reg.setWidth 32) := by
          rw [setWidth_inj (by decide), setWidth_inj (by decide)]
          rintro ⟨rfl, rfl⟩
          have hf := hframes f List.mem_cons_self
          simp [hw] at hf
        simp only [if_neg hne]

/-! The writes of CSR9. -/

theorem csr9Write_ok (h : MiiOk c.mii) (data : BitVec 64) :
    ∃ c', csr9Write c data = some c' ∧ MiiOk c'.mii ∧ c'.linked = c.linked ∧
      c.mii.newbits c.linked (sentBits [data]) = some c'.mii := by
  unfold csr9Write sentBits
  cases hop : csr9Op data with
  | pop => exact ⟨_, rfl, h, rfl, by simp [hop, Mii.newbits]⟩
  | other => exact ⟨_, rfl, h, rfl, by simp [hop, Mii.newbits]⟩
  | bit b =>
    obtain ⟨m', out, hb, hok⟩ := newbit_ok h c.linked b
    simp only [hb, Option.map_some]
    exact ⟨_, rfl, hok, rfl, by simp [hop, Mii.newbits, hb]⟩

theorem sentBits_append (ws ws' : List (BitVec 64)) :
    sentBits (ws ++ ws') = sentBits ws ++ sentBits ws' :=
  List.filterMap_append

theorem csr9Writes_append (c : MiiChip) (ws ws' : List (BitVec 64)) :
    csr9Writes c (ws ++ ws') = (csr9Writes c ws).bind (csr9Writes · ws') := by
  unfold csr9Writes
  rw [List.foldlM_append]
  rfl

theorem csr9Writes_ok (h : MiiOk c.mii) (words : List (BitVec 64)) :
    ∃ c', csr9Writes c words = some c' ∧ MiiOk c'.mii ∧ c'.linked = c.linked ∧
      c.mii.newbits c.linked (sentBits words) = some c'.mii := by
  induction words generalizing c with
  | nil => exact ⟨c, rfl, h, rfl, rfl⟩
  | cons data words ih =>
    obtain ⟨c₁, hw, hok, hlinked, hbits⟩ := csr9Write_ok h data
    obtain ⟨c', hrun, hok', hlinked', hbits'⟩ := ih hok
    refine ⟨c', ?_, hok', hlinked'.trans hlinked, ?_⟩
    · unfold csr9Writes
      rw [List.foldlM_cons, hw]
      exact hrun
    · rw [← List.singleton_append, sentBits_append, newbits_append, hbits, Option.bind_some,
        ← hlinked, hbits']

theorem rxBit_pop {data : BitVec 64} (hop : csr9Op data = .pop) :
    ∃ c', csr9Write c data = some c' ∧ c'.outbits = c.outbits <<< 1 ∧
      decide (c'.csr9 &&& DEC21140_CSR9_RX_BIT ≠ 0) = c.outbits.msb := by
  unfold csr9Write
  simp only [hop]
  refine ⟨_, rfl, rfl, ?_⟩
  have hself (x : BitVec 32) : (x ||| DEC21140_CSR9_RX_BIT) &&& DEC21140_CSR9_RX_BIT ≠ 0 := by
    intro h
    have hbit := congrArg (BitVec.getLsbD · 19) h
    simp [DEC21140_CSR9_RX_BIT] at hbit
  have hclear (x : BitVec 32) : x &&& ~~~DEC21140_CSR9_RX_BIT &&& DEC21140_CSR9_RX_BIT = 0 := by
    rw [BitVec.and_assoc, show ~~~DEC21140_CSR9_RX_BIT &&& DEC21140_CSR9_RX_BIT = 0#32 by decide]
    exact BitVec.and_zero
  cases hmsb : c.outbits.msb with
  | true => simpa using hself _
  | false => simpa using hclear _

theorem rxBits_eq (words : List (BitVec 64)) (h : sentBits words = []) :
    rxBits c words = popBits (poppedBits words) c.outbits := by
  induction words generalizing c with
  | nil => rfl
  | cons data words ih =>
    rw [← List.singleton_append, sentBits_append, List.append_eq_nil_iff] at h
    obtain ⟨hdata, hwords⟩ := h
    rw [rxBits, poppedBits, List.countP_cons]
    cases hop : csr9Op data with
    | pop =>
      obtain ⟨c', hw, hout, hbit⟩ := @rxBit_pop c data hop
      simp only [hw, hbit, if_true, decide_true, popBits]
      rw [ih hwords, hout]
      rfl
    | bit b => simp [sentBits, hop] at hdata
    | other =>
      have hw : csr9Write c data = some { c with csr9 := data.setWidth 32 } := by
        unfold csr9Write
        rw [hop]
      simp only [hw, reduceCtorEq, decide_false, Bool.false_eq_true, if_false, Nat.add_zero]
      exact ih hwords

/-- The chip of `dev_dec21140_init`, whose memory is zero. -/
def MiiChip.create (linked : Bool) : MiiChip where
  mii := { state := 0, phy := 0, reg := 0, data := 0, regs := fun _ _ => 0 }
  outbits := 0
  csr9 := 0
  linked := linked

theorem miiOk_create (linked : Bool) : MiiOk (MiiChip.create linked).mii := by
  constructor <;> simp [MiiChip.create, KnownState, phyWidth, regWidth]

/-- A write of a register, frames that do not write it, and a read of it, in writes of
CSR9 among which others may stand. If a frame is under way, there are 16 ones first. -/
structure MiiExchange (c : MiiChip) where
  phy : BitVec 5
  reg : BitVec 5
  val : BitVec 16
  preamble : Nat
  frames : List MiiFrame
  readPreamble : Nat
  writeWords : List (BitVec 64)
  frameWords : List (BitVec 64)
  readWords : List (BitVec 64)
  lastWord : BitVec 64
  lastBit : Bool
  reg_ne : reg ≠ 1
  ready : c.mii.state = 0 ∨ 16 ≤ preamble
  frames_keep : ∀ f ∈ frames, f.write = none ∨ f.phy ≠ phy ∨ f.reg ≠ reg
  write_sent : sentBits writeWords = MiiFrame.bits ⟨preamble, phy, reg, some val⟩
  frames_sent : sentBits frameWords = frames.flatMap MiiFrame.bits
  read_sent : sentBits readWords ++ [lastBit] = MiiFrame.bits ⟨readPreamble, phy, reg, none⟩
  last_sent : csr9Op lastWord = .bit lastBit

def MiiExchange.words (x : MiiExchange c) : List (BitVec 64) :=
  x.writeWords ++ (x.frameWords ++ (x.readWords ++ [x.lastWord]))

theorem onesLeft_le {s : Nat} (h : KnownState s) : onesLeft s ≤ 16 := by
  have hall : ∀ s : Fin 48, onesLeft s.val ≤ 16 := by
    decide
  unfold KnownState at h
  exact hall ⟨s, by omega⟩

theorem writeFrame_sent (h : MiiOk m) (linked : Bool) (n : Nat) (phy reg : BitVec 5)
    (val : BitVec 16) (hready : m.state = 0 ∨ 16 ≤ n) :
    ∃ m', m.newbits linked (MiiFrame.bits ⟨n, phy, reg, some val⟩) = some m' ∧ m'.state = 0 ∧
      m'.regs (phy.setWidth 32) (reg.setWidth 32) = val := by
  have hle : onesLeft m.state ≤ n := by
    rcases hready with h0 | hn
    · simp [h0, onesLeft]
    · exact Nat.le_trans (onesLeft_le h.known) hn
  obtain ⟨m₀, hones, -, hs⟩ := ones_idle h linked hle
  obtain ⟨m', hrun, hs', hregs⟩ := writeFrame_run hs linked phy reg val
  refine ⟨m', ?_, hs', by simp [hregs]⟩
  unfold MiiFrame.bits
  rw [newbits_append, hones, Option.bind_some]
  exact hrun

theorem readFrame_sent (h : MiiOk c.mii) (hs : c.mii.state = 0) {n : Nat} {phy reg : BitVec 5}
    (hstatus : reg ≠ 1) {words : List (BitVec 64)} {lastWord : BitVec 64} {lastBit : Bool}
    (hsent : sentBits words ++ [lastBit] = MiiFrame.bits ⟨n, phy, reg, none⟩)
    (hlast : csr9Op lastWord = .bit lastBit) :
    ∃ c', csr9Writes c (words ++ [lastWord]) = some c' ∧
      c'.outbits = outbitsOf (c.mii.regs (phy.setWidth 32) (reg.setWidth 32)) := by
  obtain ⟨c₁, hrun, -, hlinked, hbits⟩ := csr9Writes_ok h words
  obtain ⟨m₀, hones, hs₀, hregs⟩ := ones_regs hs c.linked n
  obtain ⟨init, last, m₁, m', val, hframe, hinit, hbit, -, -, hval⟩ :=
    readFrame_run hs₀ c.linked phy reg
  have hsplit : sentBits words ++ [lastBit] = (List.replicate n true ++ init) ++ [last] := by
    rw [hsent, MiiFrame.bits, List.append_assoc, ← hframe]
  obtain ⟨hinit', hlast'⟩ := List.append_inj' hsplit rfl
  rw [List.cons.injEq] at hlast'
  rw [hinit', newbits_append, hones, Option.bind_some, hinit, Option.some.injEq] at hbits
  rw [hbits, ← hlast'.1] at hbit
  rw [hval hstatus, hregs] at hbit
  refine ⟨{ c₁ with
    csr9 := lastWord.setWidth 32
    mii := m'
    outbits := outbitsOf (c.mii.regs (phy.setWidth 32) (reg.setWidth 32)) }, ?_, rfl⟩
  rw [csr9Writes_append, hrun, Option.bind_some, csr9Writes, List.foldlM_cons, csr9Write]
  simp only [hlast, hlinked, hbit, Option.map_some, Option.getD_some]
  rfl

theorem exchange_run (h : MiiOk c.mii) (x : MiiExchange c) :
    ∃ c', csr9Writes c x.words = some c' ∧ c'.outbits = outbitsOf x.val := by
  obtain ⟨c₁, hw, hok₁, -, hbits₁⟩ := csr9Writes_ok h x.writeWords
  obtain ⟨m₁, hrun₁, hs₁, hval⟩ :=
    writeFrame_sent h c.linked x.preamble x.phy x.reg x.val x.ready
  rw [x.write_sent, hrun₁, Option.some.injEq] at hbits₁
  rw [hbits₁] at hs₁ hval
  obtain ⟨c₂, hf, hok₂, -, hbits₂⟩ := csr9Writes_ok hok₁ x.frameWords
  obtain ⟨m₂, hrun₂, hs₂, hkeep⟩ := frames_run hs₁ c₁.linked x.frames x.phy x.reg x.frames_keep
  rw [x.frames_sent, hrun₂, Option.some.injEq] at hbits₂
  rw [hbits₂] at hs₂ hkeep
  obtain ⟨c', hr, hout⟩ := readFrame_sent hok₂ hs₂ x.reg_ne x.read_sent x.last_sent
  refine ⟨c', ?_, ?_⟩
  · rw [MiiExchange.words, csr9Writes_append, hw, Option.bind_some, csr9Writes_append, hf,
      Option.bind_some, hr]
  · rw [hout, hkeep, hval]

theorem getMsbD_outbitsOf (val : BitVec 16) (i : Nat) (hi : i < 17) :
    (outbitsOf val).getMsbD i = (decide (1 ≤ i) && val.getMsbD (i - 1)) := by
  unfold outbitsOf
  rw [BitVec.getMsbD, BitVec.getMsbD, BitVec.getLsbD_shiftLeft, BitVec.getLsbD_setWidth]
  cases i with
  | zero =>
    rw [BitVec.getLsbD_of_ge val _ (by decide)]
    rfl
  | succ i =>
    simp [show 30 - i - 15 = 15 - i by omega, show ¬ 30 - i < 15 by omega,
      show i + 1 < 32 by omega, show 30 - i < 32 by omega, show 15 - i < 32 by omega,
      show i < 16 by omega]

theorem popBits_outbitsOf (val : BitVec 16) :
    popBits 17 (outbitsOf val) = false :: bitsMsb val := by
  rw [popBits_eq _ (by decide), List.range_succ_eq_map, List.map_cons, List.map_map, bitsMsb,
    getMsbD_outbitsOf val 0 (by decide), List.cons.injEq]
  refine ⟨rfl, List.map_congr_left fun i hi => ?_⟩
  have hlt := List.mem_range.mp hi
  rw [Function.comp_apply, getMsbD_outbitsOf val (i + 1) (by omega)]
  simp

/-- The PHY is safe under any writes of CSR9, and after any of them a value that is
written to a register comes out again behind one bit. -/
theorem mii_correct (linked : Bool) (words : List (BitVec 64)) :
    ∃ c, csr9Writes (MiiChip.create linked) words = some c ∧ KnownState c.mii.state ∧
      c.mii.InBounds ∧
      ∀ (x : MiiExchange c) (out : List (BitVec 64)), sentBits out = [] → poppedBits out = 17 →
        ∃ c', csr9Writes c x.words = some c' ∧ rxBits c' out = false :: bitsMsb x.val := by
  obtain ⟨c, hrun, hok, -, -⟩ := csr9Writes_ok (miiOk_create linked) words
  refine ⟨c, hrun, hok.known, hok.inBounds, fun x out hsent hpop => ?_⟩
  obtain ⟨c', hx, hout⟩ := exchange_run hok x
  refine ⟨c', hx, ?_⟩
  rw [rxBits_eq out hsent, hpop, hout, popBits_outbitsOf]

def sendBit (b : Bool) : BitVec 64 := if b then 0x32000 else 0x12000

def readWord : BitVec 64 := 0x54000

theorem csr9Op_sendBit (b : Bool) : csr9Op (sendBit b) = .bit b := by
  cases b <;> decide

theorem sentBits_sendBit (bits : List Bool) : sentBits (bits.map sendBit) = bits := by
  induction bits with
  | nil => rfl
  | cons b bits ih =>
    rw [List.map_cons, ← List.singleton_append, sentBits_append, ih]
    simp [sentBits, csr9Op_sendBit]

/-- 0x1234 to the register 4 of the PHY 1, with a read of its status in between. -/
def advertise (c : MiiChip) : MiiExchange c where
  phy := 1
  reg := 4
  val := 0x1234
  preamble := 16
  frames := [⟨0, 1, 1, none⟩]
  readPreamble := 0
  writeWords := (MiiFrame.bits ⟨16, 1, 4, some 0x1234⟩).map sendBit
  frameWords := (MiiFrame.bits ⟨0, 1, 1, none⟩).map sendBit
  readWords := (MiiFrame.bits ⟨0, 1, 4, none⟩).dropLast.map sendBit
  lastWord := sendBit false
  lastBit := false
  reg_ne := by decide
  ready := .inr (Nat.le_refl 16)
  frames_keep := by simp
  write_sent := sentBits_sendBit _
  frames_sent := (sentBits_sendBit _).trans (by simp)
  read_sent := by
    rw [sentBits_sendBit]
    decide
  last_sent := csr9Op_sendBit false

theorem mii_correct_advertise : ∃ c c', csr9Writes (MiiChip.create true) [] = some c ∧
    csr9Writes c (advertise c).words = some c' ∧
    rxBits c' (List.replicate 17 readWord) = false :: bitsMsb 0x1234#16 := by
  obtain ⟨c, hrun, -, -, h⟩ := mii_correct true []
  obtain ⟨c', hx, hbits⟩ := h (advertise c) (List.replicate 17 readWord) (by decide) (by decide)
  exact ⟨c, c', hrun, hx, hbits⟩

end Dynamips.Dec21140
