import Dynamips.Lib.Runs
import Dynamips.Utils

/-! The NMC93C46/NMC93C56 serial EEPROMs (nmc93cX6.c): a group of chips whose
select, clock and data pins are bits of one register. -/
set_option autoImplicit false

namespace Dynamips.Nmc93cX6

inductive EepromType where
  | nmc93c46
  | nmc93c56
deriving DecidableEq, Repr

inductive DoutStatus where
  | high
  | keep
deriving DecidableEq, Repr

inductive ChipState where
  | inactive
  | waitCmd
  | dataout
deriving DecidableEq, Repr

def NMC93C46_CMD_BITLEN : Nat := 9

def NMC93C56_CMD_BITLEN : Nat := 11

def NMC93CX6_CMD_DATALEN : Nat := 16

def NMC93CX6_CMD_READ : BitVec 32 := 0x1 ||| 0x2

/-- `nmc93cX6_eeprom_def`: the bits of the register that are the pins. -/
structure EepromDef where
  clockBit : Nat
  selectBit : Nat
  dinBit : Nat
  doutBit : Nat

structure EepromState where
  cmdLen : Nat
  cmdVal : BitVec 32
  state : ChipState
  dataoutPos : Nat
  dataoutVal : BitVec 32

/-- `cisco_eeprom`: its words, as many as `len` says. -/
structure CiscoEeprom where
  data : Option (List (BitVec 16))

structure Group where
  eepromType : EepromType
  nrEeprom : Nat
  eepromReg : BitVec 32
  reverseData : Bool
  doutStatus : DoutStatus
  defs : Fin 16 → EepromDef
  state : Fin 16 → EepromState
  eeprom : Fin 16 → Option CiscoEeprom

/-- `check_bit` of utils.h: 1 for a bit unset, 2 for a bit set. -/
def checkBit (old new : BitVec 32) (bit : Nat) : Nat :=
  let mask := 1#32 <<< bit
  if old &&& mask ≠ 0 ∧ new &&& mask = 0 then 1
  else if old &&& mask = 0 ∧ new &&& mask ≠ 0 then 2
  else 0

/-- `m_reverse_u8` of utils.c -/
def mReverseU8 (val : BitVec 8) : BitVec 8 :=
  (List.range 8).foldl
    (fun res i => if val &&& (1#8 <<< i) ≠ 0 then res ||| (1#8 <<< (7 - i)) else res) 0

def getCmdLen (g : Group) : Nat :=
  match g.eepromType with
  | .nmc93c46 => NMC93C46_CMD_BITLEN
  | .nmc93c56 => NMC93C56_CMD_BITLEN

def getAddr (g : Group) (cmd : BitVec 32) : Nat :=
  match g.eepromType with
  | .nmc93c46 => ((cmd >>> 3) &&& 0x3f).toNat
  | .nmc93c56 => (mReverseU8 (((cmd >>> 3) &&& 0xff).setWidth 8)).toNat

/-- The body of the loop in `nmc93cX6_check_cs` -/
def checkCs (g : Group) (i : Fin 16) (old new : BitVec 32) : EepromState :=
  let s := g.state i
  let s := if g.doutStatus = .high then { s with dataoutVal := 1 } else s
  let res := checkBit old new (g.defs i).selectBit
  if res ≠ 0 then
    { s with
      cmdLen := 0
      cmdVal := 0
      state := if res = 2 then .waitCmd else .inactive }
  else s

def nmc93cX6CheckCs (g : Group) (old new : BitVec 32) : Group :=
  { g with state := fun i => if i.val < g.nrEeprom then checkCs g i old new else g.state i }

def dataoutVal (g : Group) (i : Fin 16) (addr pos : Nat) : BitVec 32 :=
  let outOfBounds := 1#32 <<< pos
  match g.eeprom i with
  | none => outOfBounds
  | some eeprom =>
    match eeprom.data with
    | none => outOfBounds
    | some data =>
      if h : addr < data.length then data[addr].setWidth 32 &&& (1#32 <<< pos) else outOfBounds

/-- `nmc93cX6_check_clk_group` when the clock rises and a command is awaited. -/
def clockCmd (g : Group) (i : Fin 16) (new : BitVec 32) : EepromState :=
  let s := g.state i
  let din := new &&& (1#32 <<< (g.defs i).dinBit) ≠ 0
  if s.cmdLen = 0 ∧ ¬ din then s
  else
    let s := if din then { s with cmdVal := s.cmdVal ||| (1#32 <<< s.cmdLen) } else s
    let s := { s with cmdLen := s.cmdLen + 1 }
    if s.cmdLen = getCmdLen g then
      let s := { s with cmdLen := 0 }
      if s.cmdVal &&& 0x7 = NMC93CX6_CMD_READ then { s with state := .dataout, dataoutPos := 0 }
      else s
    else s

/-- `nmc93cX6_check_clk_group` when the clock rises and a word is read. -/
def clockDataout (g : Group) (i : Fin 16) : EepromState :=
  let s := g.state i
  let addr := getAddr g s.cmdVal
  let pos := if g.reverseData then 15 - s.dataoutPos else s.dataoutPos
  let s := { s with dataoutPos := s.dataoutPos + 1 }
  let s := { s with dataoutVal := dataoutVal g i addr pos }
  if s.dataoutPos = NMC93CX6_CMD_DATALEN then { s with state := .inactive, dataoutPos := 0 }
  else s

def nmc93cX6CheckClkGroup (g : Group) (i : Fin 16) (old new : BitVec 32) : EepromState :=
  if checkBit old new (g.defs i).clockBit ≠ 2 then g.state i
  else
    match (g.state i).state with
    | .waitCmd => clockCmd g i new
    | .dataout => clockDataout g i
    | .inactive => g.state i

def nmc93cX6CheckClk (g : Group) (old new : BitVec 32) : Group :=
  { g with
    state := fun i =>
      if i.val < g.nrEeprom then nmc93cX6CheckClkGroup g i old new else g.state i }

def nmc93cX6Write (g : Group) (data : BitVec 32) : Group :=
  let old := g.eepromReg
  let g := nmc93cX6CheckCs g old data
  let g := nmc93cX6CheckClk g old data
  { g with eepromReg := data }

def nmc93cX6GetDout (g : Group) (i : Fin 16) : BitVec 32 :=
  if (g.state i).dataoutVal ≠ 0 then 1#32 <<< (g.defs i).doutBit else 0

/-- What a chip does, told by its pins alone: nothing, taking a command (the
bits clocked in since the start bit, with `earlier` for the bits of the commands
completed since the chip was selected), or putting out the word of a READ. -/
inductive Phase where
  | idle
  | command (earlier : BitVec 32) (bits : List Bool)
  | reading (cmd : List Bool) (sent : Nat)
deriving DecidableEq, Repr

def commandOf (bits : List Bool) : BitVec 32 := (BitVec.ofBoolListLE bits).setWidth 32

def Phase.select (res : Nat) (p : Phase) : Phase :=
  if res = 0 then p else if res = 2 then .command 0 [] else .idle

def Phase.clock (len : Nat) (din : Bool) : Phase → Phase
  | .idle => .idle
  | .command earlier bits =>
    if bits = [] ∧ din = false then .command earlier []
    else if bits.length + 1 = len then
      if commandOf (bits ++ [din]) &&& 0x7 = NMC93CX6_CMD_READ then .reading (bits ++ [din]) 0
      else .command (earlier ||| commandOf (bits ++ [din])) []
    else .command earlier (bits ++ [din])
  | .reading cmd sent =>
    if sent + 1 = NMC93CX6_CMD_DATALEN then .idle else .reading cmd (sent + 1)

/-- The word at an address, all ones where the chip has none. -/
def addressedWord (g : Group) (i : Fin 16) (addr : Nat) : BitVec 16 :=
  ((g.eeprom i).bind fun eeprom => eeprom.data.bind fun data => data[addr]?).getD
    (BitVec.allOnes 16)

def dataBit (g : Group) (i : Fin 16) (cmd : List Bool) (sent : Nat) : Bool :=
  (addressedWord g i (getAddr g (commandOf cmd))).getLsbD
    (if g.reverseData then 15 - sent else sent)

def din (g : Group) (i : Fin 16) (new : BitVec 32) : Bool :=
  new &&& (1#32 <<< (g.defs i).dinBit) ≠ 0

def rises (g : Group) (i : Fin 16) (new : BitVec 32) : Bool :=
  checkBit g.eepromReg new (g.defs i).clockBit == 2

structure Watched where
  group : Group
  phase : Fin 16 → Phase

def Watched.selected (w : Watched) (new : BitVec 32) (i : Fin 16) : Phase :=
  (w.phase i).select (checkBit w.group.eepromReg new (w.group.defs i).selectBit)

def Watched.write (w : Watched) (new : BitVec 32) : Watched :=
  { group := nmc93cX6Write w.group new
    phase := fun i =>
      if rises w.group i new then
        (w.selected new i).clock (getCmdLen w.group) (din w.group i new)
      else w.selected new i }

/-- What is expected of a chip that the clock finds in state `s`, with `s'`
after it and `dout` on its data pin. -/
def ClockOk (g : Group) (i : Fin 16) (new : BitVec 32) (s s' : EepromState) (dout : BitVec 32) :
    Phase → Prop
  | .idle => s.state = .inactive ∧ s' = s
  | .command _ bits =>
    s.state = .waitCmd ∧ s.cmdLen = bits.length ∧ s.cmdLen < getCmdLen g ∧
    (rises g i new → bits.length + 1 = getCmdLen g →
      s'.cmdVal = commandOf (bits ++ [din g i new]))
  | .reading cmd sent =>
    s.state = .dataout ∧ s.dataoutPos = sent ∧ s.dataoutPos < NMC93CX6_CMD_DATALEN ∧
    (rises g i new →
      dout = if dataBit g i cmd sent then 1#32 <<< (g.defs i).doutBit else 0)

def WriteOk (w : Watched) (new : BitVec 32) : Prop :=
  ∀ i : Fin 16, i.val < w.group.nrEeprom →
    ClockOk w.group i new
      ((nmc93cX6CheckCs w.group w.group.eepromReg new).state i)
      ((nmc93cX6Write w.group new).state i)
      (nmc93cX6GetDout (nmc93cX6Write w.group new) i)
      (w.selected new i)

/-- A completed command has all the bits of the commands completed before it
since the chip was selected. -/
def NoStaleBits (w : Watched) (new : BitVec 32) : Prop :=
  ∀ i : Fin 16, i.val < w.group.nrEeprom → rises w.group i new → ∀ earlier bits,
    w.selected new i = .command earlier bits → bits.length + 1 = getCmdLen w.group →
    earlier &&& ~~~ commandOf (bits ++ [din w.group i new]) = 0

def start (g : Group) : Watched :=
  { group := { g with eepromReg := 0, state := fun _ => ⟨0, 0, .inactive, 0, 0⟩ }
    phase := fun _ => .idle }

def Sync (len : Nat) (s : EepromState) : Phase → Prop
  | .idle => s.state = .inactive
  | .command earlier bits =>
    s.state = .waitCmd ∧ s.cmdLen = bits.length ∧ bits.length < len ∧
    s.cmdVal = earlier ||| commandOf bits
  | .reading cmd sent =>
    s.state = .dataout ∧ s.cmdVal = commandOf cmd ∧ s.dataoutPos = sent ∧
    sent < NMC93CX6_CMD_DATALEN

variable {g : Group} {i : Fin 16} {old new : BitVec 32} {p : Phase}

theorem getCmdLen_pos (g : Group) : 1 < getCmdLen g ∧ getCmdLen g < 32 := by
  unfold getCmdLen
  cases g.eepromType with
  | nmc93c46 => simp [NMC93C46_CMD_BITLEN]
  | nmc93c56 => simp [NMC93C56_CMD_BITLEN]

theorem checkBit_cases (old new : BitVec 32) (bit : Nat) :
    checkBit old new bit = 0 ∨ checkBit old new bit = 1 ∨ checkBit old new bit = 2 := by
  simp only [checkBit]
  split
  · exact .inr (.inl rfl)
  · split
    · exact .inr (.inr rfl)
    · exact .inl rfl

theorem commandOf_nil : commandOf [] = 0 := by
  simp [commandOf, BitVec.ofBoolListLE]

theorem sync_checkCs (h : Sync (getCmdLen g) (g.state i) p) :
    Sync (getCmdLen g) (checkCs g i old new)
      (p.select (checkBit old new (g.defs i).selectBit)) := by
  unfold checkCs Phase.select
  have hpos := (getCmdLen_pos g).1
  rcases checkBit_cases old new (g.defs i).selectBit with hres | hres | hres
  · rw [hres]
    cases p with
    | idle => split <;> exact h
    | command earlier bits => split <;> exact h
    | reading cmd sent => split <;> exact h
  · rw [hres]
    simp [Sync]
  · rw [hres]
    simp [Sync, commandOf_nil]
    omega

theorem getLsbD_commandOf {bits : List Bool} {k : Nat} (hk : k < 32) :
    (commandOf bits).getLsbD k = bits.getD k false := by
  simp [commandOf, hk]

theorem commandOf_concat {bits : List Bool} {b : Bool} :
    commandOf (bits ++ [b]) = commandOf bits ||| if b then 1#32 <<< bits.length else 0 := by
  apply BitVec.eq_of_getLsbD_eq
  intro k hk
  rw [BitVec.getLsbD_or, getLsbD_commandOf hk, getLsbD_commandOf hk, List.getD_eq_getElem?_getD,
    List.getD_eq_getElem?_getD, List.getElem?_append]
  cases b with
  | false =>
    by_cases hl : k < bits.length
    · simp [hl]
    · simp only [if_neg hl, List.getElem?_singleton]
      split
      · simp [hl]
      · simp [hl]
  | true =>
    rcases Nat.lt_trichotomy k bits.length with hl | hl | hl
    · simp [hl]
    · simp [hl]
      omega
    · have hne : k - bits.length ≠ 0 := by omega
      simp [hne, show ¬ k < bits.length by omega]

def shiftIn (g : Group) (i : Fin 16) (new : BitVec 32) : BitVec 32 :=
  (g.state i).cmdVal ||| if din g i new then 1#32 <<< (g.state i).cmdLen else 0

theorem clockCmd_wait (hlen : (g.state i).cmdLen = 0) (hdin : din g i new = false) :
    clockCmd g i new = g.state i := by
  have hd : ¬ new &&& (1#32 <<< (g.defs i).dinBit) ≠ 0 := by simpa [din] using hdin
  simp only [clockCmd, if_pos (And.intro hlen hd)]

theorem clockCmd_eq (h : (g.state i).cmdLen ≠ 0 ∨ din g i new = true) :
    clockCmd g i new =
      if (g.state i).cmdLen + 1 = getCmdLen g then
        if shiftIn g i new &&& 0x7 = NMC93CX6_CMD_READ then
          { g.state i with
            cmdLen := 0, cmdVal := shiftIn g i new, state := .dataout, dataoutPos := 0 }
        else { g.state i with cmdLen := 0, cmdVal := shiftIn g i new }
      else { g.state i with cmdLen := (g.state i).cmdLen + 1, cmdVal := shiftIn g i new } := by
  cases hdin : din g i new with
  | true =>
    have hd : new &&& (1#32 <<< (g.defs i).dinBit) ≠ 0 := by simpa [din] using hdin
    have hstart : ¬ ((g.state i).cmdLen = 0 ∧ ¬ new &&& (1#32 <<< (g.defs i).dinBit) ≠ 0) :=
      fun hs => hs.2 hd
    simp only [clockCmd, if_neg hstart, if_pos hd, shiftIn, hdin, if_true]
  | false =>
    have hd : new &&& (1#32 <<< (g.defs i).dinBit) = 0 := by simpa [din] using hdin
    have hne : (g.state i).cmdLen ≠ 0 := by simpa [hdin] using h
    have hor : (g.state i).cmdVal ||| (0 : BitVec 32) = (g.state i).cmdVal := BitVec.or_zero
    simp only [clockCmd, hd, ne_eq, not_true_eq_false, hne, false_and, if_false, shiftIn, hdin,
      Bool.false_eq_true, hor]

theorem shiftIn_eq (new : BitVec 32) {earlier : BitVec 32} {bits : List Bool}
    (hlen : (g.state i).cmdLen = bits.length)
    (hval : (g.state i).cmdVal = earlier ||| commandOf bits) :
    shiftIn g i new = earlier ||| commandOf (bits ++ [din g i new]) := by
  rw [shiftIn, hlen, hval, commandOf_concat, BitVec.or_assoc]

theorem or_of_noStale {earlier cmd : BitVec 32} :
    earlier ||| cmd = cmd ↔ earlier &&& ~~~ cmd = 0 := by
  constructor
  · intro h
    apply BitVec.eq_of_getLsbD_eq
    intro k hk
    have hbit := congrArg (fun x => x.getLsbD k) h
    simp only [BitVec.getLsbD_or] at hbit
    cases he : earlier.getLsbD k with
    | false => simp [he]
    | true =>
      rw [he, Bool.true_or] at hbit
      simp [he, ← hbit]
  · intro h
    apply BitVec.eq_of_getLsbD_eq
    intro k hk
    have hbit := congrArg (fun x => x.getLsbD k) h
    cases he : earlier.getLsbD k with
    | false => simp [he]
    | true => simpa [he, hk] using hbit

theorem sync_clockCmd {earlier : BitVec 32} {bits : List Bool}
    (h : Sync (getCmdLen g) (g.state i) (.command earlier bits))
    (hstale : bits.length + 1 = getCmdLen g →
      earlier &&& ~~~ commandOf (bits ++ [din g i new]) = 0) :
    Sync (getCmdLen g) (clockCmd g i new)
      ((Phase.command earlier bits).clock (getCmdLen g) (din g i new)) := by
  obtain ⟨hstate, hlen, hlt, hval⟩ := h
  have hpos := (getCmdLen_pos g).1
  by_cases hwait : bits = [] ∧ din g i new = false
  · obtain ⟨rfl, hdin⟩ := hwait
    rw [clockCmd_wait hlen hdin, Phase.clock, if_pos ⟨rfl, hdin⟩]
    exact ⟨hstate, hlen, hlt, hval⟩
  · have hstart : (g.state i).cmdLen ≠ 0 ∨ din g i new = true := by
      rw [hlen, Ne, List.length_eq_zero_iff]
      cases hd : din g i new with
      | true => exact .inr rfl
      | false => exact .inl fun hb => hwait ⟨hb, hd⟩
    rw [clockCmd_eq hstart, Phase.clock, if_neg hwait, hlen]
    by_cases hfull : bits.length + 1 = getCmdLen g
    · have hshift : shiftIn g i new = commandOf (bits ++ [din g i new]) := by
        rw [shiftIn_eq new hlen hval, or_of_noStale]
        exact hstale hfull
      rw [if_pos hfull, if_pos hfull, hshift]
      by_cases hread : commandOf (bits ++ [din g i new]) &&& 0x7 = NMC93CX6_CMD_READ
      · rw [if_pos hread, if_pos hread]
        exact ⟨rfl, rfl, rfl, by decide⟩
      · rw [if_neg hread, if_neg hread]
        refine ⟨hstate, rfl, by rw [List.length_nil]; omega, ?_⟩
        rw [commandOf_nil, or_of_noStale.mpr (hstale hfull)]
        exact BitVec.or_zero.symm
    · rw [if_neg hfull, if_neg hfull]
      exact ⟨hstate, by simp, by simp; omega, shiftIn_eq new hlen hval⟩

theorem sync_clockDataout {cmd : List Bool} {sent : Nat} {len : Nat} {din : Bool}
    (h : Sync len (g.state i) (.reading cmd sent)) :
    Sync len (clockDataout g i) ((Phase.reading cmd sent).clock len din) := by
  obtain ⟨hstate, hcmd, hpos, hlt⟩ := h
  simp only [clockDataout, Phase.clock, hpos]
  by_cases hend : sent + 1 = NMC93CX6_CMD_DATALEN
  · rw [if_pos hend, if_pos hend]
    rfl
  · rw [if_neg hend, if_neg hend]
    exact ⟨hstate, hcmd, rfl, by omega⟩

theorem one_shiftLeft_ne_zero {pos : Nat} (h : pos < 16) : 1#32 <<< pos ≠ 0 := by
  intro heq
  have hbit := congrArg (fun x => x.getLsbD pos) heq
  simp at hbit
  omega

theorem word_and_shiftLeft {word : BitVec 16} {pos : Nat} (h : pos < 16) :
    word.setWidth 32 &&& (1#32 <<< pos) ≠ 0 ↔ word.getLsbD pos = true := by
  rw [← BitVec.twoPow_eq, BitVec.and_twoPow, BitVec.getLsbD_setWidth, BitVec.twoPow_eq]
  have hlt : pos < 32 := by omega
  cases hw : word.getLsbD pos with
  | false => simp
  | true => simpa [hlt] using one_shiftLeft_ne_zero h

theorem dataoutVal_ne_zero {addr pos : Nat} (h : pos < 16) :
    dataoutVal g i addr pos ≠ 0 ↔ (addressedWord g i addr).getLsbD pos = true := by
  have hones : (BitVec.allOnes 16).getLsbD pos = true := by
    rw [BitVec.getLsbD_allOnes]
    exact decide_eq_true h
  have hout := iff_of_true (one_shiftLeft_ne_zero h) hones
  unfold dataoutVal addressedWord
  cases he : g.eeprom i with
  | none => exact hout
  | some eeprom =>
    cases hd : eeprom.data with
    | none =>
      simp only [Option.bind_some, hd]
      exact hout
    | some data =>
      by_cases ha : addr < data.length
      · simpa [hd, ha] using @word_and_shiftLeft data[addr] _ h
      · have hnone : data[addr]? = none := List.getElem?_eq_none (by omega)
        simp only [Option.bind_some, hd, hnone, dif_neg ha]
        exact hout

theorem dout_clockDataout {cmd : List Bool} {sent : Nat} {len : Nat}
    (h : Sync len (g.state i) (.reading cmd sent)) :
    (clockDataout g i).dataoutVal ≠ 0 ↔ dataBit g i cmd sent = true := by
  obtain ⟨-, hcmd, hpos, hlt⟩ := h
  have hlt' : sent < 16 := hlt
  have hplace : (if g.reverseData then 15 - sent else sent) < 16 := by
    split
    · omega
    · exact hlt'
  unfold dataBit
  rw [← dataoutVal_ne_zero hplace]
  simp only [clockDataout, hcmd, hpos]
  by_cases hend : sent + 1 = NMC93CX6_CMD_DATALEN
  · rw [if_pos hend]
  · rw [if_neg hend]

def clocked (g : Group) (new : BitVec 32) : Group := nmc93cX6CheckCs g g.eepromReg new

theorem state_clocked (hi : i.val < g.nrEeprom) :
    (clocked g new).state i = checkCs g i g.eepromReg new := by
  simp only [clocked, nmc93cX6CheckCs, if_pos hi]

theorem state_write (new : BitVec 32) (hi : i.val < g.nrEeprom) :
    (nmc93cX6Write g new).state i =
      nmc93cX6CheckClkGroup (clocked g new) i g.eepromReg new := by
  have hi' : i.val < (nmc93cX6CheckCs g g.eepromReg new).nrEeprom := hi
  simp only [nmc93cX6Write, nmc93cX6CheckClk, if_pos hi', clocked]

theorem checkClkGroup_low (h : rises g i new = false) :
    nmc93cX6CheckClkGroup (clocked g new) i g.eepromReg new = (clocked g new).state i := by
  have hne : checkBit g.eepromReg new ((clocked g new).defs i).clockBit ≠ 2 := by
    change checkBit g.eepromReg new (g.defs i).clockBit ≠ 2
    simpa [rises] using h
  simp only [nmc93cX6CheckClkGroup, if_pos hne]

theorem checkClkGroup_rises (h : rises g i new = true) :
    nmc93cX6CheckClkGroup (clocked g new) i g.eepromReg new =
      match ((clocked g new).state i).state with
      | .waitCmd => clockCmd (clocked g new) i new
      | .dataout => clockDataout (clocked g new) i
      | .inactive => (clocked g new).state i := by
  have heq : ¬ checkBit g.eepromReg new ((clocked g new).defs i).clockBit ≠ 2 := by
    change ¬ checkBit g.eepromReg new (g.defs i).clockBit ≠ 2
    simpa [rises] using h
  simp only [nmc93cX6CheckClkGroup, if_neg heq]

def Unstale (g : Group) (i : Fin 16) (new : BitVec 32) (p : Phase) : Prop :=
  rises g i new → ∀ earlier bits, p = .command earlier bits →
    bits.length + 1 = getCmdLen g → earlier &&& ~~~ commandOf (bits ++ [din g i new]) = 0

theorem sync_write (hi : i.val < g.nrEeprom)
    (h : Sync (getCmdLen g) ((clocked g new).state i) p) (hok : Unstale g i new p) :
    Sync (getCmdLen g) ((nmc93cX6Write g new).state i)
      (if rises g i new then p.clock (getCmdLen g) (din g i new) else p) := by
  rw [state_write new hi]
  cases hr : rises g i new with
  | false =>
    rw [checkClkGroup_low hr]
    exact h
  | true =>
    rw [checkClkGroup_rises hr, if_pos rfl]
    cases p with
    | idle =>
      have hstate : ((clocked g new).state i).state = .inactive := h
      rw [hstate]
      exact h
    | command earlier bits =>
      rw [h.1]
      exact sync_clockCmd h (hok hr earlier bits rfl)
    | reading cmd sent =>
      rw [h.1]
      exact sync_clockDataout h

theorem clockOk_iff (hi : i.val < g.nrEeprom)
    (h : Sync (getCmdLen g) ((clocked g new).state i) p) :
    ClockOk g i new ((clocked g new).state i) ((nmc93cX6Write g new).state i)
      (nmc93cX6GetDout (nmc93cX6Write g new) i) p ↔ Unstale g i new p := by
  have hwrite := state_write new hi
  cases p with
  | idle =>
    have hstate : ((clocked g new).state i).state = .inactive := h
    refine iff_of_true ⟨hstate, ?_⟩ fun _ _ _ hp => by cases hp
    rw [hwrite]
    cases hr : rises g i new with
    | false => exact checkClkGroup_low hr
    | true => rw [checkClkGroup_rises hr, hstate]
  | command earlier bits =>
    obtain ⟨hstate, hlen, hlt, hval⟩ := h
    have hfull : rises g i new = true → bits.length + 1 = getCmdLen g →
        ((nmc93cX6Write g new).state i).cmdVal =
          earlier ||| commandOf (bits ++ [din g i new]) := by
      intro hr hfull
      have hpos := (getCmdLen_pos g).1
      have hne : ((clocked g new).state i).cmdLen ≠ 0 := by omega
      have hfull' : ((clocked g new).state i).cmdLen + 1 = getCmdLen (clocked g new) := by
        rw [hlen]
        exact hfull
      rw [hwrite, checkClkGroup_rises hr, hstate]
      simp only [clockCmd_eq (.inl hne), if_pos hfull']
      have hshift := shiftIn_eq new hlen hval
      split
      · exact hshift
      · exact hshift
    constructor
    · intro hok hr e b hp hb
      cases hp
      have hdecoded := hok.2.2.2 hr hb
      rw [hfull hr hb, or_of_noStale] at hdecoded
      exact hdecoded
    · intro hok
      refine ⟨hstate, hlen, by omega, fun hr hb => ?_⟩
      rw [hfull hr hb, or_of_noStale]
      exact hok hr earlier bits rfl hb
  | reading cmd sent =>
    obtain ⟨hstate, hcmd, hpos, hlt⟩ := h
    refine iff_of_true ⟨hstate, hpos, by omega, fun hr => ?_⟩ fun _ _ _ hp => by cases hp
    have hdout := @dout_clockDataout (clocked g new) i cmd sent (getCmdLen g)
      ⟨hstate, hcmd, hpos, hlt⟩
    unfold nmc93cX6GetDout
    rw [hwrite, checkClkGroup_rises hr, hstate]
    simp only [hdout]
    rfl

theorem watched_sync {w : Watched}
    (h : ∀ i : Fin 16, i.val < w.group.nrEeprom →
      Sync (getCmdLen w.group) (w.group.state i) (w.phase i))
    (hi : i.val < w.group.nrEeprom) :
    Sync (getCmdLen w.group) ((clocked w.group new).state i) (w.selected new i) := by
  rw [state_clocked hi]
  exact sync_checkCs (h i hi)

/-- Over every sequence of writes: each one does what is expected if and only
if no command is completed without a bit that an earlier command of the same
selection left behind. -/
theorem writes_ok_iff (g : Group) (writes : List (BitVec 32)) :
    Runs.AllSteps WriteOk (Runs.history Watched.write (start g) writes) ↔
      Runs.AllSteps NoStaleBits (Runs.history Watched.write (start g) writes) := by
  refine Runs.allSteps_history_iff
    (P := fun w => ∀ i : Fin 16, i.val < w.group.nrEeprom →
      Sync (getCmdLen w.group) (w.group.state i) (w.phase i)) ?_ ?_ ?_ writes
  · intro w new h hok i hi
    have hi : i.val < w.group.nrEeprom := hi
    exact sync_write hi (watched_sync h hi) (hok i hi)
  · intro w new h
    constructor
    · intro hok i hi
      exact (clockOk_iff hi (watched_sync h hi)).mp (hok i hi)
    · intro hok i hi
      exact (clockOk_iff hi (watched_sync h hi)).mpr (hok i hi)
  · intro i hi
    rfl

def board : Group :=
  { eepromType := .nmc93c46
    nrEeprom := 1
    eepromReg := 0
    reverseData := false
    doutStatus := .high
    defs := fun _ => ⟨1, 2, 0, 3⟩
    state := fun _ => ⟨0, 0, .inactive, 0, 0⟩
    eeprom := fun _ => none }

/-- The writes that clock some bits into the selected chip of that board. -/
def clockIn (bits : List Bool) : List (BitVec 32) :=
  bits.flatMap fun b => if b then [0x5, 0x7] else [0x4, 0x6]

/-- An ERASE of the address with all bits set, and the start of a WRDS whose
last bit is missing. -/
def eraseThenWrds : List (BitVec 32) :=
  0x4 :: clockIn (List.replicate 9 true ++ true :: List.replicate 7 false) ++ [0x4]

/-- The bits of the first command are still in the second. -/
theorem not_writes_ok :
    ¬ ∀ (g : Group) (writes : List (BitVec 32)),
      Runs.AllSteps WriteOk (Runs.history Watched.write (start g) writes) := by
  intro h
  have hruns := h board (eraseThenWrds ++ [0x6])
  rw [Runs.history_snoc, Runs.allSteps_snoc] at hruns
  have hchip := hruns.2 0 (by decide)
  have hphase : (eraseThenWrds.foldl Watched.write (start board)).selected 0x6 0 =
      .command 0x1ff (true :: List.replicate 7 false) := by decide
  rw [hphase] at hchip
  have hdecoded := hchip.2.2.2 (by decide) (by decide)
  revert hdecoded
  decide

end Dynamips.Nmc93cX6
