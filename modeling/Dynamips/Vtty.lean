import Dynamips.Lib.Filters
import Dynamips.Lib.Ring
import Dynamips.Lib.Runs

/-! The input of a virtual terminal (dev_vtty.c): the automaton that reads the
bytes of a connection and the ring that the CPU takes its characters from. -/
set_option autoImplicit false

namespace Dynamips.Vtty

open Filters RingBuffer Runs

abbrev Byte := BitVec 8

def VTTY_BUFFER_SIZE : Nat := 4096

def IAC : Byte := 255

def DONT : Byte := 254

def DO : Byte := 253

def WONT : Byte := 252

def WILL : Byte := 251

def SB : Byte := 250

def SE : Byte := 240

def TELOPT_TTYPE : Byte := 24

def TELQUAL_IS : Byte := 0

def TELQUAL_SEND : Byte := 1

inductive InputState where
  | text | vt1 | vt2 | remote | telnet | telnetIyou | telnetSb1 | telnetSb2 | telnetSbTtype
  | telnetNext
deriving DecidableEq, Repr

/-- The fields of `vtty_t` that the input uses. -/
structure VirtualTty where
  terminalSupport : Bool
  inputState : InputState
  telnetCmd : Byte
  telnetOpt : Byte
  telnetQual : Byte
  inputPending : Bool
  buffer : Nat → Byte
  readPtr : Nat
  writePtr : Nat

inductive Effect where
  | store (c : Byte)
  | putChar (c : Byte)
  | title
  | command (c : Byte)
deriving DecidableEq, Repr

/-- `vtty_store`; none where the index has left the buffer. -/
def vttyStore (v : VirtualTty) (c : Byte) : Option VirtualTty :=
  let nwptr := if v.writePtr + 1 = VTTY_BUFFER_SIZE then 0 else v.writePtr + 1
  if nwptr = v.readPtr then some v
  else if v.writePtr < VTTY_BUFFER_SIZE then
    some { v with buffer := Function.update v.buffer v.writePtr c, writePtr := nwptr }
  else none

def vttyGetChar (v : VirtualTty) : Option (VirtualTty × Option Byte) :=
  if v.readPtr = v.writePtr then some (v, none)
  else if v.readPtr < VTTY_BUFFER_SIZE then
    some ({ v with
      readPtr := if v.readPtr + 1 = VTTY_BUFFER_SIZE then 0 else v.readPtr + 1 },
      some (v.buffer v.readPtr))
  else none

/-- `remote_control`, as far as the terminal sees it. -/
def remoteControl (c : Byte) : List Effect :=
  if c = 0x1d ∨ c = 0xb3 then [.store c] else [.command c]

def vttyProcessInput (ctrlCodeOk : Bool) (v : VirtualTty) (c : Byte) : VirtualTty × List Effect :=
  let v := { v with inputPending := true }
  if !v.terminalSupport then (v, [.store c])
  else
    match v.inputState with
    | .text =>
      if c = 0x1b then ({ v with inputState := .vt1 }, [])
      else if c = 0x1d ∨ c = 0xb3 then
        if ctrlCodeOk then ({ v with inputState := .remote }, []) else (v, [.store c])
      else if c = IAC then ({ v with inputState := .telnet }, [])
      else if c = 0 ∨ c = 10 then (v, [])
      else (v, [.store c])
    | .vt1 =>
      if c = 0x5b then ({ v with inputState := .vt2 }, [])
      else ({ v with inputState := .text }, [.store 0x1b, .store c])
    | .vt2 =>
      ({ v with inputState := .text },
        if c = 0x41 then [.store 16]
        else if c = 0x42 then [.store 14]
        else if c = 0x43 then [.store 6]
        else if c = 0x44 then [.store 2]
        else [.store 0x5b, .store 0x1b, .store c])
    | .remote => ({ v with inputState := .text }, remoteControl c)
    | .telnet =>
      let v := { v with telnetCmd := c }
      if c = WILL ∨ c = WONT ∨ c = DO ∨ c = DONT then ({ v with inputState := .telnetIyou }, [])
      else if c = SB then ({ v with inputState := .telnetSb1 }, [])
      else if c = IAC then ({ v with inputState := .text }, [.store IAC])
      else ({ v with inputState := .text }, [])
    | .telnetIyou =>
      ({ v with telnetOpt := c, inputState := .text },
        if v.telnetCmd = WILL ∧ c = TELOPT_TTYPE then
          [.putChar IAC, .putChar SB, .putChar TELOPT_TTYPE, .putChar TELQUAL_SEND, .putChar IAC,
            .putChar SE]
        else [])
    | .telnetSb1 => ({ v with telnetOpt := c, inputState := .telnetSb2 }, [])
    | .telnetSb2 =>
      ({ v with
        telnetQual := c
        inputState := if v.telnetOpt = TELOPT_TTYPE ∧ c = TELQUAL_IS then .telnetSbTtype
          else .telnetNext }, [])
    | .telnetSbTtype =>
      ({ v with inputState := .telnetNext },
        if c = 0x78 ∨ c = 0x58 ∨ c = 0x76 ∨ c = 0x56 then [.title] else [])
    | .telnetNext => (if c = IAC then { v with inputState := .telnet } else v, [])

inductive TelnetState where
  | data | iac | opt | sub | subIac
deriving DecidableEq, Repr

/-- The data of a telnet connection: its commands and subnegotiations are
removed, and IAC IAC is the byte 255. -/
def telnet : Filter Byte Byte TelnetState
  | .data, c => if c = IAC then (.iac, []) else (.data, [c])
  | .iac, c =>
    if c = IAC then (.data, [IAC])
    else if c = WILL ∨ c = WONT ∨ c = DO ∨ c = DONT then (.opt, [])
    else if c = SB then (.sub, [])
    else (.data, [])
  | .opt, _ => (.data, [])
  | .sub, c => (if c = IAC then .subIac else .sub, [])
  | .subIac, c => (if c = SE then .data else .sub, [])

inductive KeyState where
  | text | esc | csi | console
deriving DecidableEq, Repr

/-- The characters of a keyboard: NUL and LF are dropped, the arrows become
control characters, and the other escape sequences stay. Where the console has
its control key, the key takes the next character, which is the console's
unless it is the key again. -/
def keys (ctrlCodeOk : Bool) : Filter Byte Byte KeyState
  | .text, c =>
    if c = 0x1b then (.esc, [])
    else if (c = 0x1d ∨ c = 0xb3) ∧ ctrlCodeOk then (.console, [])
    else if c = 0 ∨ c = 10 then (.text, [])
    else (.text, [c])
  | .esc, c => if c = 0x5b then (.csi, []) else (.text, [0x1b, c])
  | .csi, c =>
    (.text,
      if c = 0x41 then [16]
      else if c = 0x42 then [14]
      else if c = 0x43 then [6]
      else if c = 0x44 then [2]
      else [0x1b, 0x5b, c])
  | .console, c => (.text, if c = 0x1d ∨ c = 0xb3 then [c] else [])

def reference (ctrlCodeOk : Bool) (input : List Byte) : (TelnetState × KeyState) × List Byte :=
  run (comp telnet (keys ctrlCodeOk)) (.data, .text) input

/-- The terminal, its input thread and its reader. `unread` is the rest of a read,
`todo` what is left to do for the last byte of `input`; `offered` has each
character that was stored or dropped, with the number that were pending. -/
structure Config where
  vtty : VirtualTty
  unread : List Byte
  todo : List Effect
  input : List Byte
  offered : List (Byte × Nat)
  delivered : List Byte

inductive Event where
  | read (bytes : List Byte)
  | process
  | perform
  | getChar
deriving Repr

def VirtualTty.pending (v : VirtualTty) : Nat := count VTTY_BUFFER_SIZE v.readPtr v.writePtr

def VirtualTty.contents (v : VirtualTty) : List Byte :=
  RingBuffer.contents VTTY_BUFFER_SIZE v.buffer v.readPtr v.writePtr

def performEffect (s : Config) (rest : List Effect) : Effect → Option Config
  | .store c => (vttyStore s.vtty c).map fun v =>
    { s with vtty := v, todo := rest, offered := s.offered ++ [(c, s.vtty.pending)] }
  | _ => some { s with todo := rest }

/-- A step of the input thread or of a reader; none where it is not enabled or an
index has left the buffer. -/
def step (ctrlCodeOk : Bool) (s : Config) : Event → Option Config
  | .read bytes => if s.unread = [] ∧ s.todo = [] then some { s with unread := bytes } else none
  | .process =>
    match s.unread, s.todo with
    | c :: unread, [] =>
      let r := vttyProcessInput ctrlCodeOk s.vtty c
      some { s with vtty := r.1, unread := unread, todo := r.2, input := s.input ++ [c] }
    | _, _ => none
  | .perform =>
    match s.todo with
    | [] => none
    | e :: rest => performEffect s rest e
  | .getChar => (vttyGetChar s.vtty).map fun r =>
    { s with vtty := r.1, delivered := s.delivered ++ r.2.toList }

def stores (effects : List Effect) : List Byte :=
  effects.filterMap fun
    | .store c => some c
    | _ => none

/-- What the input is to be in every state: the indices are in the buffer, the
characters offered and still to be stored are those of the reference filter, and
those delivered and pending are the offered ones that found room. -/
structure Filtered (ctrlCodeOk : Bool) (s : Config) : Prop where
  readPtr_lt : s.vtty.readPtr < VTTY_BUFFER_SIZE
  writePtr_lt : s.vtty.writePtr < VTTY_BUFFER_SIZE
  offered : s.offered.map Prod.fst ++ stores s.todo = (reference ctrlCodeOk s.input).2
  delivered : s.delivered ++ s.vtty.contents =
    (s.offered.filter fun x => x.2 < VTTY_BUFFER_SIZE - 1).map Prod.fst

/-- The bytes that the automaton has a place for: no telnet command within an
escape sequence or as the option of a subnegotiation, only the four arrows after
ESC [, and only SE after IAC in a subnegotiation. -/
def Regular (v : VirtualTty) (c : Byte) : Prop :=
  match v.inputState with
  | .vt1 | .remote | .telnetSb1 | .telnetSb2 | .telnetSbTtype => c ≠ IAC
  | .vt2 => c = 0x41 ∨ c = 0x42 ∨ c = 0x43 ∨ c = 0x44
  | .telnet => v.telnetCmd = SB → c = SE
  | .text | .telnetIyou | .telnetNext => True

def RegularStep (s : Config) : Event → Prop
  | .process =>
    match s.unread with
    | c :: _ => Regular s.vtty c
    | [] => True
  | _ => True

def follows (cmd : Byte) : InputState → TelnetState × KeyState
  | .text => (.data, .text)
  | .vt1 => (.data, .esc)
  | .vt2 => (.data, .csi)
  | .remote => (.data, .console)
  | .telnet => (if cmd = SB then .subIac else .iac, .text)
  | .telnetIyou => (.opt, .text)
  | .telnetSb1 | .telnetSb2 | .telnetSbTtype | .telnetNext => (.sub, .text)

def InputState.inSub : InputState → Bool
  | .telnetSb1 | .telnetSb2 | .telnetSbTtype | .telnetNext => true
  | _ => false

structure Matches (v : VirtualTty) (t : TelnetState × KeyState) : Prop where
  support : v.terminalSupport = true
  state : follows v.telnetCmd v.inputState = t
  cmd : v.inputState ≠ .telnet → (v.inputState.inSub = true ↔ v.telnetCmd = SB)

theorem matches_iff {v : VirtualTty} {t : TelnetState × KeyState} : Matches v t ↔
    v.terminalSupport = true ∧ follows v.telnetCmd v.inputState = t ∧
      (v.inputState ≠ .telnet → (v.inputState.inSub = true ↔ v.telnetCmd = SB)) :=
  ⟨fun h => ⟨h.1, h.2, h.3⟩, fun h => ⟨h.1, h.2.1, h.2.2⟩⟩

theorem vttyProcessInput_matches {ctrlCodeOk : Bool} {v : VirtualTty} {c : Byte}
    {t : TelnetState × KeyState} (h : Matches v t) (hc : Regular v c) :
    Matches (vttyProcessInput ctrlCodeOk v c).1 (comp telnet (keys ctrlCodeOk) t c).1 ∧
      stores (vttyProcessInput ctrlCodeOk v c).2 = (comp telnet (keys ctrlCodeOk) t c).2 := by
  obtain ⟨support, inputState, cmd, opt, qual, pend, buffer, r, w⟩ := v
  obtain ⟨hs, rfl, hcmd⟩ := h
  dsimp only at hs hcmd hc ⊢
  subst hs
  rw [matches_iff]
  cases inputState with
  | text =>
    have hsb : cmd ≠ SB := by simpa [InputState.inSub] using hcmd
    by_cases hiac : c = IAC
    · subst hiac
      simp [vttyProcessInput, follows, comp, telnet, IAC, hsb, stores]
    · simp only [vttyProcessInput, follows, comp, telnet, hiac, if_false, run_singleton, keys]
      by_cases h1 : c = 0x1b#8
      · simp [h1, stores, InputState.inSub, hsb]
      · by_cases h2 : c = 0x1d#8 ∨ c = 0xb3#8
        · cases ctrlCodeOk with
          | true => simp [h1, h2, stores, InputState.inSub, hsb]
          | false =>
            rcases h2 with rfl | rfl
            · simp [stores, InputState.inSub, hsb]
            · simp [stores, InputState.inSub, hsb]
        · by_cases h3 : c = 0#8 ∨ c = 10#8
          · simp [h1, h2, h3, stores, InputState.inSub, hsb]
          · simp [h1, h2, h3, stores, InputState.inSub, hsb]
  | vt1 =>
    have hsb : cmd ≠ SB := by simpa [InputState.inSub] using hcmd
    have hiac : c ≠ IAC := hc
    simp only [vttyProcessInput, follows, comp, telnet, hiac, if_false, run_singleton, keys]
    by_cases h1 : c = 0x5b#8
    · simp [h1, stores, InputState.inSub, hsb]
    · simp [h1, stores, InputState.inSub, hsb]
  | vt2 =>
    have hsb : cmd ≠ SB := by simpa [InputState.inSub] using hcmd
    rcases hc with rfl | rfl | rfl | rfl
    · simp [vttyProcessInput, follows, comp, telnet, keys, IAC, stores, InputState.inSub, hsb]
    · simp [vttyProcessInput, follows, comp, telnet, keys, IAC, stores, InputState.inSub, hsb]
    · simp [vttyProcessInput, follows, comp, telnet, keys, IAC, stores, InputState.inSub, hsb]
    · simp [vttyProcessInput, follows, comp, telnet, keys, IAC, stores, InputState.inSub, hsb]
  | remote =>
    have hsb : cmd ≠ SB := by simpa [InputState.inSub] using hcmd
    have hiac : c ≠ IAC := hc
    simp only [vttyProcessInput, follows, comp, telnet, hiac, if_false, run_singleton, keys]
    by_cases h1 : c = 0x1d#8 ∨ c = 0xb3#8
    · simp [h1, stores, remoteControl, InputState.inSub, hsb]
    · simp [h1, stores, remoteControl, InputState.inSub, hsb]
  | telnet =>
    by_cases hsub : cmd = SB
    · obtain rfl : c = SE := hc hsub
      simp [vttyProcessInput, follows, comp, telnet, hsub, stores, InputState.inSub, SE, WILL, WONT,
        DO, DONT, SB, IAC]
    · simp only [vttyProcessInput, follows, comp, telnet, hsub, if_false]
      by_cases h1 : c = IAC
      · subst h1
        simp [stores, InputState.inSub, keys, WILL, WONT, DO, DONT, SB, IAC]
      · by_cases h2 : c = WILL ∨ c = WONT ∨ c = DO ∨ c = DONT
        · have h3 : c ≠ SB := by
            rintro rfl
            revert h2
            decide
          simp [h1, h2, h3, stores, InputState.inSub]
        · by_cases h3 : c = SB
          · subst h3
            simp [stores, InputState.inSub, WILL, WONT, DO, DONT, SB, IAC]
          · simp [h1, h2, h3, stores, InputState.inSub]
  | telnetIyou =>
    have hsb : cmd ≠ SB := by simpa [InputState.inSub] using hcmd
    by_cases h1 : cmd = WILL ∧ c = TELOPT_TTYPE
    · simp [vttyProcessInput, follows, comp, telnet, h1, stores, InputState.inSub, WILL, SB]
    · simp [vttyProcessInput, follows, comp, telnet, h1, hsb, stores, InputState.inSub]
  | telnetSb1 =>
    have hsb : cmd = SB := by simpa [InputState.inSub] using hcmd
    have hiac : c ≠ IAC := hc
    simp [vttyProcessInput, follows, comp, telnet, hiac, hsb, stores, InputState.inSub]
  | telnetSb2 =>
    have hsb : cmd = SB := by simpa [InputState.inSub] using hcmd
    have hiac : c ≠ IAC := hc
    by_cases h1 : opt = TELOPT_TTYPE ∧ c = TELQUAL_IS
    · simp [vttyProcessInput, follows, comp, telnet, h1, hsb, stores, InputState.inSub, TELQUAL_IS,
        IAC]
    · simp [vttyProcessInput, follows, comp, telnet, h1, hiac, hsb, stores, InputState.inSub]
  | telnetSbTtype =>
    have hsb : cmd = SB := by simpa [InputState.inSub] using hcmd
    have hiac : c ≠ IAC := hc
    by_cases h1 : c = 0x78#8 ∨ c = 0x58#8 ∨ c = 0x76#8 ∨ c = 0x56#8
    · simp [vttyProcessInput, follows, comp, telnet, h1, hiac, hsb, stores, InputState.inSub]
    · simp [vttyProcessInput, follows, comp, telnet, h1, hiac, hsb, stores, InputState.inSub]
  | telnetNext =>
    have hsb : cmd = SB := by simpa [InputState.inSub] using hcmd
    by_cases h1 : c = IAC
    · simp [vttyProcessInput, follows, comp, telnet, h1, hsb, stores]
    · simp [vttyProcessInput, follows, comp, telnet, h1, hsb, stores, InputState.inSub]

def VirtualTty.control (v : VirtualTty) : Bool × InputState × Byte :=
  (v.terminalSupport, v.inputState, v.telnetCmd)

theorem Matches.congr {v v' : VirtualTty} {t : TelnetState × KeyState} (h : Matches v t)
    (hv : v'.control = v.control) : Matches v' t := by
  simp only [VirtualTty.control, Prod.mk.injEq] at hv
  obtain ⟨hs, hi, hc⟩ := hv
  rw [matches_iff] at h ⊢
  rwa [hs, hi, hc]

def InBuffer (v : VirtualTty) : Prop :=
  v.readPtr < VTTY_BUFFER_SIZE ∧ v.writePtr < VTTY_BUFFER_SIZE

theorem vttyStore_spec {v : VirtualTty} (h : InBuffer v) (c : Byte) :
    ∃ v', vttyStore v c = some v' ∧ InBuffer v' ∧ v'.control = v.control ∧
      v'.contents = v.contents ++ if v.pending < VTTY_BUFFER_SIZE - 1 then [c] else [] := by
  obtain ⟨hr, hw⟩ := h
  have hcount := count_lt hr hw
  have hfull : (if v.writePtr + 1 = VTTY_BUFFER_SIZE then 0 else v.writePtr + 1) = v.readPtr ↔
      count VTTY_BUFFER_SIZE v.readPtr v.writePtr = VTTY_BUFFER_SIZE - 1 := next_eq_iff hr hw
  by_cases heq : next VTTY_BUFFER_SIZE v.writePtr = v.readPtr
  · have hlt : ¬ v.pending < VTTY_BUFFER_SIZE - 1 := by
      rw [VirtualTty.pending, hfull.mp heq]
      exact Nat.lt_irrefl _
    refine ⟨v, if_pos heq, ⟨hr, hw⟩, rfl, ?_⟩
    rw [if_neg hlt, List.append_nil]
  · have hlt : v.pending < VTTY_BUFFER_SIZE - 1 := by
      have hne := mt hfull.mpr heq
      unfold VirtualTty.pending
      omega
    refine ⟨_, (if_neg heq).trans (if_pos hw), ⟨hr, next_lt hw⟩, rfl, ?_⟩
    rw [if_pos hlt]
    exact contents_put hr hw heq c

theorem vttyGetChar_spec {v : VirtualTty} (h : InBuffer v) :
    ∃ v' c, vttyGetChar v = some (v', c) ∧ InBuffer v' ∧ v'.control = v.control ∧
      v.contents = c.toList ++ v'.contents := by
  obtain ⟨hr, hw⟩ := h
  by_cases heq : v.readPtr = v.writePtr
  · exact ⟨v, none, if_pos heq, ⟨hr, hw⟩, rfl, rfl⟩
  · exact ⟨_, _, (if_neg heq).trans (if_pos hr), ⟨next_lt hr, hw⟩, rfl, contents_get hr hw heq⟩

/-- The terminal after the bytes of `input`. -/
structure Reads (ctrlCodeOk : Bool) (s : Config) : Prop extends Filtered ctrlCodeOk s where
  automaton : Matches s.vtty (reference ctrlCodeOk s.input).1

variable {ctrlCodeOk : Bool} {s s' : Config}

def VirtualTty.ring (v : VirtualTty) : (Nat → Byte) × Nat × Nat := (v.buffer, v.readPtr, v.writePtr)

theorem vttyProcessInput_ring (ctrlCodeOk : Bool) (v : VirtualTty) (c : Byte) :
    (vttyProcessInput ctrlCodeOk v c).1.ring = v.ring := by
  obtain ⟨support, inputState, cmd, opt, qual, pend, buffer, r, w⟩ := v
  cases support with
  | false => rfl
  | true =>
    cases inputState with
    | text =>
      simp only [vttyProcessInput, Bool.not_true, Bool.false_eq_true, if_false]
      split_ifs <;> rfl
    | vt1 =>
      simp only [vttyProcessInput, Bool.not_true, Bool.false_eq_true, if_false]
      split_ifs <;> rfl
    | vt2 => rfl
    | remote => rfl
    | telnet =>
      simp only [vttyProcessInput, Bool.not_true, Bool.false_eq_true, if_false]
      split_ifs <;> rfl
    | telnetIyou => rfl
    | telnetSb1 => rfl
    | telnetSb2 => rfl
    | telnetSbTtype => rfl
    | telnetNext =>
      simp only [vttyProcessInput, Bool.not_true, Bool.false_eq_true, if_false]
      split_ifs <;> rfl

theorem Reads.inBuffer (h : Reads ctrlCodeOk s) : InBuffer s.vtty := ⟨h.readPtr_lt, h.writePtr_lt⟩

theorem reads_process (h : Reads ctrlCodeOk s) (hok : RegularStep s .process)
    (hs : step ctrlCodeOk s .process = some s') : Reads ctrlCodeOk s' := by
  simp only [step] at hs
  split at hs
  · rename_i c unread hunread htodo
    cases hs
    have hreg : Regular s.vtty c := by
      simpa only [RegularStep, hunread] using hok
    obtain ⟨hm, hst⟩ := @vttyProcessInput_matches ctrlCodeOk _ _ _ h.automaton hreg
    have hring := vttyProcessInput_ring ctrlCodeOk s.vtty c
    simp only [VirtualTty.ring, Prod.mk.injEq] at hring
    obtain ⟨hbuf, hr, hw⟩ := hring
    have hoff := h.offered
    rw [htodo] at hoff
    refine ⟨⟨?_, ?_, ?_, ?_⟩, ?_⟩
    · rw [hr]
      exact h.readPtr_lt
    · rw [hw]
      exact h.writePtr_lt
    · dsimp only
      rw [reference, run_snoc, hst]
      exact congrArg (· ++ _) ((List.append_nil _).symm.trans hoff)
    · dsimp only [VirtualTty.contents]
      rw [hbuf, hr, hw]
      exact h.delivered
    · dsimp only
      rw [reference, run_snoc]
      exact hm
  · cases hs

theorem performEffect_reads {e : Effect} {rest : List Effect} (h : Reads ctrlCodeOk s)
    (htodo : s.todo = e :: rest) (hs : performEffect s rest e = some s') : Reads ctrlCodeOk s' := by
  have hoff := h.offered
  rw [htodo] at hoff
  cases e with
  | store c =>
    obtain ⟨v, hstore, hin, hctl, hcontents⟩ := vttyStore_spec h.inBuffer c
    simp only [performEffect, hstore, Option.map_some, Option.some.injEq] at hs
    subst hs
    refine ⟨⟨hin.1, hin.2, ?_, ?_⟩, h.automaton.congr hctl⟩
    · rw [← hoff, List.map_append, List.append_assoc]
      rfl
    · dsimp only
      rw [hcontents, ← List.append_assoc, h.delivered, List.filter_append, List.map_append]
      congr 1
      by_cases hlt : s.vtty.pending < VTTY_BUFFER_SIZE - 1
      · simp [hlt]
      · simp [hlt]
  | putChar c =>
    cases hs
    exact ⟨⟨h.readPtr_lt, h.writePtr_lt, hoff, h.delivered⟩, h.automaton⟩
  | title =>
    cases hs
    exact ⟨⟨h.readPtr_lt, h.writePtr_lt, hoff, h.delivered⟩, h.automaton⟩
  | command c =>
    cases hs
    exact ⟨⟨h.readPtr_lt, h.writePtr_lt, hoff, h.delivered⟩, h.automaton⟩

theorem reads_step {e : Event} (h : Reads ctrlCodeOk s) (hok : RegularStep s e)
    (hs : step ctrlCodeOk s e = some s') : Reads ctrlCodeOk s' := by
  cases e with
  | read bytes =>
    simp only [step, Option.ite_none_right_eq_some, Option.some.injEq] at hs
    obtain ⟨-, rfl⟩ := hs
    exact ⟨⟨h.readPtr_lt, h.writePtr_lt, h.offered, h.delivered⟩, h.automaton⟩
  | process => exact reads_process h hok hs
  | perform =>
    simp only [step] at hs
    split at hs
    · cases hs
    · rename_i e rest htodo
      exact performEffect_reads h htodo hs
  | getChar =>
    obtain ⟨v, c, hget, hin, hctl, hcontents⟩ := vttyGetChar_spec h.inBuffer
    simp only [step, hget, Option.map_some, Option.some.injEq] at hs
    subst hs
    refine ⟨⟨hin.1, hin.2, h.offered, ?_⟩, h.automaton.congr hctl⟩
    rw [← h.delivered, hcontents]
    exact List.append_assoc _ _ _

/-- A terminal as `vtty_create` leaves it. -/
def created (buffer : Nat → Byte) : Config where
  vtty :=
    { terminalSupport := true
      inputState := .text
      telnetCmd := 0
      telnetOpt := 0
      telnetQual := 0
      inputPending := false
      buffer := buffer
      readPtr := 0
      writePtr := 0 }
  unread := []
  todo := []
  input := []
  offered := []
  delivered := []

theorem reads_created (ctrlCodeOk : Bool) (buffer : Nat → Byte) :
    Reads ctrlCodeOk (created buffer) := by
  refine ⟨⟨Nat.zero_lt_succ _, Nat.zero_lt_succ _, rfl, ?_⟩, ⟨rfl, rfl, fun _ => ?_⟩⟩
  · simp [created, VirtualTty.contents]
  · simp [created, InputState.inSub, SB]

def Step (ctrlCodeOk : Bool) (s : Config) (e : Event) (s' : Config) : Prop :=
  step ctrlCodeOk s e = some s'

/-- In every run whose bytes the automaton has a place for, the characters
delivered are those of the reference filter. -/
theorem input_filtered {buffer : Nat → Byte} {trace : List (Config × Event)}
    (hrun : Run (Step ctrlCodeOk) (created buffer) trace s) (hok : AllSteps RegularStep trace) :
    Always (Filtered ctrlCodeOk) trace s := by
  have halways : Always (Reads ctrlCodeOk) trace s :=
    hrun.invariant (fun _ _ _ h hok hs => reads_step h hok hs) (reads_created ctrlCodeOk buffer) hok
  exact ⟨halways.1.toFiltered, fun x hx => (halways.2 x hx).toFiltered⟩

def arrowEvents : List Event :=
  [.read [0x1b], .process, .read [0x5b, 0x41], .process, .process, .perform, .getChar]

theorem input_filtered_arrow :
    ∃ trace s, execute (step true) (created fun _ => 0) arrowEvents = some (trace, s) ∧
      Always (Filtered true) trace s ∧ s.delivered = [16] := by
  have hex : execute (step true) (created fun _ => 0) arrowEvents = some (_, _) := rfl
  refine ⟨_, _, hex, input_filtered (run_of_execute hex) ?_, rfl⟩
  have hiac : (0x5b : Byte) ≠ IAC := by decide
  exact allSteps_cons.mpr ⟨trivial, allSteps_cons.mpr ⟨trivial, allSteps_cons.mpr ⟨trivial,
    allSteps_cons.mpr ⟨hiac, allSteps_cons.mpr ⟨.inl rfl, allSteps_cons.mpr ⟨trivial,
      allSteps_cons.mpr ⟨trivial, by simp [AllSteps]⟩⟩⟩⟩⟩⟩⟩

def homeEvents : List Event :=
  [.read [0x1b, 0x5b, 0x48], .process, .process, .process, .perform, .perform, .perform]

theorem not_input_filtered : ¬ ∀ trace s,
    Run (Step true) (created fun _ => 0) trace s → Filtered true s := by
  intro h
  have hex : execute (step true) (created fun _ => 0) homeEvents = some (_, _) := rfl
  have hoff := (h _ _ (run_of_execute hex)).offered
  revert hoff
  decide

end Dynamips.Vtty
