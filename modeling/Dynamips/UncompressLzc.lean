import Dynamips.Utils
import Mathlib.Logic.Function.Basic
set_option autoImplicit false

namespace Dynamips.Nvram
open Function (update)

/-- The working memory of `uncompress_LZC`. The tables come from `malloc`, so
what they hold before they are written is a parameter. -/
structure LzcTables where
  parents : Nat → BitVec 16
  suffixes : Nat → Byte
  stack : Nat → Byte
  buf : Nat → Byte

def lzcBufSize : Nat := 16 + 4

structure LzcState where
  tables : LzcTables
  inPos : Nat
  outPos : Nat
  outData : Nat → Byte
  numBits : Nat
  head : Nat
  needPrev : Bool
  bitPos : Nat
  numBufBits : Nat

structure LzcConst where
  inData : List Byte
  outLen : Nat
  maxbits : Nat
  blockMode : Bool

def LzcConst.numItems (c : LzcConst) : Nat := 2 ^ c.maxbits

/-- `none` is an access outside of the input or of `buf`. -/
def lzcRefill (c : LzcConst) (s : LzcState) : Option LzcState :=
  if s.numBufBits = s.bitPos then
    let len := min (c.inData.length - s.inPos) s.numBits
    if s.inPos ≤ c.inData.length ∧ len ≤ lzcBufSize then
      some { s with
        tables := { s.tables with
          buf := fun i => if i < len then c.inData.getD (s.inPos + i) 0 else s.tables.buf i }
        numBufBits := len * 8
        bitPos := 0
        inPos := s.inPos + len }
    else none
  else some s

def lzcSymbol (s : LzcState) : Option Nat :=
  let bytePos := s.bitPos / 8
  if bytePos + 2 < lzcBufSize then
    let word := (s.tables.buf bytePos).toNat + (s.tables.buf (bytePos + 1)).toNat * 2 ^ 8 +
      (s.tables.buf (bytePos + 2)).toNat * 2 ^ 16
    some (word / 2 ^ (s.bitPos % 8) % 2 ^ s.numBits)
  else none

/-- The walk from a code to the byte its string starts with: the tables, the
number of stacked bytes and that byte. -/
def lzcChain (c : LzcConst) : Nat → LzcTables → Nat → Nat → Option (LzcTables × Nat × Nat)
  | fuel, t, cur, i =>
    if cur < 256 then
      if i < c.numItems then some ({ t with stack := update t.stack i (BitVec.ofNat 8 cur) }, i + 1, cur)
      else none
    else
      match fuel with
      | 0 => none
      | fuel + 1 =>
        if i < c.numItems ∧ cur < c.numItems then
          lzcChain c fuel { t with stack := update t.stack i (t.suffixes cur) }
            (t.parents cur).toNat (i + 1)
        else none

def lzcEmit (c : LzcConst) (stack : Nat → Byte) : Nat → Nat → (Nat → Byte) → Nat × (Nat → Byte)
  | 0, outPos, outData => (outPos, outData)
  | i + 1, outPos, outData =>
    if outPos < c.outLen then lzcEmit c stack i (outPos + 1) (update outData outPos (stack i))
    else (outPos, outData)

inductive LzcTurn where
  | done (s : LzcState)
  | errData (s : LzcState)
  | next (s : LzcState)

/-- The end of a turn: a new code for the symbol, while there is room. -/
def lzcExtend (c : LzcConst) (s : LzcState) (symbol : Nat) : LzcState :=
  if s.head < c.numItems then
    let s := { s with
      needPrev := true
      tables := { s.tables with parents := update s.tables.parents s.head (BitVec.ofNat 16 symbol) }
      head := s.head + 1 }
    if s.head > 2 ^ s.numBits ∧ s.numBits < c.maxbits then
      { s with numBufBits := 0, bitPos := 0, numBits := s.numBits + 1 }
    else s
  else { s with needPrev := false }

def lzcTurn (c : LzcConst) (s : LzcState) : Option LzcTurn := do
  let s ← lzcRefill c s
  let symbol ← lzcSymbol s
  let s := { s with bitPos := s.bitPos + s.numBits }
  if s.bitPos > s.numBufBits then some (.done s)
  else if symbol ≥ s.head then some (.errData s)
  else if c.blockMode ∧ symbol = 256 then
    some (.next { s with numBufBits := 0, bitPos := 0, numBits := 9, head := 257, needPrev := false })
  else
    let (t, i, cur) ← lzcChain c c.numItems s.tables symbol 0
    let t := if s.needPrev then
      { t with
        suffixes := update t.suffixes (s.head - 1) (BitVec.ofNat 8 cur)
        stack := if symbol = s.head - 1 then update t.stack 0 (BitVec.ofNat 8 cur) else t.stack }
      else t
    let (outPos, outData) := lzcEmit c t.stack i s.outPos s.outData
    some (.next (lzcExtend c { s with tables := t, outPos := outPos, outData := outData } symbol))

def lzcRun (c : LzcConst) : Nat → LzcState → Option (Int × LzcState)
  | 0, _ => none
  | fuel + 1, s => do
    match ← lzcTurn c s with
    | .done s => some (0, s)
    | .errData s => some (-1, s)
    | .next s => lzcRun c fuel s

def einval : Int := 22
def enomem : Int := 12
def enospc : Int := 28
def enotsup : Int := 95

/-- The result and the output buffer, which held `outData` before. -/
def uncompressLZC (uninit : LzcTables) (inData : List Byte) (outData : Nat → Byte) (outLen : Nat) :
    Option (Int × (Nat → Byte)) :=
  if inData.length < 3 then some (einval, outData)
  else if inData.getD 0 0 ≠ 0x1F ∨ inData.getD 1 0 ≠ 0x9D then some (enotsup, outData)
  else
    let maxbits := (inData.getD 2 0 &&& 0x1F).toNat
    if maxbits < 9 ∨ maxbits > 16 then some (enotsup, outData)
    else
      let blockMode : Bool := inData.getD 2 0 &&& 0x80 ≠ 0
      let c : LzcConst := ⟨inData, outLen, maxbits, blockMode⟩
      let tables := { uninit with
        parents := update uninit.parents 256 0, suffixes := update uninit.suffixes 256 0 }
      let s : LzcState := ⟨tables, 3, 0, outData, 9, if blockMode then 257 else 256, false, 0, 0⟩
      (lzcRun c (8 * inData.length + 1) s).map fun r => (r.1, r.2.outData)

end Dynamips.Nvram
