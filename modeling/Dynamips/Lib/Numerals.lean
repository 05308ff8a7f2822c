import Mathlib.Algebra.Order.Ring.Int

/-! The conversions of texts to integers of the C library, with `long` and
`long long` of 64 bits and `int` of 32. -/
set_option autoImplicit false

namespace Numerals

def isSpace (c : Char) : Bool := c.toNat = 32 || (9 ≤ c.toNat && c.toNat ≤ 13)

/-- The value of a digit in a base -/
def digit (base : Nat) (c : Char) : Option Nat :=
  let n := c.toNat
  let v := if 48 ≤ n ∧ n ≤ 57 then n - 48
    else if 97 ≤ n ∧ n ≤ 122 then n - 87
    else if 65 ≤ n ∧ n ≤ 90 then n - 55
    else base
  if v < base then some v else none

/-- The number that a text starts with, after what was read of it -/
def magnitude (base : Nat) (read : Nat) : List Char → Nat
  | [] => read
  | c :: cs =>
    match digit base c with
    | some d => magnitude base (read * base + d) cs
    | none => read

/-- Whether a text has a minus sign, and what follows its sign -/
def sign : List Char → Bool × List Char
  | [] => (false, [])
  | c :: cs => if c = '-' then (true, cs) else if c = '+' then (false, cs) else (false, c :: cs)

/-- The base of a text, read with base 0 as the prefix tells. -/
def radix (base : Nat) (cs : List Char) : Nat × List Char :=
  if base ≠ 0 then (base, cs)
  else
    match cs with
    | '0' :: x :: cs =>
      if (x = 'x' ∨ x = 'X') ∧ (cs.head?.bind (digit 16)).isSome then (16, cs) else (8, x :: cs)
    | _ => (10, cs)

/-- The sign and the magnitude of a text -/
def scan (base : Nat) (s : String) : Bool × Nat :=
  let (negative, cs) := sign (s.toList.dropWhile isSpace)
  let (base, cs) := radix base cs
  (negative, magnitude base 0 cs)

def LONG_MAX : Int := 2 ^ 63 - 1

def strtol (base : Nat) (s : String) : Int :=
  let (negative, n) := scan base s
  if negative then max (-LONG_MAX - 1) (-n) else min LONG_MAX n

def strtoull (base : Nat) (s : String) : BitVec 64 :=
  let (negative, n) := scan base s
  if 2 ^ 64 ≤ n then BitVec.allOnes 64
  else if negative then -BitVec.ofNat 64 n
  else BitVec.ofNat 64 n

def atoi (s : String) : BitVec 32 := BitVec.ofInt 32 (strtol 10 s)

example : (atoi " -12x", atoi "4294967297", strtoull 0 "0x1fg") = (-12, 1, 31) := by
  decide

end Numerals
