import Dynamips.Lib.Bytes
import Mathlib.Tactic.Common

/-! Files of 32-bit words in the byte order of the machine that wrote them. A
reader gives its value with the rest of the file; what it accepts is exactly
what the writer puts out, followed by any rest. -/
set_option autoImplicit false

namespace Dynamips

inductive ByteOrder
  | little
  | big
  deriving DecidableEq, Repr

namespace ByteOrder

def wordBytes (order : ByteOrder) (w : BitVec 32) : List Byte :=
  let bytes := [w.extractLsb' 0 8, w.extractLsb' 8 8, w.extractLsb' 16 8, w.extractLsb' 24 8]
  match order with
  | .little => bytes
  | .big => bytes.reverse

def wordOf (order : ByteOrder) (a b c d : Byte) : BitVec 32 :=
  match order with
  | .little => d ++ c ++ b ++ a
  | .big => a ++ b ++ c ++ d

def readWord (order : ByteOrder) : List Byte → Option (BitVec 32 × List Byte)
  | a :: b :: c :: d :: rest => some (order.wordOf a b c d, rest)
  | _ => none

def readWords (order : ByteOrder) : Nat → List Byte → Option (List (BitVec 32) × List Byte)
  | 0, file => some ([], file)
  | n + 1, file => do
    let (w, rest) ← order.readWord file
    let (ws, rest) ← order.readWords n rest
    some (w :: ws, rest)

variable {order : ByteOrder}

theorem append_extract (w : BitVec 32) :
    w.extractLsb' 24 8 ++ w.extractLsb' 16 8 ++ w.extractLsb' 8 8 ++ w.extractLsb' 0 8 = w := by
  apply BitVec.eq_of_getLsbD_eq
  intro i hi
  simp only [BitVec.getLsbD_append, BitVec.getLsbD_extractLsb']
  grind

theorem readWord_append (w : BitVec 32) (rest : List Byte) :
    order.readWord (order.wordBytes w ++ rest) = some (w, rest) := by
  cases order with
  | little => simp [readWord, wordBytes, wordOf, append_extract]
  | big => simp [readWord, wordBytes, wordOf, append_extract]

theorem wordBytes_wordOf (a b c d : Byte) :
    order.wordBytes (order.wordOf a b c d) = [a, b, c, d] := by
  have hcat : ∀ x y z t : Byte, (x ++ y ++ z ++ t).extractLsb' 0 8 = t ∧
      (x ++ y ++ z ++ t).extractLsb' 8 8 = z ∧ (x ++ y ++ z ++ t).extractLsb' 16 8 = y ∧
      (x ++ y ++ z ++ t).extractLsb' 24 8 = x := by
    intro x y z t
    refine ⟨?_, ?_, ?_, ?_⟩ <;>
    · apply BitVec.eq_of_getLsbD_eq
      intro i hi
      simp only [BitVec.getLsbD_append, BitVec.getLsbD_extractLsb']
      grind
  cases order with
  | little => simp [wordBytes, wordOf, hcat]
  | big => simp [wordBytes, wordOf, hcat]

theorem readWord_eq_some_iff {file rest : List Byte} {w : BitVec 32} :
    order.readWord file = some (w, rest) ↔ file = order.wordBytes w ++ rest := by
  constructor
  · intro h
    match file, h with
    | a :: b :: c :: d :: tail, h =>
      simp only [readWord, Option.some.injEq, Prod.mk.injEq] at h
      obtain ⟨rfl, rfl⟩ := h
      simp [wordBytes_wordOf]
  · rintro rfl
    exact readWord_append w rest

theorem readWords_eq_some_iff {n : Nat} {file rest : List Byte} {ws : List (BitVec 32)} :
    order.readWords n file = some (ws, rest) ↔
      ws.length = n ∧ file = ws.flatMap order.wordBytes ++ rest := by
  induction n generalizing file rest ws with
  | zero =>
    simp only [readWords, Option.some.injEq, Prod.mk.injEq, List.length_eq_zero_iff]
    constructor
    · rintro ⟨rfl, rfl⟩
      simp
    · rintro ⟨rfl, rfl⟩
      simp
  | succ n ih =>
    simp only [readWords, Option.bind_eq_bind, Option.bind_eq_some_iff, Prod.exists,
      readWord_eq_some_iff, ih, Option.some.injEq, Prod.mk.injEq]
    constructor
    · rintro ⟨w, mid, rfl, tail, rest', ⟨hlen, rfl⟩, rfl, rfl⟩
      simp [hlen]
    · rintro ⟨hlen, rfl⟩
      cases ws with
      | nil => simp at hlen
      | cons w tail =>
        simp only [List.length_cons, Nat.add_right_cancel_iff] at hlen
        exact ⟨w, _, by simp, tail, rest, ⟨hlen, rfl⟩, rfl, rfl⟩

theorem wordBytes_append_inj {v w : BitVec 32} {file file' : List Byte}
    (h : order.wordBytes v ++ file = order.wordBytes w ++ file') : v = w ∧ file = file' := by
  have hv := @readWord_append order v file
  rw [h, readWord_append] at hv
  simp only [Option.some.injEq, Prod.mk.injEq] at hv
  exact ⟨hv.1.symm, hv.2.symm⟩

theorem flatMap_wordBytes_inj {vs ws : List (BitVec 32)} {file file' : List Byte}
    (hlen : vs.length = ws.length)
    (h : vs.flatMap order.wordBytes ++ file = ws.flatMap order.wordBytes ++ file') :
    vs = ws ∧ file = file' := by
  have hv : order.readWords ws.length (vs.flatMap order.wordBytes ++ file) = some (vs, file) :=
    readWords_eq_some_iff.mpr ⟨hlen, rfl⟩
  have hw := readWords_eq_some_iff.mpr ⟨rfl, h⟩
  rw [hv] at hw
  simpa using hw

end ByteOrder
end Dynamips
