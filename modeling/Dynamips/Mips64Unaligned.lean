import Dynamips.Lib.Unaligned
import Dynamips.Mips64Run
import Dynamips.SparseRam
import Mathlib.Data.List.Induction

/-! The loads and stores of the left and the right part of an unaligned word or
doubleword, as lists of bytes. -/
set_option autoImplicit false

namespace Dynamips.Mips64
open Unaligned

variable {W : Type}

inductive Width where
  | word
  | double
deriving DecidableEq

inductive Side where
  | left
  | right
deriving DecidableEq

def Width.size : Width → Nat
  | .word => 4
  | .double => 8

def Width.byte (w : Width) (vaddr : BitVec 64) : Nat :=
  match w with
  | .word => byteOfWord vaddr
  | .double => byteOfDouble vaddr

def Width.naddr (w : Width) (vaddr : BitVec 64) : BitVec 64 :=
  match w with
  | .word => vaddr &&& ~~~0x03
  | .double => vaddr &&& ~~~0x07

def loadOp : Width → Side → MemOp
  | .word, .left => .lwl
  | .word, .right => .lwr
  | .double, .left => .ldl
  | .double, .right => .ldr

def storeOp : Width → Side → MemOp
  | .word, .left => .swl
  | .word, .right => .swr
  | .double, .left => .sdl
  | .double, .right => .sdr

/-! The bytes of a value. -/

theorem storeBytes_append (v : BitVec 64) (a b : Nat) :
    storeBytes v (a + b) = storeBytes (v >>> (8 * b)) a ++ storeBytes v b := by
  induction a with
  | zero => simp [storeBytes]
  | succ a ih =>
    have hadd : a + 1 + b = a + b + 1 := by omega
    rw [hadd, storeBytes, storeBytes, ih, ← BitVec.shiftRight_add, Nat.mul_add,
      Nat.add_comm (8 * a), List.cons_append]

theorem storeBytes_congr {v v' : BitVec 64} {n : Nat}
    (h : ∀ p, p < 8 * n → v.getLsbD p = v'.getLsbD p) : storeBytes v n = storeBytes v' n := by
  induction n with
  | zero => rfl
  | succ n ih =>
    rw [storeBytes, storeBytes, ih fun p hp => h p (by omega)]
    congr 1
    apply BitVec.eq_of_getLsbD_eq
    intro i hi
    simp only [BitVec.getLsbD_setWidth, BitVec.getLsbD_ushiftRight, h (8 * n + i) (by omega)]

theorem getLsbD_of_storeBytes {v v' : BitVec 64} {n p : Nat}
    (h : storeBytes v n = storeBytes v' n) (hp : p < 8 * n) : v.getLsbD p = v'.getLsbD p := by
  induction n with
  | zero => omega
  | succ n ih =>
    rw [storeBytes, storeBytes, List.cons.injEq] at h
    by_cases hlow : p < 8 * n
    · exact ih h.2 hlow
    · have hbit := congrArg (BitVec.getLsbD · (p - 8 * n)) h.1
      have hlt : p - 8 * n < 8 := by omega
      have hadd : 8 * n + (p - 8 * n) = p := by omega
      simpa only [BitVec.getLsbD_setWidth, BitVec.getLsbD_ushiftRight, hlt, hadd, decide_true,
        Bool.true_and] using hbit

theorem storeBytes_splice {v hi lo : BitVec 64} {a b n : Nat} (hn : a + b = n)
    (hlo : ∀ p, p < 8 * b → v.getLsbD p = lo.getLsbD p)
    (hhi : ∀ p, p < 8 * a → v.getLsbD (8 * b + p) = hi.getLsbD p) :
    storeBytes v n = storeBytes hi a ++ storeBytes lo b := by
  rw [← hn, storeBytes_append, storeBytes_congr hlo]
  congr 1
  apply storeBytes_congr
  intro p hp
  rw [BitVec.getLsbD_ushiftRight, hhi p hp]

theorem drop_storeBytes (v : BitVec 64) {n k : Nat} (hk : k ≤ n) :
    (storeBytes v n).drop k = storeBytes v (n - k) := by
  have hn : k + (n - k) = n := by omega
  rw [← hn, storeBytes_append, List.drop_left' (by simp), Nat.add_sub_cancel_left]

theorem take_storeBytes (v : BitVec 64) {n k : Nat} (hk : k ≤ n) :
    (storeBytes v n).take k = storeBytes (v >>> (8 * (n - k))) k := by
  have hn : k + (n - k) = n := by omega
  rw [← hn, storeBytes_append, List.take_left' (by simp), Nat.add_sub_cancel_left]

theorem loadValue_snoc (bytes : List Byte) (b : Byte) :
    loadValue (bytes ++ [b]) = (loadValue bytes <<< 8) ||| b.setWidth 64 := by
  rw [loadValue, List.foldl_append]
  rfl

theorem loadValue_getLsbD (bytes : List Byte) {p : Nat} (hp : 8 * bytes.length ≤ p) :
    (loadValue bytes).getLsbD p = false := by
  induction bytes using List.reverseRecOn generalizing p with
  | nil => simp [loadValue]
  | append_singleton bytes b ih =>
    rw [List.length_append, List.length_singleton] at hp
    have hb : b.getLsbD p = false := BitVec.getLsbD_of_ge b p (by omega)
    rw [loadValue_snoc, BitVec.getLsbD_or, BitVec.getLsbD_shiftLeft, ih (by omega),
      BitVec.getLsbD_setWidth, hb]
    simp

theorem storeBytes_loadValue {bytes : List Byte} (h : bytes.length ≤ 8) :
    storeBytes (loadValue bytes) bytes.length = bytes := by
  induction bytes using List.reverseRecOn with
  | nil => rfl
  | append_singleton bytes b ih =>
    rw [List.length_append, List.length_singleton] at h ⊢
    rw [@storeBytes_splice _ (loadValue bytes) (b.setWidth 64) bytes.length 1 _ rfl ?_ ?_,
      ih (by omega)]
    · simp [storeBytes]
    · intro p hp
      have hlt : p < 8 := by omega
      simp [loadValue_snoc, hlt]
    · intro p hp
      have hb : b.getLsbD (8 * 1 + p) = false := BitVec.getLsbD_of_ge b _ (by omega)
      have hlt : 8 * 1 + p < 64 := by omega
      have hge : ¬ 8 * 1 + p < 8 := by omega
      have hsub : 8 * 1 + p - 8 = p := by omega
      rw [loadValue_snoc, BitVec.getLsbD_or, BitVec.getLsbD_shiftLeft, BitVec.getLsbD_setWidth,
        hb, hsub]
      simp only [hlt, hge, decide_true, decide_false, Bool.not_false, Bool.true_and,
        Bool.and_false, Bool.or_false]

/-! The masks. -/

theorem lowMask_getLsbD {c : Nat} (hc : c < 64) (p : Nat) :
    (hostShl64 1 c - 1).getLsbD p = decide (p < c) := by
  have hpow : 2 ^ c < 2 ^ 64 := Nat.pow_lt_pow_right (by omega) hc
  have hpos : 0 < 2 ^ c := Nat.two_pow_pos c
  have hval : (hostShl64 1 c - 1).toNat = 2 ^ c - 1 := by
    have hone : (1 : BitVec 64).toNat = 1 := rfl
    have hshl : (hostShl64 1 c).toNat = 2 ^ c := by
      rw [hostShl64, Nat.mod_eq_of_lt hc, BitVec.toNat_shiftLeft, hone, Nat.one_shiftLeft,
        Nat.mod_eq_of_lt hpow]
    rw [BitVec.toNat_sub, hshl, hone]
    omega
  rw [BitVec.getLsbD, hval, Nat.testBit_two_pow_sub_one]

theorem wordMask_getLsbD {c : Nat} (hc : c < 32) (p : Nat) :
    ((hostShr32 0xffffffff c).setWidth 64).getLsbD p = decide (p < 32 - c) := by
  have hones : (0xffffffff : BitVec 32) = BitVec.allOnes 32 := rfl
  rw [hostShr32, Nat.mod_eq_of_lt hc, hones, BitVec.getLsbD_setWidth, BitVec.getLsbD_ushiftRight,
    BitVec.getLsbD_allOnes, ← Bool.decide_and, decide_eq_decide]
  omega

theorem doubleMask_getLsbD {c : Nat} (hc : c < 64) (p : Nat) :
    (hostShr64 0xffffffffffffffff c).getLsbD p = decide (p < 64 - c) := by
  have hones : (0xffffffffffffffff : BitVec 64) = BitVec.allOnes 64 := rfl
  rw [hostShr64, Nat.mod_eq_of_lt hc, hones, BitVec.getLsbD_ushiftRight, BitVec.getLsbD_allOnes,
    decide_eq_decide]
  omega

theorem storeBytes_signExtend (x : BitVec 64) : storeBytes (signExtend x 32) 4 = storeBytes x 4 := by
  apply storeBytes_congr
  intro p hp
  have hmin : min p (32 - 1) = p := by omega
  rw [signExtend_getLsbD x (by decide) (by decide) (by omega), hmin]

theorem signExtend_signExtend_word (x : BitVec 64) :
    signExtend (signExtend x 32) 32 = signExtend x 32 := by
  apply BitVec.eq_of_getLsbD_eq
  intro i hi
  have hmin : min (min i 31) 31 = min i 31 := by omega
  rw [signExtend_getLsbD _ (by decide) (by decide) hi,
    signExtend_getLsbD _ (by decide) (by decide) (by omega),
    signExtend_getLsbD _ (by decide) (by decide) hi, hmin]

/-! What each handler makes of the data. -/

/-- What the register holds after a load that has read `data`. -/
def loadData (w : Width) (s : Side) (val vaddr data : BitVec 64) : BitVec 64 :=
  match w, s with
  | .word, .left =>
    signExtend ((val &&& (hostShl64 1 (byteOfWord vaddr * 8) - 1)) |||
      hostShl64 data (byteOfWord vaddr * 8)) 32
  | .word, .right =>
    (val &&& ~~~signExtend (hostShl64 1 ((byteOfWord vaddr + 1) * 8) - 1) 32) |||
      signExtend (hostShr64 data (32 - (byteOfWord vaddr + 1) * 8)) 32
  | .double, .left =>
    (val &&& (hostShl64 1 (byteOfDouble vaddr * 8) - 1)) |||
      hostShl64 data (byteOfDouble vaddr * 8)
  | .double, .right =>
    (val &&& ~~~(hostShl64 1 ((byteOfDouble vaddr + 1) * 8) - 1)) |||
      hostShr64 data (64 - (byteOfDouble vaddr + 1) * 8)

/-- What a store writes that has read `data`. -/
def storeData : Width → Side → BitVec 64 → BitVec 64 → BitVec 64 → BitVec 64
  | .word, .left => swlData
  | .word, .right => swrData
  | .double, .left => sdlData
  | .double, .right => sdrData

theorem memOpFn_load (w : Width) (s : Side) (env : Env W) (cpu : Cpu W) (vaddr : BitVec 64)
    (reg : RegNum) : memOpFn (loadOp w s) env cpu vaddr reg =
      (mtsRead env cpu (w.naddr vaddr) (loadOp w s) w.size).bind fun data cpu =>
        .done () (cpu.setGpr reg (loadData w s (cpu.gpr reg) vaddr data)) := by
  cases w <;> cases s <;> rfl

theorem memOpFn_store (w : Width) (s : Side) (env : Env W) (cpu : Cpu W) (vaddr : BitVec 64)
    (reg : RegNum) : memOpFn (storeOp w s) env cpu vaddr reg =
      (mtsRead env cpu (w.naddr vaddr) (storeOp w s) w.size).bind fun data cpu =>
        mtsWrite env cpu (w.naddr vaddr) (storeOp w s) w.size
          (storeData w s (cpu.gpr reg) vaddr data) := by
  cases w <;> cases s <;> rfl

/-- The counts of the shifts that a load makes, each with the width of its operand. -/
def loadShifts (w : Width) (s : Side) (vaddr : BitVec 64) : List (Nat × Nat) :=
  match w, s with
  | .word, .left => [(byteOfWord vaddr * 8, 64), (byteOfWord vaddr * 8, 64)]
  | .word, .right =>
    [((byteOfWord vaddr + 1) * 8, 64), (32 - (byteOfWord vaddr + 1) * 8, 64)]
  | .double, .left => [(byteOfDouble vaddr * 8, 64), (byteOfDouble vaddr * 8, 64)]
  | .double, .right =>
    [((byteOfDouble vaddr + 1) * 8, 64), (64 - (byteOfDouble vaddr + 1) * 8, 64)]

def storeShifts (w : Width) (s : Side) (vaddr : BitVec 64) : List (Nat × Nat) :=
  match w, s with
  | .word, .left => [(byteOfWord vaddr * 8, 32), (byteOfWord vaddr * 8, 64)]
  | .word, .right =>
    [((byteOfWord vaddr + 1) * 8, 32), (32 - (byteOfWord vaddr + 1) * 8, 64)]
  | .double, .left => [(byteOfDouble vaddr * 8, 64), (byteOfDouble vaddr * 8, 64)]
  | .double, .right =>
    [((byteOfDouble vaddr + 1) * 8, 64), (64 - (byteOfDouble vaddr + 1) * 8, 64)]

/-! The bytes that each of them leaves. -/

def Side.load {α : Type} : Side → Nat → List α → List α → List α
  | .left => loadLeft
  | .right => loadRight

def Side.store {α : Type} : Side → Nat → List α → List α → List α
  | .left => storeLeft
  | .right => storeRight

theorem byte_eq (w : Width) (vaddr : BitVec 64) : w.byte vaddr = vaddr.toNat % w.size := by
  cases w with
  | word =>
    rw [Width.byte, byteOfWord, BitVec.toNat_and]
    exact Nat.and_two_pow_sub_one_eq_mod vaddr.toNat 2
  | double =>
    rw [Width.byte, byteOfDouble, BitVec.toNat_and]
    exact Nat.and_two_pow_sub_one_eq_mod vaddr.toNat 3

theorem Width.byte_lt (w : Width) (vaddr : BitVec 64) : w.byte vaddr < w.size := by
  rw [byte_eq]
  apply Nat.mod_lt
  cases w <;> decide

theorem byteOfWord_lt (vaddr : BitVec 64) : byteOfWord vaddr < 4 := Width.word.byte_lt vaddr

theorem byteOfDouble_lt (vaddr : BitVec 64) : byteOfDouble vaddr < 8 := Width.double.byte_lt vaddr

theorem hostShl64_getLsbD (x : BitVec 64) {c : Nat} (hc : c < 64) (p : Nat) :
    (hostShl64 x c).getLsbD p = (decide (p < 64) && !decide (p < c) && x.getLsbD (p - c)) := by
  rw [hostShl64, Nat.mod_eq_of_lt hc, BitVec.getLsbD_shiftLeft]

theorem hostShr64_getLsbD (x : BitVec 64) {c : Nat} (hc : c < 64) (p : Nat) :
    (hostShr64 x c).getLsbD p = x.getLsbD (c + p) := by
  rw [hostShr64, Nat.mod_eq_of_lt hc, BitVec.getLsbD_ushiftRight]

theorem loadLeft_storeBytes (val data : BitVec 64) {n k : Nat} (hk : k ≤ n) :
    loadLeft k (storeBytes val n) (storeBytes data n) =
      storeBytes data (n - k) ++ storeBytes val k := by
  rw [loadLeft, length_storeBytes, drop_storeBytes _ hk, drop_storeBytes _ (by omega),
    Nat.sub_sub_self hk]

theorem loadRight_storeBytes (val data : BitVec 64) {n k : Nat} (hk : k + 1 ≤ n) :
    loadRight k (storeBytes val n) (storeBytes data n) =
      storeBytes (val >>> (8 * (k + 1))) (n - (k + 1)) ++
        storeBytes (data >>> (8 * (n - (k + 1)))) (k + 1) := by
  rw [loadRight, length_storeBytes, take_storeBytes _ (by omega), take_storeBytes _ hk,
    Nat.sub_sub_self hk]

theorem storeLeft_storeBytes (val data : BitVec 64) {n k : Nat} (hk : k ≤ n) :
    storeLeft k (storeBytes val n) (storeBytes data n) =
      storeBytes (data >>> (8 * (n - k))) k ++ storeBytes (val >>> (8 * k)) (n - k) := by
  rw [storeLeft, length_storeBytes, take_storeBytes _ hk, take_storeBytes _ (by omega),
    Nat.sub_sub_self hk]

theorem storeRight_storeBytes (val data : BitVec 64) {n k : Nat} (hk : k + 1 ≤ n) :
    storeRight k (storeBytes val n) (storeBytes data n) =
      storeBytes val (k + 1) ++ storeBytes data (n - (k + 1)) := by
  rw [storeRight, length_storeBytes, drop_storeBytes _ (by omega), drop_storeBytes _ hk,
    Nat.sub_sub_self hk]

theorem ldl_bytes (val vaddr data : BitVec 64) :
    storeBytes (loadData .double .left val vaddr data) 8 =
      loadLeft (byteOfDouble vaddr) (storeBytes val 8) (storeBytes data 8) := by
  have hk := byteOfDouble_lt vaddr
  rw [loadLeft_storeBytes _ _ (by omega), loadData]
  apply storeBytes_splice (by omega)
  · intro p hp
    rw [BitVec.getLsbD_or, BitVec.getLsbD_and, lowMask_getLsbD (by omega),
      hostShl64_getLsbD _ (by omega)]
    grind
  · intro p hp
    rw [BitVec.getLsbD_or, BitVec.getLsbD_and, lowMask_getLsbD (by omega),
      hostShl64_getLsbD _ (by omega)]
    grind

theorem ldr_bytes (val : BitVec 64) {vaddr : BitVec 64} (data : BitVec 64)
    (h : byteOfDouble vaddr ≠ 7) :
    storeBytes (loadData .double .right val vaddr data) 8 =
      loadRight (byteOfDouble vaddr) (storeBytes val 8) (storeBytes data 8) := by
  have hk := byteOfDouble_lt vaddr
  rw [loadRight_storeBytes _ _ (by omega), loadData]
  apply storeBytes_splice (by omega)
  · intro p hp
    rw [BitVec.getLsbD_or, BitVec.getLsbD_and, BitVec.getLsbD_not, lowMask_getLsbD (by omega),
      hostShr64_getLsbD _ (by omega), BitVec.getLsbD_ushiftRight]
    grind
  · intro p hp
    have hout : data.getLsbD (64 - (byteOfDouble vaddr + 1) * 8 + (8 * (byteOfDouble vaddr + 1) + p)) =
        false := BitVec.getLsbD_of_ge _ _ (by omega)
    rw [BitVec.getLsbD_or, BitVec.getLsbD_and, BitVec.getLsbD_not, lowMask_getLsbD (by omega),
      hostShr64_getLsbD _ (by omega), hout, BitVec.getLsbD_ushiftRight]
    grind

theorem lwl_bytes (val vaddr data : BitVec 64) :
    storeBytes (loadData .word .left val vaddr data) 4 =
      loadLeft (byteOfWord vaddr) (storeBytes val 4) (storeBytes data 4) := by
  have hk := byteOfWord_lt vaddr
  rw [loadLeft_storeBytes _ _ (by omega), loadData, storeBytes_signExtend]
  apply storeBytes_splice (by omega)
  · intro p hp
    rw [BitVec.getLsbD_or, BitVec.getLsbD_and, lowMask_getLsbD (by omega),
      hostShl64_getLsbD _ (by omega)]
    grind
  · intro p hp
    rw [BitVec.getLsbD_or, BitVec.getLsbD_and, lowMask_getLsbD (by omega),
      hostShl64_getLsbD _ (by omega)]
    grind

theorem lwr_bytes (val : BitVec 64) {vaddr data : BitVec 64}
    (hdata : ∀ p, 32 ≤ p → data.getLsbD p = false) :
    storeBytes (loadData .word .right val vaddr data) 4 =
      loadRight (byteOfWord vaddr) (storeBytes val 4) (storeBytes data 4) := by
  have hk := byteOfWord_lt vaddr
  rw [loadRight_storeBytes _ _ (by omega), loadData]
  apply storeBytes_splice (by omega)
  · intro p hp
    have hmin : min p (32 - 1) = p := by omega
    rw [BitVec.getLsbD_or, BitVec.getLsbD_and, BitVec.getLsbD_not,
      signExtend_getLsbD _ (by decide) (by decide) (by omega),
      signExtend_getLsbD _ (by decide) (by decide) (by omega), hmin, lowMask_getLsbD (by omega),
      hostShr64_getLsbD _ (by omega), BitVec.getLsbD_ushiftRight]
    grind
  · intro p hp
    have hmin : min (8 * (byteOfWord vaddr + 1) + p) (32 - 1) =
      8 * (byteOfWord vaddr + 1) + p := by omega
    rw [BitVec.getLsbD_or, BitVec.getLsbD_and, BitVec.getLsbD_not,
      signExtend_getLsbD _ (by decide) (by decide) (by omega),
      signExtend_getLsbD _ (by decide) (by decide) (by omega), hmin, lowMask_getLsbD (by omega),
      hostShr64_getLsbD _ (by omega), hdata _ (by omega), BitVec.getLsbD_ushiftRight]
    grind

theorem lwr_last (val data : BitVec 64) {vaddr : BitVec 64} (h : byteOfWord vaddr = 3) :
    loadData .word .right val vaddr data = signExtend data 32 := by
  apply BitVec.eq_of_getLsbD_eq
  intro i hi
  rw [loadData, h, BitVec.getLsbD_or, BitVec.getLsbD_and, BitVec.getLsbD_not,
    signExtend_getLsbD _ (by decide) (by decide) hi,
    signExtend_getLsbD _ (by decide) (by decide) hi,
    signExtend_getLsbD _ (by decide) (by decide) hi, lowMask_getLsbD (by omega),
    hostShr64_getLsbD _ (by omega)]
  grind

theorem lwr_getLsbD (val : BitVec 64) {vaddr data : BitVec 64}
    (hdata : ∀ p, 32 ≤ p → data.getLsbD p = false) (h : byteOfWord vaddr ≠ 3) {p : Nat}
    (hp : 31 ≤ p) :
    (loadData .word .right val vaddr data).getLsbD p = val.getLsbD p := by
  have hk := byteOfWord_lt vaddr
  by_cases hin : p < 64
  · have hmin : min p (32 - 1) = 31 := by omega
    rw [loadData, BitVec.getLsbD_or, BitVec.getLsbD_and, BitVec.getLsbD_not,
      signExtend_getLsbD _ (by decide) (by decide) hin,
      signExtend_getLsbD _ (by decide) (by decide) hin, hmin, lowMask_getLsbD (by omega),
      hostShr64_getLsbD _ (by omega), hdata _ (by omega)]
    grind
  · rw [BitVec.getLsbD_of_ge _ _ (by omega), BitVec.getLsbD_of_ge _ _ (by omega)]

theorem lwr_high (val : BitVec 64) {vaddr data : BitVec 64}
    (hdata : ∀ p, 32 ≤ p → data.getLsbD p = false) (h : byteOfWord vaddr ≠ 3) :
    loadData .word .right val vaddr data >>> 32 = val >>> 32 := by
  apply BitVec.eq_of_getLsbD_eq
  intro i hi
  rw [BitVec.getLsbD_ushiftRight, BitVec.getLsbD_ushiftRight, lwr_getLsbD val hdata h (by omega)]

theorem lwr_signExtend {val : BitVec 64} {vaddr data : BitVec 64}
    (hdata : ∀ p, 32 ≤ p → data.getLsbD p = false) (hval : val = signExtend val 32) :
    loadData .word .right val vaddr data =
      signExtend (loadData .word .right val vaddr data) 32 := by
  by_cases h : byteOfWord vaddr = 3
  · rw [lwr_last val data h, signExtend_signExtend_word]
  apply BitVec.eq_of_getLsbD_eq
  intro i hi
  rw [signExtend_getLsbD _ (by decide) (by decide) hi]
  by_cases hlow : i ≤ 32 - 1
  · rw [Nat.min_eq_left hlow]
  · rw [Nat.min_eq_right (by omega), lwr_getLsbD val hdata h (by omega),
      lwr_getLsbD val hdata h (by omega), hval, signExtend_getLsbD _ (by decide) (by decide) hi,
      Nat.min_eq_right (by omega), signExtend_getLsbD _ (by decide) (by decide) (by omega),
      Nat.min_self]

theorem low_getLsbD (val : BitVec 64) (p : Nat) :
    (val &&& 0xffffffff).getLsbD p = (val.getLsbD p && decide (p < 32)) := by
  have hmask : (0xffffffff : BitVec 64) = (BitVec.allOnes 32).setWidth 64 := rfl
  rw [BitVec.getLsbD_and, hmask, BitVec.getLsbD_setWidth, BitVec.getLsbD_allOnes]
  grind

theorem swl_bytes (val vaddr data : BitVec 64) :
    storeBytes (swlData val vaddr data) 4 =
      storeLeft (byteOfWord vaddr) (storeBytes val 4) (storeBytes data 4) := by
  have hk := byteOfWord_lt vaddr
  rw [storeLeft_storeBytes _ _ (by omega), swlData]
  apply storeBytes_splice (by omega)
  · intro p hp
    rw [BitVec.getLsbD_or, BitVec.getLsbD_and, BitVec.getLsbD_not, wordMask_getLsbD (by omega),
      hostShr64_getLsbD _ (by omega), low_getLsbD, BitVec.getLsbD_ushiftRight]
    grind
  · intro p hp
    rw [BitVec.getLsbD_or, BitVec.getLsbD_and, BitVec.getLsbD_not, wordMask_getLsbD (by omega),
      hostShr64_getLsbD _ (by omega), low_getLsbD, BitVec.getLsbD_ushiftRight]
    grind

theorem swr_bytes (val data : BitVec 64) {vaddr : BitVec 64} (h : byteOfWord vaddr ≠ 3) :
    storeBytes (swrData val vaddr data) 4 =
      storeRight (byteOfWord vaddr) (storeBytes val 4) (storeBytes data 4) := by
  have hk := byteOfWord_lt vaddr
  rw [storeRight_storeBytes _ _ (by omega), swrData]
  apply storeBytes_splice (by omega)
  · intro p hp
    rw [BitVec.getLsbD_or, BitVec.getLsbD_and, wordMask_getLsbD (by omega), low_getLsbD,
      hostShl64_getLsbD _ (by omega)]
    grind
  · intro p hp
    rw [BitVec.getLsbD_or, BitVec.getLsbD_and, wordMask_getLsbD (by omega), low_getLsbD,
      hostShl64_getLsbD _ (by omega)]
    grind

theorem sdl_bytes (val vaddr data : BitVec 64) :
    storeBytes (sdlData val vaddr data) 8 =
      storeLeft (byteOfDouble vaddr) (storeBytes val 8) (storeBytes data 8) := by
  have hk := byteOfDouble_lt vaddr
  rw [storeLeft_storeBytes _ _ (by omega), sdlData]
  apply storeBytes_splice (by omega)
  · intro p hp
    rw [BitVec.getLsbD_or, BitVec.getLsbD_and, BitVec.getLsbD_not, doubleMask_getLsbD (by omega),
      hostShr64_getLsbD _ (by omega), BitVec.getLsbD_ushiftRight]
    grind
  · intro p hp
    have hout : val.getLsbD
        (byteOfDouble vaddr * 8 + (8 * (8 - byteOfDouble vaddr) + p)) = false :=
      BitVec.getLsbD_of_ge _ _ (by omega)
    rw [BitVec.getLsbD_or, BitVec.getLsbD_and, BitVec.getLsbD_not, doubleMask_getLsbD (by omega),
      hostShr64_getLsbD _ (by omega), hout, BitVec.getLsbD_ushiftRight]
    grind

theorem sdr_bytes (val data : BitVec 64) {vaddr : BitVec 64} (h : byteOfDouble vaddr ≠ 7) :
    storeBytes (sdrData val vaddr data) 8 =
      storeRight (byteOfDouble vaddr) (storeBytes val 8) (storeBytes data 8) := by
  have hk := byteOfDouble_lt vaddr
  rw [storeRight_storeBytes _ _ (by omega), sdrData]
  apply storeBytes_splice (by omega)
  · intro p hp
    rw [BitVec.getLsbD_or, BitVec.getLsbD_and, doubleMask_getLsbD (by omega),
      hostShl64_getLsbD _ (by omega)]
    grind
  · intro p hp
    rw [BitVec.getLsbD_or, BitVec.getLsbD_and, doubleMask_getLsbD (by omega),
      hostShl64_getLsbD _ (by omega)]
    grind

/-! The last byte, where a count is the width of its operand. -/

theorem ldr_last (val data : BitVec 64) {vaddr : BitVec 64} (h : byteOfDouble vaddr = 7) :
    loadData .double .right val vaddr data = val ||| data := by
  have hmask : ~~~(hostShl64 1 64 - 1) = BitVec.allOnes 64 := rfl
  simp only [loadData, h, hmask, BitVec.and_allOnes]
  rfl

theorem swr_last (val data : BitVec 64) {vaddr : BitVec 64} (h : byteOfWord vaddr = 3) :
    storeBytes (swrData val vaddr data) 4 = storeBytes (val ||| data) 4 := by
  have hmask : (hostShr32 0xffffffff 32).setWidth 64 = (0xffffffff : BitVec 64) := rfl
  apply storeBytes_congr
  intro p hp
  simp only [swrData, h, hmask]
  rw [BitVec.getLsbD_or, low_getLsbD, low_getLsbD, hostShl64_getLsbD _ (by omega),
    BitVec.getLsbD_or]
  grind

theorem sdr_last (val data : BitVec 64) {vaddr : BitVec 64} (h : byteOfDouble vaddr = 7) :
    sdrData val vaddr data = val ||| data := by
  have hmask : hostShr64 0xffffffffffffffff 64 = BitVec.allOnes 64 := rfl
  have hshl : hostShl64 val 0 = val := by simp [hostShl64]
  simp only [sdrData, h, hmask, BitVec.and_allOnes, BitVec.or_comm val]
  exact congrArg (data ||| ·) hshl

/-! The handlers. -/

def LoadFull (w : Width) (s : Side) (vaddr : BitVec 64) : Prop :=
  w = .double ∧ s = .right ∧ w.byte vaddr + 1 = w.size

def StoreFull (w : Width) (s : Side) (vaddr : BitVec 64) : Prop :=
  s = .right ∧ w.byte vaddr + 1 = w.size

theorem loadShifts_ok (w : Width) (s : Side) (vaddr : BitVec 64) :
    (∀ c ∈ loadShifts w s vaddr, c.1 < c.2) ↔ ¬ LoadFull w s vaddr := by
  have hw := byteOfWord_lt vaddr
  have hd := byteOfDouble_lt vaddr
  cases w <;> cases s <;> simp [loadShifts, LoadFull, Width.byte, Width.size] <;> omega

theorem storeShifts_ok (w : Width) (s : Side) (vaddr : BitVec 64) :
    (∀ c ∈ storeShifts w s vaddr, c.1 < c.2) ↔ ¬ StoreFull w s vaddr := by
  have hw := byteOfWord_lt vaddr
  have hd := byteOfDouble_lt vaddr
  cases w <;> cases s <;> simp [storeShifts, StoreFull, Width.byte, Width.size] <;> omega

/-- The register has got its bytes of a group and kept the others. The upper
half is a sign extension when the sign of the word is among the bytes. -/
structure Loaded (w : Width) (s : Side) (k : Nat) (old : BitVec 64) (group : List Byte)
    (v : BitVec 64) : Prop where
  bytes : storeBytes v w.size = s.load k (storeBytes old w.size) group
  high : w = .word →
    if s = .left ∨ k + 1 = w.size then v = signExtend v 32 else v >>> 32 = old >>> 32

theorem loaded {w : Width} {s : Side} (val : BitVec 64) {vaddr data : BitVec 64}
    (hdata : ∀ p, 8 * w.size ≤ p → data.getLsbD p = false) (h : ¬ LoadFull w s vaddr) :
    Loaded w s (w.byte vaddr) val (storeBytes data w.size) (loadData w s val vaddr data) := by
  cases w with
  | word =>
    cases s with
    | left =>
      refine ⟨lwl_bytes val vaddr data, fun _ => ?_⟩
      rw [if_pos (Or.inl rfl), loadData, signExtend_signExtend_word]
    | right =>
      refine ⟨lwr_bytes val hdata, fun _ => ?_⟩
      by_cases hk : byteOfWord vaddr = 3
      · rw [if_pos (Or.inr (by rw [Width.byte, hk]; rfl)), lwr_last val _ hk,
          signExtend_signExtend_word]
      · rw [if_neg (by simp [Width.byte, Width.size, hk]), lwr_high val hdata hk]
  | double =>
    cases s with
    | left => exact ⟨ldl_bytes val vaddr data, fun hw => by cases hw⟩
    | right =>
      have hk : byteOfDouble vaddr ≠ 7 := fun hk => h ⟨rfl, rfl, by rw [Width.byte, hk]; rfl⟩
      exact ⟨ldr_bytes val data hk, fun hw => by cases hw⟩

theorem stored {w : Width} {s : Side} (val data : BitVec 64) {vaddr : BitVec 64}
    (h : ¬ StoreFull w s vaddr) :
    storeBytes (storeData w s val vaddr data) w.size =
      s.store (w.byte vaddr) (storeBytes val w.size) (storeBytes data w.size) := by
  cases w with
  | word =>
    cases s with
    | left => exact swl_bytes val vaddr data
    | right => exact swr_bytes val data fun hk => h ⟨rfl, by rw [Width.byte, hk]; rfl⟩
  | double =>
    cases s with
    | left => exact sdl_bytes val vaddr data
    | right => exact sdr_bytes val data fun hk => h ⟨rfl, by rw [Width.byte, hk]; rfl⟩

theorem vmLoad_bytes (w : Width) (mem : HostAddr → Byte) (haddr : HostAddr) :
    storeBytes (vmLoad mem haddr w.size) w.size = hostRead mem haddr w.size := by
  have hlen := length_hostRead mem haddr w.size
  have hle : (hostRead mem haddr w.size).length ≤ 8 := by
    rw [hlen]
    cases w <;> decide
  have h := storeBytes_loadValue hle
  rwa [hlen, ← vmLoad_eq] at h

theorem vmLoad_getLsbD (w : Width) (mem : HostAddr → Byte) (haddr : HostAddr) {p : Nat}
    (hp : 8 * w.size ≤ p) : (vmLoad mem haddr w.size).getLsbD p = false := by
  rw [vmLoad_eq]
  exact loadValue_getLsbD _ (by rwa [length_hostRead])

variable {env : Env W} {cpu cpu' : Cpu W}

theorem mtsRead_of_access {vaddr d : BitVec 64} {op : MemOp} {size : Nat} {haddr : HostAddr}
    (h : mtsAccess env cpu vaddr op size .read env.data = .done (some haddr, d) cpu') :
    mtsRead env cpu vaddr op size = .done (vmLoad cpu'.vm.mem haddr size) cpu' := by
  rw [mtsRead, h]
  rfl

theorem memOpFn_load_done {w : Width} {s : Side} {vaddr d : BitVec 64} {haddr : HostAddr}
    (reg : RegNum) (h : mtsAccess env cpu (w.naddr vaddr) (loadOp w s) w.size .read env.data =
      .done (some haddr, d) cpu') :
    memOpFn (loadOp w s) env cpu vaddr reg = .done () (cpu'.setGpr reg
      (loadData w s (cpu'.gpr reg) vaddr (vmLoad cpu'.vm.mem haddr w.size))) := by
  rw [memOpFn_load, mtsRead_of_access h]
  rfl

theorem memOpFn_store_done {w : Width} {s : Side} {vaddr d : BitVec 64} {haddr : HostAddr}
    (reg : RegNum) (h : mtsAccess env cpu (w.naddr vaddr) (storeOp w s) w.size .read env.data =
      .done (some haddr, d) cpu') :
    memOpFn (storeOp w s) env cpu vaddr reg = mtsWrite env cpu' (w.naddr vaddr) (storeOp w s)
      w.size (storeData w s (cpu'.gpr reg) vaddr (vmLoad cpu'.vm.mem haddr w.size)) := by
  rw [memOpFn_store, mtsRead_of_access h]
  rfl

theorem access_gpr {vaddr data : BitVec 64} {op : MemOp} {size : Nat} {opType : MtsOp}
    {res : Option HostAddr × BitVec 64}
    (h : mtsAccess env cpu vaddr op size opType data = .done res cpu') : cpu'.gpr = cpu.gpr := by
  rw [mtsAccess_done h]

theorem mtsWrite_gpr {vaddr data : BitVec 64} {op : MemOp} {size : Nat}
    (h : mtsWrite env cpu vaddr op size data = .done () cpu') : cpu'.gpr = cpu.gpr := by
  obtain ⟨⟨haddr, d⟩, mid, hacc, h⟩ := Outcome.bind_eq_done h
  have hgpr := access_gpr hacc
  cases haddr with
  | none =>
    cases h
    exact hgpr
  | some haddr =>
    cases h
    exact hgpr

/-- A load of a part from memory makes no shift by the width of its operand,
and gives the register its bytes of the group. -/
structure LoadOk (w : Width) (s : Side) (env : Env W) (cpu : Cpu W) (vaddr : BitVec 64)
    (reg : RegNum) : Prop where
  counts : ∀ c ∈ loadShifts w s vaddr, c.1 < c.2
  effect : ∀ haddr d cpu',
    mtsAccess env cpu (w.naddr vaddr) (loadOp w s) w.size .read env.data =
      .done (some haddr, d) cpu' →
    ∃ v, memOpFn (loadOp w s) env cpu vaddr reg = .done () (cpu'.setGpr reg v) ∧
      Loaded w s (w.byte vaddr) (cpu.gpr reg) (hostRead cpu'.vm.mem haddr w.size) v

/-- A store of a part to memory makes no such shift either, and writes the group
with the bytes of the register in it. -/
structure StoreOk (w : Width) (s : Side) (env : Env W) (cpu : Cpu W) (vaddr : BitVec 64)
    (reg : RegNum) : Prop where
  counts : ∀ c ∈ storeShifts w s vaddr, c.1 < c.2
  effect : ∀ haddr d cpu',
    mtsAccess env cpu (w.naddr vaddr) (storeOp w s) w.size .read env.data =
      .done (some haddr, d) cpu' →
    ∃ data, storeBytes data w.size = s.store (w.byte vaddr) (storeBytes (cpu.gpr reg) w.size)
        (hostRead cpu'.vm.mem haddr w.size) ∧
      memOpFn (storeOp w s) env cpu vaddr reg =
        mtsWrite env cpu' (w.naddr vaddr) (storeOp w s) w.size data ∧
      ∀ haddr' last, mtsAccess env cpu' (w.naddr vaddr) (storeOp w s) w.size .write data =
          .done (some haddr', data) last →
        memOpFn (storeOp w s) env cpu vaddr reg = .done ()
          { last with vm :=
            { last.vm with mem := hostWrite last.vm.mem haddr' (storeBytes data w.size) } }

theorem loadOk_iff (w : Width) (s : Side) (env : Env W) (cpu : Cpu W) (vaddr : BitVec 64)
    (reg : RegNum) : LoadOk w s env cpu vaddr reg ↔ ¬ LoadFull w s vaddr := by
  constructor
  · exact fun h => (loadShifts_ok w s vaddr).mp h.counts
  · intro h
    refine ⟨(loadShifts_ok w s vaddr).mpr h, fun haddr d cpu' hacc => ?_⟩
    refine ⟨_, memOpFn_load_done reg hacc, ?_⟩
    rw [access_gpr hacc, ← vmLoad_bytes]
    exact loaded _ (fun p hp => vmLoad_getLsbD w _ _ hp) h

theorem storeOk_iff (w : Width) (s : Side) (env : Env W) (cpu : Cpu W) (vaddr : BitVec 64)
    (reg : RegNum) : StoreOk w s env cpu vaddr reg ↔ ¬ StoreFull w s vaddr := by
  constructor
  · exact fun h => (storeShifts_ok w s vaddr).mp h.counts
  · intro h
    refine ⟨(storeShifts_ok w s vaddr).mpr h, fun haddr d cpu' hacc => ?_⟩
    have hstore := memOpFn_store_done reg hacc
    refine ⟨_, ?_, hstore, fun haddr' last hwrite => ?_⟩
    · rw [stored _ _ h, access_gpr hacc, vmLoad_bytes]
    · have hle : w.size ≤ 2 ^ 64 := by cases w <;> decide
      rw [hstore, mtsWrite, hwrite, ← vmStore_eq _ _ hle]
      rfl

/-! The two parts of an unaligned value. -/

def Width.last (w : Width) (vaddr : BitVec 64) : BitVec 64 := vaddr + BitVec.ofNat 64 (w.size - 1)

/-- The two loads, when the second one finds the group that the first one found
wherever they are for the same group. -/
def LoadPair (w : Width) (env : Env W) (cpu : Cpu W) (vaddr : BitVec 64) (reg : RegNum) : Prop :=
  ∀ h₀ d₀ cpu₀ h₁ d₁ cpu₁ mid,
    mtsAccess env cpu (w.naddr vaddr) (loadOp w .left) w.size .read env.data =
      .done (some h₀, d₀) cpu₀ →
    memOpFn (loadOp w .left) env cpu vaddr reg = .done () mid →
    mtsAccess env mid (w.naddr (w.last vaddr)) (loadOp w .right) w.size .read env.data =
      .done (some h₁, d₁) cpu₁ →
    (w.byte vaddr = 0 → hostRead cpu₁.vm.mem h₁ w.size = hostRead cpu₀.vm.mem h₀ w.size) →
    ∃ v, memOpFn (loadOp w .right) env mid (w.last vaddr) reg = .done () (cpu₁.setGpr reg v) ∧
      storeBytes v w.size = window (w.byte vaddr) w.size (hostRead cpu₀.vm.mem h₀ w.size)
        (hostRead cpu₁.vm.mem h₁ w.size) ∧
      (w = .word → v = signExtend v 32)

/-- The two stores: across two groups they write the value and nothing else, and
in a single group both write the value. -/
def StorePair (w : Width) (env : Env W) (cpu : Cpu W) (vaddr : BitVec 64) (reg : RegNum) : Prop :=
  ∀ h₀ d₀ cpu₀ h₁ d₁ cpu₁ mid,
    mtsAccess env cpu (w.naddr vaddr) (storeOp w .left) w.size .read env.data =
      .done (some h₀, d₀) cpu₀ →
    memOpFn (storeOp w .left) env cpu vaddr reg = .done () mid →
    mtsAccess env mid (w.naddr (w.last vaddr)) (storeOp w .right) w.size .read env.data =
      .done (some h₁, d₁) cpu₁ →
    ∃ data₀ data₁,
      memOpFn (storeOp w .left) env cpu vaddr reg =
        mtsWrite env cpu₀ (w.naddr vaddr) (storeOp w .left) w.size data₀ ∧
      memOpFn (storeOp w .right) env mid (w.last vaddr) reg =
        mtsWrite env cpu₁ (w.naddr (w.last vaddr)) (storeOp w .right) w.size data₁ ∧
      (w.byte vaddr ≠ 0 → storeBytes data₀ w.size ++ storeBytes data₁ w.size =
        (hostRead cpu₀.vm.mem h₀ w.size ++ hostRead cpu₁.vm.mem h₁ w.size).take (w.byte vaddr) ++
          storeBytes (cpu.gpr reg) w.size ++
          (hostRead cpu₀.vm.mem h₀ w.size ++ hostRead cpu₁.vm.mem h₁ w.size).drop
            (w.byte vaddr + w.size)) ∧
      (w.byte vaddr = 0 → storeBytes data₀ w.size = storeBytes (cpu.gpr reg) w.size ∧
        (hostRead cpu₁.vm.mem h₁ w.size = storeBytes data₀ w.size →
          storeBytes data₁ w.size = storeBytes (cpu.gpr reg) w.size))

theorem byte_last (w : Width) (vaddr : BitVec 64) :
    (w.byte vaddr = 0 ∧ w.byte (w.last vaddr) + 1 = w.size) ∨
      w.byte vaddr = w.byte (w.last vaddr) + 1 := by
  rw [byte_eq, byte_eq, Width.last, BitVec.toNat_add]
  cases w with
  | word =>
    have h : (BitVec.ofNat 64 (Width.word.size - 1)).toNat = 3 := rfl
    rw [h, Width.size]
    omega
  | double =>
    have h : (BitVec.ofNat 64 (Width.double.size - 1)).toNat = 7 := rfl
    rw [h, Width.size]
    omega

theorem ldl_first (val data : BitVec 64) {vaddr : BitVec 64} (h : byteOfDouble vaddr = 0) :
    loadData .double .left val vaddr data = data := by
  have hmask : hostShl64 1 0 - 1 = 0 := rfl
  simp only [loadData, h, Nat.zero_mul, hmask]
  simp [hostShl64]

theorem loadPair (w : Width) (env : Env W) (cpu : Cpu W) (vaddr : BitVec 64) (reg : RegNum) :
    LoadPair w env cpu vaddr reg := by
  intro h₀ d₀ cpu₀ h₁ d₁ cpu₁ mid hacc₀ hleft hacc₁ hsame
  have hrun := memOpFn_load_done reg hacc₀
  rw [hleft, Outcome.done.injEq] at hrun
  have hgpr : cpu₁.gpr reg =
      loadData w .left (cpu₀.gpr reg) vaddr (vmLoad cpu₀.vm.mem h₀ w.size) := by
    rw [access_gpr hacc₁, hrun.2]
    exact Function.update_self _ _ _
  have hzero₀ : ∀ p, 8 * w.size ≤ p → (vmLoad cpu₀.vm.mem h₀ w.size).getLsbD p = false :=
    fun p hp => vmLoad_getLsbD w _ _ hp
  have hzero₁ : ∀ p, 8 * w.size ≤ p → (vmLoad cpu₁.vm.mem h₁ w.size).getLsbD p = false :=
    fun p hp => vmLoad_getLsbD w _ _ hp
  have hfirst := @loaded w .left (cpu₀.gpr reg) vaddr _ hzero₀ (by simp [LoadFull])
  rw [← hgpr, vmLoad_bytes] at hfirst
  refine ⟨_, memOpFn_load_done reg hacc₁, ?_, ?_⟩
  · by_cases hfull : LoadFull w .right (w.last vaddr)
    · obtain ⟨rfl, -, hlast⟩ := hfull
      have hk : Width.double.byte vaddr = 0 := by
        have hlt := Width.double.byte_lt vaddr
        have hcases := byte_last .double vaddr
        omega
      have hdata := congrArg loadValue (hsame hk)
      rw [← vmLoad_eq, ← vmLoad_eq] at hdata
      rw [ldr_last _ _ (by simpa [Width.byte, Width.size] using hlast), hgpr,
        ldl_first _ _ (by simpa [Width.byte] using hk), hdata, BitVec.or_self, vmLoad_bytes, hk,
        window_eq (by simp) (by simp) (by simp), List.drop_zero, List.take_zero, List.append_nil]
    · have hsecond := @loaded w .right (cpu₁.gpr reg) (w.last vaddr) _ hzero₁ hfull
      rw [hsecond.bytes, hfirst.bytes, vmLoad_bytes]
      rcases byte_last w vaddr with ⟨hk, hlast⟩ | hk
      · rw [hk, window_eq (by simp) (by simp) (by simp), List.drop_zero, List.take_zero,
          List.append_nil, ← hsame hk]
        exact loadRight_last (length_loadLeft (by simp) (by simp) (by omega)) (by simp) hlast
      · rw [hk]
        exact load_pair (by simp) (by simp) (by simp) (w.byte_lt _)
  · rintro rfl
    have hsign := hfirst.high rfl
    rw [if_pos (Or.inl rfl)] at hsign
    exact lwr_signExtend hzero₁ hsign

theorem storePair (w : Width) (env : Env W) (cpu : Cpu W) (vaddr : BitVec 64) (reg : RegNum) :
    StorePair w env cpu vaddr reg := by
  intro h₀ d₀ cpu₀ h₁ d₁ cpu₁ mid hacc₀ hleft hacc₁
  have hstore := memOpFn_store_done reg hacc₀
  have hgpr₀ : cpu₀.gpr reg = cpu.gpr reg := by rw [access_gpr hacc₀]
  have hgpr₁ : cpu₁.gpr reg = cpu.gpr reg := by
    rw [access_gpr hacc₁, mtsWrite_gpr (hstore.symm.trans hleft), hgpr₀]
  have hfirst := @stored w .left (cpu₀.gpr reg) (vmLoad cpu₀.vm.mem h₀ w.size) vaddr
    (by simp [StoreFull])
  rw [vmLoad_bytes, hgpr₀] at hfirst
  refine ⟨_, _, hstore, memOpFn_store_done reg hacc₁, fun hk => ?_, fun hk => ⟨?_, fun hsame => ?_⟩⟩
  · have hlast : w.byte vaddr = w.byte (w.last vaddr) + 1 :=
      (byte_last w vaddr).resolve_left fun h => hk h.1
    have hfull : ¬ StoreFull w .right (w.last vaddr) := fun h => by
      have hlt := w.byte_lt vaddr
      have hsize := h.2
      omega
    rw [hgpr₀, hgpr₁, hfirst, stored _ _ hfull, vmLoad_bytes, hlast]
    exact store_pair (by simp) (by simp) (by simp) (w.byte_lt _)
  · rw [hgpr₀, hfirst, hk]
    exact storeLeft_zero (length_storeBytes _ _) (length_hostRead _ _ _)
  · have hvalue : storeBytes (vmLoad cpu₁.vm.mem h₁ w.size) w.size =
        storeBytes (cpu.gpr reg) w.size := by
      rw [vmLoad_bytes, hsame, hgpr₀, hfirst, hk]
      exact storeLeft_zero (length_storeBytes _ _) (length_hostRead _ _ _)
    have hor : storeBytes (cpu.gpr reg ||| vmLoad cpu₁.vm.mem h₁ w.size) w.size =
        storeBytes (cpu.gpr reg) w.size := by
      apply storeBytes_congr
      intro p hp
      rw [BitVec.getLsbD_or, getLsbD_of_storeBytes hvalue hp, Bool.or_self]
    have hlast : w.byte (w.last vaddr) + 1 = w.size := by
      have hcases := byte_last w vaddr
      omega
    rw [hgpr₁]
    cases w with
    | word =>
      exact (swr_last _ _ (by simpa [Width.byte, Width.size] using hlast)).trans hor
    | double =>
      rw [← hor]
      exact congrArg (storeBytes · 8)
        (sdr_last _ _ (by simpa [Width.byte, Width.size] using hlast))

/-- Each load and store of a part does what it should, but for a right access at
the last byte of its group whose shift is by a full width; the pairs always do. -/
theorem unaligned_ok_iff (env : Env W) (cpu : Cpu W) (vaddr : BitVec 64) (reg : RegNum) :
    (∀ w s, LoadOk w s env cpu vaddr reg ↔ ¬ LoadFull w s vaddr) ∧
      (∀ w s, StoreOk w s env cpu vaddr reg ↔ ¬ StoreFull w s vaddr) ∧
      ∀ w, LoadPair w env cpu vaddr reg ∧ StorePair w env cpu vaddr reg :=
  ⟨fun w s => loadOk_iff w s env cpu vaddr reg, fun w s => storeOk_iff w s env cpu vaddr reg,
    fun w => ⟨loadPair w env cpu vaddr reg, storePair w env cpu vaddr reg⟩⟩

/-- A CPU of a board whose memory is zero, with ones in its registers -/
def onesCpu : Cpu Unit := ramCpu [] (fun _ => BitVec.allOnes 64) fun _ => ⟨0, 0, 0, 0⟩

def foundBytes (n : Nat) : Outcome W (Option HostAddr × BitVec 64) → Option (List Byte)
  | .done (some haddr, _) cpu => some (hostRead cpu.vm.mem haddr n)
  | _ => none

theorem foundBytes_eq_some {n : Nat} {o : Outcome W (Option HostAddr × BitVec 64)}
    {bytes : List Byte} (h : foundBytes n o = some bytes) :
    ∃ haddr d cpu, o = .done (some haddr, d) cpu ∧ hostRead cpu.vm.mem haddr n = bytes := by
  cases o with
  | done res cpu =>
    obtain ⟨haddr, d⟩ := res
    cases haddr with
    | none => cases h
    | some haddr => exact ⟨haddr, d, cpu, rfl, Option.some.inj h⟩
  | loopEnter cpu => cases h
  | fault => cases h

/-- `ldr $1,7($2)` leaves the register as it is. -/
theorem not_unaligned_ok : ¬ ∀ (w : Width) (s : Side) (cpu : Cpu Unit) (vaddr : BitVec 64)
    (reg : RegNum), LoadOk w s quietEnv cpu vaddr reg ∧ StoreOk w s quietEnv cpu vaddr reg := by
  intro h
  have hfound : foundBytes 8 (mtsAccess quietEnv onesCpu 0xffffffff80000000 .ldr 8 .read 0) =
      some (List.replicate 8 0) := by decide
  obtain ⟨haddr, d, cpu', hacc, hbytes⟩ := foundBytes_eq_some hfound
  obtain ⟨v, hrun, hv⟩ := (h .double .right onesCpu 0xffffffff80000007 1).1.effect _ _ _ hacc
  have hmine := @memOpFn_load_done _ _ _ _ .double .right 0xffffffff80000007 d haddr 1 hacc
  have hgpr : onesCpu.gpr 1 = BitVec.allOnes 64 := rfl
  rw [hrun, ldr_last _ _ rfl, access_gpr hacc, hgpr, BitVec.allOnes_or, Outcome.done.injEq] at hmine
  have hones : v = BitVec.allOnes 64 := by
    have hreg := congrArg (fun cpu : Cpu Unit => cpu.gpr 1) hmine.2
    simpa [Cpu.setGpr, Regs.setGpr] using hreg
  have hload := hv.bytes
  rw [show Width.double.size = 8 from rfl, hbytes, hones] at hload
  revert hload
  decide

end Dynamips.Mips64
