import Dynamips.Lib.Bytes
import Dynamips.Lib.OnesSum
import Mathlib.Logic.Function.Basic

/-! The Internet checksum over the bytes of a packet. -/
set_option autoImplicit false

namespace Dynamips.Packet
open Function

/-- An `unsigned int` that is added to; `overflow` says whether it ever left its 32 bits. -/
structure Acc where
  sum : BitVec 32
  overflow : Bool

def Acc.add (acc : Acc) (v : BitVec 32) : Acc :=
  ⟨acc.sum + v, acc.overflow || acc.sum.uaddOverflow v⟩

def Acc.start (seed : BitVec 32) : Acc := ⟨seed, false⟩

def pair (hi lo : Byte) : BitVec 32 := (hi.setWidth 32 <<< 8) ||| lo.setWidth 32

/-- `sum_bytes`, with the sum so far. -/
def sumBytes : Acc → List Byte → Acc
  | acc, hi :: lo :: data => sumBytes (acc.add (pair hi lo)) data
  | acc, [hi] => acc.add (hi.setWidth 32 <<< 8)
  | acc, [] => acc

def fold (sum : BitVec 32) : BitVec 32 := (sum &&& 0xffff#32) + (sum >>> 16)

def folded (sum : BitVec 32) : BitVec 16 := (~~~fold (fold sum)).setWidth 16

/-- The loop of `checksum` over the pieces of 65536 bytes. -/
def checksumPieces (seed : Acc) (data : List Byte) : Acc :=
  if data.length = 0 then seed
  else
    let size := min data.length 65536
    let piece := sumBytes (Acc.start 0) (data.take size)
    let seed := seed.add piece.sum
    checksumPieces ⟨fold seed.sum, seed.overflow || piece.overflow⟩ (data.drop size)
termination_by data.length
decreasing_by
  rw [List.length_drop]
  omega

def checksumAcc (data : List Byte) (seed : BitVec 32) : Acc :=
  checksumPieces (Acc.start (fold seed)) data

def checksum (data : List Byte) (seed : BitVec 32) : BitVec 16 := folded (checksumAcc data seed).sum

/-- The bytes of an IP header in memory, as many as its first byte says. -/
def header (p : Nat → Byte) : List Byte := (List.range ((p 0 &&& 15).toNat * 4)).map p

def headerSum (p : Nat → Byte) : BitVec 16 := folded (sumBytes (Acc.start 0) (header p)).sum

def ipVerifyCksum (p : Nat → Byte) : Bool := decide (headerSum p = 0)

def putWord (p : Nat → Byte) (o : Nat) (value : BitVec 16) : Nat → Byte :=
  update (update p o ((value >>> 8).setWidth 8)) (o + 1) (value.setWidth 8)

def ipComputeCksum (p : Nat → Byte) : Nat → Byte :=
  let p := putWord p 10 0
  putWord p 10 (headerSum p)

/-! The sum that RFC 1071 defines. -/

/-- The 16-bit words of a byte string, the odd byte with a zero after it. -/
def beWords : List Byte → List Nat
  | hi :: lo :: data => (hi.toNat * 256 + lo.toNat) :: beWords data
  | [hi] => [hi.toNat * 256]
  | [] => []

def seedWords (seed : BitVec 32) : List Nat := [seed.toNat / 65536, seed.toNat % 65536]

def onesChecksum (words : List Nat) : BitVec 16 := ~~~BitVec.ofNat 16 (onesSum words)

theorem beWords_lt (data : List Byte) : ∀ w ∈ beWords data, w < 2 ^ 16 := by
  induction data using beWords.induct with
  | case1 hi lo data ih =>
    have hhi := hi.isLt
    have hlo := lo.isLt
    rw [beWords, List.forall_mem_cons]
    exact ⟨by omega, ih⟩
  | case2 hi =>
    have hhi := hi.isLt
    simp only [beWords, List.forall_mem_singleton]
    omega
  | case3 => simp [beWords]

theorem beWords_sum_le (data : List Byte) :
    (beWords data).sum ≤ (data.length + 1) / 2 * 65535 := by
  induction data using beWords.induct with
  | case1 hi lo data ih =>
    have hhi := hi.isLt
    have hlo := lo.isLt
    simp only [beWords, List.sum_cons, List.length_cons]
    omega
  | case2 hi =>
    have hhi := hi.isLt
    simp only [beWords, List.sum_cons, List.sum_nil, List.length_cons, List.length_nil]
    omega
  | case3 => simp [beWords]

theorem beWords_append {front : List Byte} (heven : front.length % 2 = 0) (data : List Byte) :
    beWords (front ++ data) = beWords front ++ beWords data := by
  induction front using beWords.induct with
  | case1 hi lo front ih =>
    simp only [List.length_cons] at heven
    simp only [List.cons_append, beWords, ih (by omega)]
  | case2 hi => simp at heven
  | case3 => rfl

theorem toNat_pair (hi lo : Byte) : (pair hi lo).toNat = hi.toNat * 256 + lo.toNat := by
  have hhi := hi.isLt
  have hlo := lo.isLt
  rw [pair, BitVec.toNat_or, BitVec.toNat_shiftLeft, BitVec.toNat_setWidth, BitVec.toNat_setWidth,
    Nat.mod_eq_of_lt (by omega : hi.toNat < 2 ^ 32),
    Nat.mod_eq_of_lt (by omega : lo.toNat < 2 ^ 32), Nat.shiftLeft_eq,
    Nat.mod_eq_of_lt (by omega)]
  rw [Nat.mul_comm, ← Nat.two_pow_add_eq_or_of_lt hlo]

theorem toNat_high (hi : Byte) : (hi.setWidth 32 <<< 8).toNat = hi.toNat * 256 := by
  have hhi := hi.isLt
  rw [BitVec.toNat_shiftLeft, BitVec.toNat_setWidth, Nat.shiftLeft_eq]
  omega

theorem Acc.add_exact {acc : Acc} {v : BitVec 32} (h : acc.sum.toNat + v.toNat < 2 ^ 32) :
    (acc.add v).sum.toNat = acc.sum.toNat + v.toNat ∧ (acc.add v).overflow = acc.overflow := by
  refine ⟨?_, ?_⟩
  · rw [Acc.add, BitVec.toNat_add, Nat.mod_eq_of_lt h]
  · simp only [Acc.add, BitVec.uaddOverflow, ge_iff_le, Nat.not_le.mpr h, decide_false,
      Bool.or_false]

theorem sumBytes_exact {acc : Acc} {data : List Byte}
    (h : acc.sum.toNat + (beWords data).sum < 2 ^ 32) :
    (sumBytes acc data).sum.toNat = acc.sum.toNat + (beWords data).sum ∧
      (sumBytes acc data).overflow = acc.overflow := by
  induction acc, data using sumBytes.induct with
  | case1 acc hi lo data ih =>
    rw [beWords, List.sum_cons] at h
    have hpair := toNat_pair hi lo
    have hadd := @Acc.add_exact acc (pair hi lo) (by omega)
    rw [hpair] at hadd
    obtain ⟨hsum, hover⟩ := ih (by rw [hadd.1]; omega)
    rw [sumBytes, hsum, hover, hadd.1, hadd.2, beWords, List.sum_cons]
    exact ⟨by omega, rfl⟩
  | case2 acc hi =>
    simp only [beWords, List.sum_cons, List.sum_nil, Nat.add_zero] at h ⊢
    have hfit : acc.sum.toNat + (hi.setWidth 32 <<< 8).toNat < 2 ^ 32 := by
      simpa only [toNat_high] using h
    have hadd := Acc.add_exact hfit
    rwa [toNat_high] at hadd
  | case3 acc => simp [sumBytes, beWords]

/-! Folding: what it keeps of a sum. -/

theorem toNat_fold (sum : BitVec 32) :
    (fold sum).toNat = sum.toNat % 65536 + sum.toNat / 65536 := by
  have hlt := sum.isLt
  have hlow : (sum &&& 0xffff#32).toNat = sum.toNat % 65536 := by
    rw [BitVec.toNat_and]
    exact Nat.and_two_pow_sub_one_eq_mod sum.toNat 16
  rw [fold, BitVec.toNat_add, hlow, BitVec.toNat_ushiftRight, Nat.shiftRight_eq_div_pow]
  omega

def SameSum (x s : Nat) : Prop := x % 0xFFFF = s % 0xFFFF ∧ (x = 0 ↔ s = 0)

theorem sameSum_fold {sum : BitVec 32} {s : Nat} (h : SameSum sum.toNat s) :
    SameSum (fold sum).toNat s := by
  rw [SameSum, toNat_fold] at *
  omega

theorem folded_eq {sum : BitVec 32} {words : List Nat} (hwords : ∀ w ∈ words, w < 2 ^ 16)
    (h : SameSum sum.toNat words.sum) : folded sum = onesChecksum words := by
  have hspec := onesSum_spec hwords
  have hlt := sum.isLt
  have hfold := sameSum_fold (sameSum_fold h)
  have hsmall : (fold (fold sum)).toNat < 2 ^ 16 := by
    rw [toNat_fold, toNat_fold]
    omega
  have heq : (fold (fold sum)).toNat = onesSum words := by
    obtain ⟨hmod, hzero⟩ := hfold
    omega
  rw [folded, onesChecksum, ← heq, BitVec.ofNat_toNat]
  ext i hi
  simp

theorem onesChecksum_zero {words words' : List Nat} (hwords : ∀ w ∈ words, w < 2 ^ 16)
    (hwords' : ∀ w ∈ words', w < 2 ^ 16)
    (hsum : words'.sum = words.sum + (onesChecksum words).toNat) : onesChecksum words' = 0 := by
  obtain ⟨hlt, hmod, hzero⟩ := onesSum_spec hwords
  have hval : (onesChecksum words).toNat = 65535 - onesSum words := by
    rw [onesChecksum, BitVec.toNat_not, BitVec.toNat_ofNat, Nat.mod_eq_of_lt hlt]
  have hones : onesSum words' = 0xFFFF := by
    rw [onesSum_eq_iff hwords', hsum, hval]
    omega
  rw [onesChecksum, hones]
  rfl

/-! The checksum of a byte string. -/

theorem beWords_pieces (data : List Byte) : (beWords data).sum =
    (beWords (data.take (min data.length 65536))).sum +
      (beWords (data.drop (min data.length 65536))).sum := by
  by_cases hlong : 65536 ≤ data.length
  · have hfront : (data.take 65536).length = 65536 := by
      rw [List.length_take, Nat.min_eq_left hlong]
    rw [Nat.min_eq_right hlong]
    conv_lhs => rw [← List.take_append_drop 65536 data]
    rw [beWords_append (by omega), List.sum_append]
  · rw [Nat.min_eq_left (by omega), List.take_length, List.drop_length]
    rfl

theorem checksumPieces_spec {seed : Acc} {data : List Byte} (h : seed.sum.toNat < 2 ^ 17) :
    (checksumPieces seed data).overflow = seed.overflow ∧
      SameSum (checksumPieces seed data).sum.toNat (seed.sum.toNat + (beWords data).sum) := by
  induction seed, data using checksumPieces.induct with
  | case1 seed data hnil =>
    rw [checksumPieces, if_pos hnil, List.length_eq_zero_iff.mp hnil]
    exact ⟨rfl, by simp [SameSum, beWords]⟩
  | case2 seed data hne size piece next ih =>
    have hsize : (data.take size).length = size := by
      rw [List.length_take]
      exact Nat.min_eq_left (Nat.min_le_left _ _)
    have hle : size ≤ 65536 := Nat.min_le_right _ _
    have hbound := beWords_sum_le (data.take size)
    rw [hsize] at hbound
    have hstart : (Acc.start 0).sum.toNat = 0 := rfl
    have hpiece := @sumBytes_exact (Acc.start 0) (data.take size) (by rw [hstart]; omega)
    rw [hstart, Nat.zero_add] at hpiece
    have hadd : next.sum.toNat = seed.sum.toNat + piece.sum.toNat ∧ next.overflow = seed.overflow :=
      Acc.add_exact (by rw [hpiece.1]; omega)
    rw [hpiece.1] at hadd
    have hfold := toNat_fold next.sum
    obtain ⟨hover, hmod, hzero⟩ : _ ∧ SameSum _ ((fold next.sum).toNat +
        (beWords (data.drop size)).sum) := ih (by rw [hfold, hadd.1]; omega)
    have hwords : (beWords data).sum =
        (beWords (data.take size)).sum + (beWords (data.drop size)).sum := beWords_pieces data
    have hnext : checksumPieces seed data =
        checksumPieces ⟨fold next.sum, next.overflow || piece.overflow⟩ (data.drop size) := by
      rw [checksumPieces, if_neg hne]
    rw [hnext]
    refine ⟨?_, ?_, ?_⟩
    · rw [hover, hadd.2, hpiece.2]
      simp [Acc.start]
    · omega
    · omega

theorem seedWords_lt (seed : BitVec 32) : ∀ w ∈ seedWords seed, w < 2 ^ 16 := by
  have hlt := seed.isLt
  simp only [seedWords, List.forall_mem_cons]
  exact ⟨by omega, by omega, by simp⟩

theorem checksum_eq (data : List Byte) (seed : BitVec 32) :
    checksum data seed = onesChecksum (seedWords seed ++ beWords data) ∧
      (checksumAcc data seed).overflow = false := by
  have hlt := seed.isLt
  have hstart : (Acc.start (fold seed)).sum.toNat = seed.toNat % 65536 + seed.toNat / 65536 :=
    toNat_fold seed
  obtain ⟨hover, hsame⟩ := @checksumPieces_spec (Acc.start (fold seed)) data (by omega)
  refine ⟨folded_eq ?_ ?_, hover⟩
  · rw [List.forall_mem_append]
    exact ⟨seedWords_lt seed, beWords_lt data⟩
  · have hsum : (seedWords seed ++ beWords data).sum =
        (Acc.start (fold seed)).sum.toNat + (beWords data).sum := by
      rw [hstart, List.sum_append]
      simp only [seedWords, List.sum_cons, List.sum_nil]
      omega
    rw [hsum]
    exact hsame

/-! A checksum in its place. -/

def withWord (data : List Byte) (o : Nat) (value : BitVec 16) : List Byte :=
  (data.set o ((value >>> 8).setWidth 8)).set (o + 1) (value.setWidth 8)

theorem bytes_of_word (value : BitVec 16) :
    ((value >>> 8).setWidth 8).toNat * 256 + (value.setWidth 8).toNat = value.toNat := by
  have hlt := value.isLt
  rw [BitVec.toNat_setWidth, BitVec.toNat_setWidth, BitVec.toNat_ushiftRight,
    Nat.shiftRight_eq_div_pow]
  omega

theorem sum_withWord {data : List Byte} {k : Nat} (hin : 2 * k + 1 < data.length)
    (value : BitVec 16) : (beWords (withWord data (2 * k) value)).sum =
      (beWords (withWord data (2 * k) 0)).sum + value.toNat := by
  induction k generalizing data with
  | zero =>
    obtain ⟨hi, lo, data, rfl⟩ : ∃ hi lo data', data = hi :: lo :: data' := by
      rcases data with _ | ⟨hi, _ | ⟨lo, data⟩⟩
      · simp at hin
      · simp at hin
      · exact ⟨_, _, _, rfl⟩
    have hvalue := bytes_of_word value
    have hzero := bytes_of_word 0
    simp only [withWord, Nat.mul_zero, Nat.zero_add, List.set_cons_zero, List.set_cons_succ,
      beWords, List.sum_cons, hvalue, hzero]
    have hnone : (0 : BitVec 16).toNat = 0 := rfl
    omega
  | succ k ih =>
    obtain ⟨hi, lo, data, rfl⟩ : ∃ hi lo data', data = hi :: lo :: data' := by
      rcases data with _ | ⟨hi, _ | ⟨lo, data⟩⟩
      · simp at hin
      · simp at hin
      · exact ⟨_, _, _, rfl⟩
    have hcons : ∀ v, withWord (hi :: lo :: data) (2 * (k + 1)) v =
        hi :: lo :: withWord data (2 * k) v := fun v => rfl
    simp only [List.length_cons] at hin
    simp only [hcons, beWords, List.sum_cons, ih (by omega : 2 * k + 1 < data.length)]
    omega

theorem folded_sumBytes {data : List Byte} (h : data.length ≤ 65536) :
    folded (sumBytes (Acc.start 0) data).sum = onesChecksum (beWords data) := by
  have hbound := beWords_sum_le data
  have hstart : (Acc.start 0).sum.toNat = 0 := rfl
  obtain ⟨hsum, -⟩ := @sumBytes_exact (Acc.start 0) data (by rw [hstart]; omega)
  rw [hstart, Nat.zero_add] at hsum
  exact folded_eq (beWords_lt data) (by rw [hsum]; exact ⟨rfl, Iff.rfl⟩)

theorem onesChecksum_withWord {front : List Nat} (hfront : ∀ w ∈ front, w < 2 ^ 16)
    {data : List Byte} {k : Nat} (hin : 2 * k + 1 < data.length) {value : BitVec 16}
    (hvalue : value = onesChecksum (front ++ beWords (withWord data (2 * k) 0))) :
    onesChecksum (front ++ beWords (withWord data (2 * k) value)) = 0 := by
  have hlt : ∀ v, ∀ w ∈ front ++ beWords (withWord data (2 * k) v), w < 2 ^ 16 := fun v =>
    List.forall_mem_append.mpr ⟨hfront, beWords_lt _⟩
  refine onesChecksum_zero (hlt 0) (hlt value) ?_
  rw [← hvalue, List.sum_append, List.sum_append, sum_withWord hin, Nat.add_assoc]

theorem length_header (p : Nat → Byte) : (header p).length = (p 0 &&& 15).toNat * 4 := by
  simp [header]

theorem header_putWord (p : Nat → Byte) (value : BitVec 16) :
    header (putWord p 10 value) = withWord (header p) 10 value := by
  have hfirst : putWord p 10 value 0 = p 0 := by simp [putWord]
  apply List.ext_getElem
  · simp [withWord, length_header, hfirst]
  · intro i hi hi'
    simp only [header, withWord, putWord, List.getElem_map, List.getElem_range, List.getElem_set,
      update_apply]
    by_cases h11 : i = 11
    · simp [h11]
    · by_cases h10 : i = 10
      · simp [h10]
      · simp [h10, h11, Ne.symm h10, Ne.symm h11]

theorem putWord_putWord (p : Nat → Byte) (o : Nat) (value value' : BitVec 16) :
    putWord (putWord p o value) o value' = putWord p o value' := by
  funext i
  simp only [putWord, update_apply]
  split_ifs <;> rfl

theorem ipVerify_compute {p : Nat → Byte} (h : 5 ≤ (p 0 &&& 15).toNat) :
    ipVerifyCksum (ipComputeCksum p) = true := by
  have hlength : ∀ v, (withWord (header p) 10 v).length = (p 0 &&& 15).toNat * 4 := by
    simp [withWord, length_header]
  have hnibble : (p 0 &&& 15).toNat ≤ 15 := by
    rw [BitVec.toNat_and]
    exact Nat.and_le_right
  have hsum : ∀ v, headerSum (putWord p 10 v) =
      onesChecksum ([] ++ beWords (withWord (header p) (2 * 5) v)) := by
    intro v
    rw [headerSum, header_putWord]
    exact folded_sumBytes (by rw [hlength]; omega)
  rw [ipVerifyCksum, ipComputeCksum, putWord_putWord, decide_eq_true_eq, hsum]
  refine onesChecksum_withWord (by simp) ?_ (hsum 0)
  rw [length_header]
  omega

end Dynamips.Packet
