import Mathlib.Data.List.Nodup
import Mathlib.Data.List.Perm.Subperm
import Dynamips.Lib.GuestRam
import Dynamips.Lib.Fragments
import Dynamips.Lib.Turns

/-! The receive loop that the DEC21140 and the Mueslix share: a packet is put in
the buffers of one descriptor after the other, each at the address that the one
before gives. -/
set_option autoImplicit false

namespace Dynamips.RxRing

open GuestRam Turns Fragments
export GuestRam (Ram physmemCopyToVm physmemCopyFromVm)

abbrev Rdes := Nat → BitVec 32

def RXDESC_OWN : BitVec 32 := 0x80000000

/-- What is particular to a chip. The status of a descriptor is given for the
number of bytes put in it; before the end of the packet it depends on whether the
next descriptor is acquired, and may end the loop. -/
structure RxChip where
  words : Nat
  fs : BitVec 32
  buffers : Rdes → List (BitVec 32 × Nat)
  getNext : BitVec 32 → Rdes → BitVec 32
  lastStatus : Nat → BitVec 32
  moreStatus : Bool → Nat → BitVec 32
  ends : BitVec 32 → Bool

variable (c : RxChip)

def rxdescRead (m : Ram) (rxdAddr : BitVec 32) : Rdes := fun i =>
  if i < c.words then physmemCopyU32FromVm m (rxdAddr.toNat + 4 * i) else 0

def rxdescAcquire (rdes0 : BitVec 32) : Bool := hasFlag rdes0 RXDESC_OWN

def rxdescPutPkt (m : Ram) : List (BitVec 32 × Nat) → List Byte → Ram
  | [], _ => m
  | (addr, len) :: buffers, pkt =>
    rxdescPutPkt (physmemCopyToVm m (pkt.take len) addr.toNat) buffers (pkt.drop len)

def RxChip.sizes (rdes : Rdes) : List Nat := (c.buffers rdes).map Prod.snd

/-- The loop before a turn. `rdes0` is the new first word of the first descriptor,
none while this is the current one. -/
structure RxTurn where
  mem : Ram
  rxCurrent : BitVec 32
  rxdc : Rdes
  rdes0 : Option (BitVec 32)
  pkt : List Byte
  filled : List (BitVec 32 × List (List Byte))

structure RxResult where
  mem : Ram
  rxCurrent : BitVec 32
  filled : List (BitVec 32 × List (List Byte))
  complete : Bool

/-- A descriptor gets its status, the first one not before the end of the loop. -/
def RxTurn.setStatus (s : RxTurn) (m : Ram) (status : BitVec 32) : Ram :=
  if s.rdes0.isNone then m else physmemCopyU32ToVm m s.rxCurrent.toNat status

def RxTurn.finish (s : RxTurn) (rxStart : BitVec 32) (m : Ram) (status : BitVec 32)
    (complete : Bool) : RxResult where
  mem := physmemCopyU32ToVm (s.setStatus m status) rxStart.toNat (s.rdes0.getD status ||| c.fs)
  rxCurrent := c.getNext s.rxCurrent s.rxdc
  filled := s.filled ++ [(s.rxCurrent, pieces (c.sizes s.rxdc) s.pkt)]
  complete := complete

def rxTurn (rxStart : BitVec 32) (s : RxTurn) : Turn RxTurn RxResult :=
  if s.pkt = [] then
    .stop ⟨physmemCopyU32ToVm s.mem rxStart.toNat (s.rdes0.getD (s.rxdc 0) ||| c.fs), s.rxCurrent,
      s.filled, true⟩
  else
    let m := rxdescPutPkt s.mem (c.buffers s.rxdc) s.pkt
    let len := (s.pkt.take (c.sizes s.rxdc).sum).length
    if s.pkt.drop (c.sizes s.rxdc).sum = [] then
      .stop (s.finish c rxStart m (c.lastStatus len) true)
    else
      let rxdnAddr := c.getNext s.rxCurrent s.rxdc
      let status := c.moreStatus (rxdescAcquire (physmemCopyU32FromVm m rxdnAddr.toNat)) len
      if c.ends status then .stop (s.finish c rxStart m status false)
      else
        .go { mem := s.setStatus m status
              rxCurrent := rxdnAddr
              rxdc := rxdescRead c (s.setStatus m status) rxdnAddr
              rdes0 := some (s.rdes0.getD status)
              pkt := s.pkt.drop (c.sizes s.rxdc).sum
              filled := s.filled ++ [(s.rxCurrent, pieces (c.sizes s.rxdc) s.pkt)] }

def rxStartTurn (m : Ram) (rxCurrent : BitVec 32) (pkt : List Byte) : RxTurn where
  mem := m
  rxCurrent := rxCurrent
  rxdc := rxdescRead c m rxCurrent
  rdes0 := none
  pkt := pkt
  filled := []

def ReceivePkt (m : Ram) (rxCurrent : BitVec 32) (pkt : List Byte) (r : RxResult) : Prop :=
  if rxdescAcquire (rxdescRead c m rxCurrent 0) = false then r = ⟨m, rxCurrent, [], false⟩
  else Returns (rxTurn c rxCurrent) (rxStartTurn c m rxCurrent pkt) r

/-! What the shared receive loop leaves in the descriptors. -/

structure RxChip.Lawful (c : RxChip) (ls : BitVec 32) : Prop where
  words : 1 ≤ c.words
  fs : hasFlag c.fs c.fs = true
  fsOwn : hasFlag c.fs RXDESC_OWN = false
  last : ∀ rdes, ∀ n ≤ (c.sizes rdes).sum, hasFlag (c.lastStatus n) ls = true ∧
    hasFlag (c.lastStatus n) RXDESC_OWN = false
  starved : ∀ rdes, ∀ n ≤ (c.sizes rdes).sum, hasFlag (c.moreStatus false n) ls = true ∧
    hasFlag (c.moreStatus false n) RXDESC_OWN = false ∧ c.ends (c.moreStatus false n) = true
  more : ∀ rdes, ∀ n ≤ (c.sizes rdes).sum, hasFlag (c.moreStatus true n) RXDESC_OWN = false ∧
    c.ends (c.moreStatus true n) = false

variable (c : RxChip)

def owned (m : Ram) (a : BitVec 32) : Bool := rxdescAcquire (rxdescRead c m a 0)

/-- The descriptor that the walk from `start` comes to after `i` others. -/
def walk (m : Ram) (start : BitVec 32) : Nat → BitVec 32
  | 0 => start
  | i + 1 => c.getNext (walk m start i) (rxdescRead c m (walk m start i))

def cap (m : Ram) (start : BitVec 32) (i : Nat) : Nat :=
  (c.sizes (rxdescRead c m (walk c m start i))).sum

/-- The descriptors of a ring or chain are apart from each other and from the
buffers, and lead to each other. -/
structure Clear (m : Ram) (ring : List (BitVec 32)) : Prop where
  next : ∀ a ∈ ring, c.getNext a (rxdescRead c m a) ∈ ring
  apart : ∀ a ∈ ring, ∀ b ∈ ring, a = b ∨ a.toNat + 4 * c.words ≤ b.toNat ∨
    b.toNat + 4 * c.words ≤ a.toNat
  buffers : ∀ a ∈ ring, owned c m a = true → ∀ x ∈ c.buffers (rxdescRead c m a), ∀ b ∈ ring,
    x.1.toNat + x.2 ≤ b.toNat ∨ b.toNat + 4 * c.words ≤ x.1.toNat

/-- Each descriptor holds the next bytes of a packet, in buffers of its sizes. -/
def Stored (sizes : BitVec 32 → List Nat) (filled : List (BitVec 32 × List (List Byte)))
    (pkt : List Byte) : Prop :=
  ∀ i x, filled[i]? = some x → x.2 = pieces (sizes x.1)
    (pkt.drop ((filled.take i).map Prod.snd).flatten.flatten.length)

/-- A packet is received as it should be: nothing happens without a descriptor;
otherwise it goes once around descriptors of the chip, which are given back and
framed, and the bytes of a whole packet are those of the packet in its maximum
size. -/
structure RxOk (ls : BitVec 32) (sizes : BitVec 32 → List Nat) (maxSize : Nat) (m : Ram)
    (start : BitVec 32) (ring : List (BitVec 32)) (pkt : List Byte) (r : RxResult) : Prop where
  refused : owned c m start = false → r.filled = [] ∧ r.mem = m ∧ r.rxCurrent = start
  some : owned c m start = true → r.filled ≠ []
  once : (r.filled.map Prod.fst).Nodup
  owned : ∀ a ∈ r.filled.map Prod.fst, owned c m a = true
  given : ∀ a ∈ ring, RxRing.owned c r.mem a =
    (RxRing.owned c m a && !decide (a ∈ r.filled.map Prod.fst))
  first : ∀ a ∈ (r.filled.map Prod.fst).head?, hasFlag (rxdescRead c r.mem a 0) c.fs = true
  last : ∀ a ∈ (r.filled.map Prod.fst).getLast?, hasFlag (rxdescRead c r.mem a 0) ls = true
  stored : Stored sizes r.filled pkt
  whole : r.complete = true → (r.filled.map Prod.snd).flatten.flatten = pkt.take maxSize

/-- The packet ends in the descriptor of the walk after `n` others, or there is no
descriptor for what is left of it. -/
structure Ends (sizes : BitVec 32 → List Nat) (maxSize : Nat) (m : Ram) (start : BitVec 32)
    (pkt : List Byte) (n : Nat) : Prop where
  owned : ∀ i ≤ n, owned c m (walk c m start i) = true
  distinct : ∀ i ≤ n, ∀ j < i, walk c m start i ≠ walk c m start j
  more : ∀ i < n, offset (cap c m start) (i + 1) < pkt.length
  rooms : ∀ i ≤ n, pieces (c.sizes (rxdescRead c m (walk c m start i)))
      (pkt.drop (offset (cap c m start) i)) =
    pieces (sizes (walk c m start i)) (pkt.drop (offset (cap c m start) i))
  last : pkt.length ≤ offset (cap c m start) (n + 1) ∧ pkt.length ≤ maxSize ∨
    offset (cap c m start) (n + 1) < pkt.length ∧
      (RxRing.owned c m (walk c m start (n + 1)) = false ∨
        ∃ j, 1 ≤ j ∧ j < n ∧ walk c m start (n + 1) = walk c m start j)

/-- There is nothing to receive into, or a packet with bytes that ends before the
walk comes back. -/
def RxFits (sizes : BitVec 32 → List Nat) (maxSize : Nat) (m : Ram) (start : BitVec 32)
    (pkt : List Byte) : Prop :=
  owned c m start = true → pkt ≠ [] ∧ ∃ n, Ends c sizes maxSize m start pkt n

variable {c} {ls : BitVec 32} {sizes : BitVec 32 → List Nat} {maxSize : Nat} {m : Ram}
  {start : BitVec 32} {ring : List (BitVec 32)} {pkt : List Byte}

/-! Words of the descriptors. -/

theorem walk_mem (hclear : Clear c m ring) (hstart : start ∈ ring) (i : Nat) :
    walk c m start i ∈ ring := by
  induction i with
  | zero => exact hstart
  | succ i ih => exact hclear.next _ ih

theorem rxdescRead_congr {m' : Ram} {a : BitVec 32}
    (h : ∀ x, a.toNat ≤ x → x < a.toNat + 4 * c.words → m' x = m x) :
    rxdescRead c m' a = rxdescRead c m a := by
  funext i
  simp only [rxdescRead]
  split
  · exact u32_congr fun x hx hx' => h x (by omega) (by omega)
  · rfl

theorem rxdescRead_status (hclear : Clear c m ring) {a b : BitVec 32} (ha : a ∈ ring)
    (hb : b ∈ ring) (hne : a ≠ b) {m' : Ram} (status : BitVec 32) (hwords : 1 ≤ c.words) :
    rxdescRead c (physmemCopyU32ToVm m' b.toNat status) a = rxdescRead c m' a := by
  have hapart := (hclear.apart a ha b hb).resolve_left hne
  exact rxdescRead_congr fun x hx hx' => copyToVm_of_not_mem (by simp only [length_mHton32]; omega)

theorem rxdescRead_status_self {a : BitVec 32} {m' : Ram} (status : BitVec 32)
    (hwords : 1 ≤ c.words) :
    rxdescRead c (physmemCopyU32ToVm m' a.toNat status) a 0 = status := by
  rw [rxdescRead, if_pos (by omega)]
  exact u32_u32ToVm _ _

theorem rxdescPutPkt_of_not_mem {buffers : List (BitVec 32 × Nat)} {m' : Ram} {x : Nat}
    (h : ∀ y ∈ buffers, x < y.1.toNat ∨ y.1.toNat + y.2 ≤ x) (pkt : List Byte) :
    rxdescPutPkt m' buffers pkt x = m' x := by
  induction buffers generalizing m' pkt with
  | nil => rfl
  | cons y buffers ih =>
    have hy := h y List.mem_cons_self
    have hlen : (pkt.take y.2).length ≤ y.2 := List.length_take_le _ _
    rw [rxdescPutPkt, ih fun z hz => h z (List.mem_cons_of_mem _ hz),
      copyToVm_of_not_mem (by omega)]

theorem rxdescRead_put (hclear : Clear c m ring) {a b : BitVec 32} (ha : a ∈ ring) (hb : b ∈ ring)
    (hown : owned c m b = true) (m' : Ram) (pkt : List Byte) :
    rxdescRead c (rxdescPutPkt m' (c.buffers (rxdescRead c m b)) pkt) a = rxdescRead c m' a := by
  apply rxdescRead_congr
  intro x hx hx'
  refine rxdescPutPkt_of_not_mem (fun y hy => ?_) pkt
  have := hclear.buffers b hb hown y hy a ha
  omega

/-! The loop. -/

/-- What goes to the descriptor of the walk after `i` others. -/
def fill (c : RxChip) (m : Ram) (start : BitVec 32) (pkt : List Byte) (i : Nat) :
    BitVec 32 × List (List Byte) :=
  (walk c m start i, pieces (c.sizes (rxdescRead c m (walk c m start i)))
    (pkt.drop (offset (cap c m start) i)))

/-- The loop before the turn for the descriptor after `i` others. -/
structure At (c : RxChip) (m : Ram) (start : BitVec 32) (ring : List (BitVec 32))
    (pkt : List Byte) (i : Nat) (s : RxTurn) : Prop where
  current : s.rxCurrent = walk c m start i
  rxdc : s.rxdc = rxdescRead c m (walk c m start i)
  isFirst : s.rdes0 = none ↔ i = 0
  notOwn : ∀ x ∈ s.rdes0, hasFlag x RXDESC_OWN = false
  rest : s.pkt = pkt.drop (offset (cap c m start) i)
  filled : s.filled = (List.range i).map (fill c m start pkt)
  kept : ∀ a ∈ ring, (∀ j, 1 ≤ j → j < i → a ≠ walk c m start j) →
    rxdescRead c s.mem a = rxdescRead c m a
  released : ∀ j, 1 ≤ j → j < i → owned c s.mem (walk c m start j) = false

theorem at_start : At c m start ring pkt 0 (rxStartTurn c m start pkt) := by
  constructor
  · rfl
  · rfl
  · simp [rxStartTurn]
  · simp [rxStartTurn]
  · simp [rxStartTurn, offset]
  · rfl
  · exact fun a _ _ => rfl
  · exact fun j _ hj => absurd hj (by omega)

variable {i : Nat} {s : RxTurn}

def RxTurn.dataMem (c : RxChip) (s : RxTurn) : Ram := rxdescPutPkt s.mem (c.buffers s.rxdc) s.pkt

theorem At.dataMem_read (h : At c m start ring pkt i s) (hclear : Clear c m ring)
    (hstart : start ∈ ring) (hown : owned c m (walk c m start i) = true) {a : BitVec 32}
    (ha : a ∈ ring) : rxdescRead c (s.dataMem c) a = rxdescRead c s.mem a := by
  rw [RxTurn.dataMem, h.rxdc]
  exact rxdescRead_put hclear ha (walk_mem hclear hstart i) hown _ _

theorem At.filled_succ (h : At c m start ring pkt i s) :
    s.filled ++ [(s.rxCurrent, pieces (c.sizes s.rxdc) s.pkt)] =
      (List.range (i + 1)).map (fill c m start pkt) := by
  rw [h.filled, List.range_succ, List.map_append, h.current, h.rxdc, h.rest]
  rfl

theorem At.rest_succ (h : At c m start ring pkt i s) :
    s.pkt.drop (c.sizes s.rxdc).sum = pkt.drop (offset (cap c m start) (i + 1)) := by
  rw [h.rest, h.rxdc]
  exact @drop_offset_succ Byte (cap c m start) pkt i

theorem At.acquire (h : At c m start ring pkt i s) (hclear : Clear c m ring)
    (hstart : start ∈ ring) (hown : owned c m (walk c m start i) = true) :
    ((∀ j, 1 ≤ j → j < i → walk c m start (i + 1) ≠ walk c m start j) →
      owned c (s.dataMem c) (walk c m start (i + 1)) = owned c m (walk c m start (i + 1))) ∧
    ∀ j, 1 ≤ j → j < i → walk c m start (i + 1) = walk c m start j →
      owned c (s.dataMem c) (walk c m start (i + 1)) = false := by
  have hread := h.dataMem_read hclear hstart hown (walk_mem hclear hstart (i + 1))
  constructor
  · intro hne
    rw [owned, hread, h.kept _ (walk_mem hclear hstart (i + 1)) hne, owned]
  · intro j hj hji heq
    have hrel := h.released j hj hji
    rw [owned] at hrel ⊢
    rw [hread, heq, hrel]

theorem acquire_eq (hwords : 1 ≤ c.words) (m' : Ram) (a : BitVec 32) :
    rxdescAcquire (physmemCopyU32FromVm m' a.toNat) = owned c m' a := by
  rw [owned, rxdescRead, if_pos (by omega)]
  rfl

theorem At.stop_complete (h : At c m start ring pkt i s)
    (hmore : offset (cap c m start) i < pkt.length)
    (hfits : pkt.length ≤ offset (cap c m start) (i + 1)) :
    ∃ n ≤ (c.sizes s.rxdc).sum,
      rxTurn c start s = .stop (s.finish c start (s.dataMem c) (c.lastStatus n) true) := by
  have hne : s.pkt ≠ [] := by
    rw [h.rest]
    exact fun hc => absurd (drop_eq_nil_iff i |>.mp hc) (by omega)
  have hnil : s.pkt.drop (c.sizes s.rxdc).sum = [] := by
    rw [h.rest_succ]
    exact (drop_eq_nil_iff (i + 1)).mpr hfits
  exact ⟨_, List.length_take_le _ _, by rw [rxTurn, if_neg hne, if_pos hnil]; rfl⟩

theorem At.not_complete (h : At c m start ring pkt i s)
    (hmore : offset (cap c m start) (i + 1) < pkt.length) :
    s.pkt ≠ [] ∧ s.pkt.drop (c.sizes s.rxdc).sum ≠ [] := by
  have hle := @offset_mono (cap c m start) i (i + 1) (by omega)
  constructor
  · rw [h.rest]
    exact fun hc => absurd (drop_eq_nil_iff i |>.mp hc) (by omega)
  · rw [h.rest_succ]
    exact fun hc => absurd (drop_eq_nil_iff (i + 1) |>.mp hc) (by omega)

theorem At.stop_starved (h : At c m start ring pkt i s) (hlaw : c.Lawful ls)
    (hmore : offset (cap c m start) (i + 1) < pkt.length)
    (hnot : owned c (s.dataMem c) (walk c m start (i + 1)) = false) :
    ∃ n ≤ (c.sizes s.rxdc).sum, rxTurn c start s =
      .stop (s.finish c start (s.dataMem c) (c.moreStatus false n) false) := by
  obtain ⟨hne, hnil⟩ := h.not_complete hmore
  have hacq : rxdescAcquire (physmemCopyU32FromVm (rxdescPutPkt s.mem (c.buffers s.rxdc) s.pkt)
      (c.getNext s.rxCurrent s.rxdc).toNat) = false := by
    rw [acquire_eq hlaw.words, h.current, h.rxdc]
    rw [RxTurn.dataMem, h.rxdc] at hnot
    exact hnot
  have hlen := List.length_take_le (c.sizes s.rxdc).sum s.pkt
  have hends := (hlaw.starved s.rxdc _ hlen).2.2
  refine ⟨_, hlen, ?_⟩
  rw [rxTurn, if_neg hne, if_neg hnil]
  simp only [hacq, hends, if_true]
  rfl

/-- The walk goes on to a descriptor that was not used before. -/
theorem At.go (h : At c m start ring pkt i s) (hlaw : c.Lawful ls) (hclear : Clear c m ring)
    (hstart : start ∈ ring) (hown : owned c m (walk c m start i) = true)
    (hmore : offset (cap c m start) (i + 1) < pkt.length)
    (hacquired : owned c (s.dataMem c) (walk c m start (i + 1)) = true) :
    ∃ s', rxTurn c start s = .go s' ∧
      s'.rxCurrent = walk c m start (i + 1) ∧
        s'.filled = (List.range (i + 1)).map (fill c m start pkt) ∧
          ((∀ j < i, walk c m start i ≠ walk c m start j) →
            (∀ j ≤ i, walk c m start (i + 1) ≠ walk c m start j) →
              At c m start ring pkt (i + 1) s') := by
  obtain ⟨hne, hnil⟩ := h.not_complete hmore
  have hmem := fun k => walk_mem hclear hstart (m := m) (c := c) k
  have hacq : rxdescAcquire (physmemCopyU32FromVm (rxdescPutPkt s.mem (c.buffers s.rxdc) s.pkt)
      (c.getNext s.rxCurrent s.rxdc).toNat) = true := by
    rw [acquire_eq hlaw.words, h.current, h.rxdc]
    rw [RxTurn.dataMem, h.rxdc] at hacquired
    exact hacquired
  obtain ⟨hnotOwn, hends⟩ := hlaw.more s.rxdc (s.pkt.take (c.sizes s.rxdc).sum).length
    (List.length_take_le _ _)
  have hcurrent : c.getNext s.rxCurrent s.rxdc = walk c m start (i + 1) := by
    rw [h.current, h.rxdc, walk]
  refine ⟨_, by rw [rxTurn, if_neg hne, if_neg hnil]; simp only [hacq, hends]; rfl, hcurrent,
    h.filled_succ, fun hdistinct hnew => ?_⟩
  have hkept : ∀ a ∈ ring, (∀ j, 1 ≤ j → j < i + 1 → a ≠ walk c m start j) →
      rxdescRead c (s.setStatus (s.dataMem c)
        (c.moreStatus true (s.pkt.take (c.sizes s.rxdc).sum).length)) a = rxdescRead c m a := by
    intro a ha hne
    rw [RxTurn.setStatus]
    split
    · rw [h.dataMem_read hclear hstart hown ha, h.kept a ha fun j hj hji => hne j hj (by omega)]
    · rename_i hfirst
      have hi : i ≠ 0 := fun hc => hfirst (by rw [h.isFirst.mpr hc]; rfl)
      rw [h.current, rxdescRead_status hclear ha (hmem i) (hne i (by omega) (by omega)) _ hlaw.words,
        h.dataMem_read hclear hstart hown ha, h.kept a ha fun j hj hji => hne j hj (by omega)]
  constructor
  · exact hcurrent
  · simp only [hcurrent]
    exact hkept _ (hmem (i + 1)) fun j hj hji => hnew j (by omega)
  · simp
  · intro x hx
    obtain rfl := Option.mem_some_iff.mp hx
    cases hfirst : s.rdes0 with
    | none => exact hnotOwn
    | some y => exact h.notOwn y hfirst
  · exact h.rest_succ
  · exact h.filled_succ
  · exact hkept
  · intro j hj hji
    have hi : s.rdes0.isNone = false := by
      rw [Option.isNone_eq_false_iff, Option.isSome_iff_ne_none]
      exact fun hc => by have := h.isFirst.mp hc; omega
    simp only [RxTurn.setStatus, hi, Bool.false_eq_true, if_false]
    rw [h.current]
    by_cases hlast : j = i
    · rw [hlast, owned, rxdescRead_status_self _ hlaw.words]
      exact hnotOwn
    · rw [owned, rxdescRead_status hclear (hmem j) (hmem i)
        (fun heq => hdistinct j (by omega) heq.symm) _ hlaw.words]
      have hread := h.dataMem_read hclear hstart hown (hmem j)
      rw [RxTurn.dataMem] at hread
      rw [hread]
      exact h.released j hj (by omega)

/-! The end of the loop. -/

theorem mem_walks {n : Nat} {a : BitVec 32} :
    a ∈ ((List.range n).map (fill c m start pkt)).map Prod.fst ↔
      ∃ j < n, a = walk c m start j := by
  simp only [List.map_map, List.mem_map, List.mem_range, Function.comp_apply, fill]
  exact exists_congr fun j => and_congr_right fun _ => eq_comm

/-- The descriptors after the loop, where the last one got a status. -/
structure Finished (c : RxChip) (m m' : Ram) (start : BitVec 32) (ring : List (BitVec 32))
    (pkt : List Byte) (n : Nat) (status : BitVec 32) (r : RxResult) : Prop where
  first : hasFlag (rxdescRead c r.mem start 0) c.fs = true
  firstOwn : owned c r.mem start = false
  last : ∀ flag, hasFlag status flag = true →
    hasFlag (rxdescRead c r.mem (walk c m start n) 0) flag = true
  lastOwn : owned c r.mem (walk c m start n) = false
  others : ∀ a ∈ ring, a ≠ start → a ≠ walk c m start n →
    rxdescRead c r.mem a = rxdescRead c m' a
  filled : r.filled = (List.range (n + 1)).map (fill c m start pkt)

theorem At.finish (h : At c m start ring pkt i s) (hlaw : c.Lawful ls) (hclear : Clear c m ring)
    (hstart : start ∈ ring) (hown : owned c m (walk c m start i) = true)
    (hdistinct : ∀ j < i, walk c m start i ≠ walk c m start j) {status : BitVec 32}
    (hstatus : hasFlag status RXDESC_OWN = false) (complete : Bool) :
    Finished c m s.mem start ring pkt i status
      (s.finish c start (s.dataMem c) status complete) := by
  have hwalk := walk_mem hclear hstart (m := m) (c := c) i
  have hrdes0 : hasFlag (s.rdes0.getD status) RXDESC_OWN = false := by
    cases hfirst : s.rdes0 with
    | none => exact hstatus
    | some x => exact h.notOwn x hfirst
  have hself : rxdescRead c (s.finish c start (s.dataMem c) status complete).mem start 0 =
      s.rdes0.getD status ||| c.fs := rxdescRead_status_self _ hlaw.words
  have hothers : ∀ a ∈ ring, a ≠ start →
      rxdescRead c (s.finish c start (s.dataMem c) status complete).mem a =
        rxdescRead c (s.setStatus (s.dataMem c) status) a :=
    fun a ha hne => rxdescRead_status hclear ha hstart hne _ hlaw.words
  have hfirstOwn : owned c (s.finish c start (s.dataMem c) status complete).mem start = false := by
    rw [owned, hself, rxdescAcquire, hasFlag_or, hrdes0, hlaw.fsOwn, Bool.or_self]
  have hlast : i ≠ 0 → rxdescRead c (s.finish c start (s.dataMem c) status complete).mem
      (walk c m start i) 0 = status := by
    intro hi
    have hnone : s.rdes0.isNone = false := by
      rw [Option.isNone_eq_false_iff, Option.isSome_iff_ne_none]
      exact fun hc => hi (h.isFirst.mp hc)
    rw [hothers _ hwalk (hdistinct 0 (by omega)), RxTurn.setStatus, hnone, h.current]
    exact rxdescRead_status_self _ hlaw.words
  constructor
  · rw [hself, hasFlag_or, hlaw.fs, Bool.or_true]
  · exact hfirstOwn
  · intro flag hflag
    by_cases hi : i = 0
    · subst hi
      have hnone := h.isFirst.mpr rfl
      rw [walk, hself, hnone, hasFlag_or, Option.getD_none, hflag, Bool.true_or]
    · rw [hlast hi, hflag]
  · by_cases hi : i = 0
    · subst hi
      exact hfirstOwn
    · rw [owned, hlast hi, rxdescAcquire, hstatus]
  · intro a ha hne hne'
    rw [hothers a ha hne, RxTurn.setStatus]
    split
    · exact h.dataMem_read hclear hstart hown ha
    · rw [h.current, rxdescRead_status hclear ha hwalk hne' _ hlaw.words]
      exact h.dataMem_read hclear hstart hown ha
  · exact h.filled_succ

theorem flatten_fill (n : Nat) :
    (((List.range n).map (fill c m start pkt)).map Prod.snd).flatten.flatten =
      pkt.take (offset (cap c m start) n) := by
  rw [List.flatten_flatten, List.map_map, List.map_map, ← flatten_chunks]
  congr 1
  exact List.map_congr_left fun j _ => flatten_pieces _ _

/-- The walk gets to the descriptor after `n` others. -/
structure Reached (c : RxChip) (m : Ram) (start : BitVec 32) (pkt : List Byte) (n : Nat) :
    Prop where
  owned : ∀ i ≤ n, owned c m (walk c m start i) = true
  distinct : ∀ i ≤ n, ∀ j < i, walk c m start i ≠ walk c m start j
  more : ∀ i ≤ n, offset (cap c m start) i < pkt.length

theorem Ends.reached {n : Nat} (h : Ends c sizes maxSize m start pkt n) (hpkt : pkt ≠ []) :
    Reached c m start pkt n := by
  refine ⟨h.owned, h.distinct, fun i hi => ?_⟩
  cases i with
  | zero => exact List.length_pos_of_ne_nil hpkt
  | succ i => exact h.more i (by omega)

theorem nodup_walks {n : Nat} (h : Reached c m start pkt n) :
    (((List.range (n + 1)).map (fill c m start pkt)).map Prod.fst).Nodup := by
  rw [List.map_map]
  refine List.Nodup.map_on ?_ List.nodup_range
  intro a ha b hb hab
  rw [List.mem_range] at ha hb
  obtain hlt | rfl | hlt := Nat.lt_trichotomy a b
  · exact absurd hab.symm (h.distinct b (by omega) a hlt)
  · rfl
  · exact absurd hab (h.distinct a (by omega) b hlt)

theorem stored_iff (sizes : BitVec 32 → List Nat) {n : Nat} (h : Reached c m start pkt n) :
    Stored sizes ((List.range (n + 1)).map (fill c m start pkt)) pkt ↔
      ∀ i ≤ n, pieces (c.sizes (rxdescRead c m (walk c m start i)))
          (pkt.drop (offset (cap c m start) i)) =
        pieces (sizes (walk c m start i)) (pkt.drop (offset (cap c m start) i)) := by
  have hlen : ∀ i ≤ n, (((((List.range (n + 1)).map (fill c m start pkt)).take i).map
      Prod.snd).flatten.flatten).length = offset (cap c m start) i := by
    intro i hi
    have := h.more i hi
    rw [← List.map_take, List.take_range, Nat.min_eq_left (by omega), flatten_fill,
      List.length_take]
    omega
  constructor
  · intro hstored i hi
    have hget : ((List.range (n + 1)).map (fill c m start pkt))[i]? =
        some (fill c m start pkt i) := by
      rw [List.getElem?_map, List.getElem?_range (by omega), Option.map_some]
    have heq := hstored i _ hget
    rw [hlen i hi] at heq
    exact heq
  · intro hrooms i x hx
    rw [List.getElem?_map] at hx
    obtain ⟨j, hj, rfl⟩ := Option.map_eq_some_iff.mp hx
    obtain ⟨hi, rfl⟩ := List.getElem?_eq_some_iff.mp hj
    rw [List.length_range] at hi
    rw [List.getElem_range, hlen i (by omega)]
    exact hrooms i (by omega)

theorem Finished.rxOk {r : RxResult} {m' : Ram} {status : BitVec 32} {n : Nat}
    (h : Finished c m m' start ring pkt n status r) (hr : Reached c m start pkt n)
    (hls : hasFlag status ls = true)
    (hkept : ∀ a ∈ ring, (∀ j, 1 ≤ j → j < n → a ≠ walk c m start j) →
      rxdescRead c m' a = rxdescRead c m a)
    (hreleased : ∀ j, 1 ≤ j → j < n → owned c m' (walk c m start j) = false)
    (hrooms : ∀ i ≤ n, pieces (c.sizes (rxdescRead c m (walk c m start i)))
        (pkt.drop (offset (cap c m start) i)) =
      pieces (sizes (walk c m start i)) (pkt.drop (offset (cap c m start) i)))
    (hwhole : r.complete = true →
      pkt.length ≤ offset (cap c m start) (n + 1) ∧ pkt.length ≤ maxSize) :
    RxOk c ls sizes maxSize m start ring pkt r := by
  have hfirst := hr.owned 0 (by omega)
  constructor
  · intro hnot
    rw [walk, hnot] at hfirst
    cases hfirst
  · intro _ hnil
    rw [h.filled, List.range_succ] at hnil
    simp at hnil
  · rw [h.filled]
    exact nodup_walks hr
  · intro a ha
    rw [h.filled] at ha
    obtain ⟨j, hj, rfl⟩ := mem_walks.mp ha
    exact hr.owned j (by omega)
  · intro a ha
    rw [h.filled]
    by_cases hused : a ∈ ((List.range (n + 1)).map (fill c m start pkt)).map Prod.fst
    · rw [decide_eq_true hused, Bool.not_true, Bool.and_false]
      obtain ⟨j, hj, rfl⟩ := mem_walks.mp hused
      by_cases hzero : j = 0
      · subst hzero
        exact h.firstOwn
      · by_cases hlast : j = n
        · subst hlast
          exact h.lastOwn
        · have hread := h.others _ ha (hr.distinct j (by omega) 0 (by omega))
            fun heq => hr.distinct n (by omega) j (by omega) heq.symm
          rw [owned, hread]
          exact hreleased j (by omega) (by omega)
    · rw [decide_eq_false hused, Bool.not_false, Bool.and_true]
      have hne : ∀ j < n + 1, a ≠ walk c m start j := fun j hj heq =>
        hused (mem_walks.mpr ⟨j, hj, heq⟩)
      have hread := h.others _ ha (hne 0 (by omega)) (hne n (by omega))
      rw [owned, hread, hkept a ha fun j _ hj => hne j (by omega), owned]
  · intro a ha
    rw [h.filled, List.range_succ_eq_map, List.map_cons, List.map_cons, List.head?_cons,
      Option.mem_some_iff] at ha
    subst ha
    exact h.first
  · intro a ha
    rw [h.filled, List.range_succ, List.map_append, List.map_append, List.map_singleton,
      List.map_singleton, List.getLast?_concat, Option.mem_some_iff] at ha
    subst ha
    exact h.last ls hls
  · rw [h.filled]
    exact (stored_iff sizes hr).mpr hrooms
  · intro hcomplete
    obtain ⟨hfits, hmax⟩ := hwhole hcomplete
    rw [h.filled, flatten_fill, List.take_of_length_le hfits, List.take_of_length_le hmax]

theorem reach (hlaw : c.Lawful ls) (hclear : Clear c m ring) (hstart : start ∈ ring) {n : Nat}
    (hr : Reached c m start pkt n) : ∃ s, At c m start ring pkt n s ∧ ∀ r,
      Returns (rxTurn c start) (rxStartTurn c m start pkt) r ↔ Returns (rxTurn c start) s r := by
  induction n with
  | zero => exact ⟨_, at_start, fun _ => Iff.rfl⟩
  | succ n ih =>
    obtain ⟨s, hat, hreturns⟩ := ih ⟨fun i hi => hr.owned i (by omega),
      fun i hi => hr.distinct i (by omega), fun i hi => hr.more i (by omega)⟩
    have hown := hr.owned n (by omega)
    have hacq := (hat.acquire hclear hstart hown).1 fun j _ hj =>
      hr.distinct (n + 1) (by omega) j (by omega)
    rw [hr.owned (n + 1) (by omega)] at hacq
    obtain ⟨s', hgo, -, -, hat'⟩ := hat.go hlaw hclear hstart hown (hr.more (n + 1) (by omega)) hacq
    exact ⟨s', hat' (hr.distinct n (by omega)) (fun j hj => hr.distinct (n + 1) (by omega) j
      (by omega)), fun r => (hreturns r).trans (returns_go hgo)⟩

theorem rxOk_of_ends (hlaw : c.Lawful ls) (hclear : Clear c m ring) (hstart : start ∈ ring)
    (hpkt : pkt ≠ []) {n : Nat} (h : Ends c sizes maxSize m start pkt n) :
    ∃ r, Returns (rxTurn c start) (rxStartTurn c m start pkt) r ∧
      RxOk c ls sizes maxSize m start ring pkt r ∧
        r.filled = (List.range (n + 1)).map (fill c m start pkt) ∧
          r.rxCurrent = walk c m start (n + 1) := by
  have hr := h.reached hpkt
  obtain ⟨s, hat, hreturns⟩ := reach hlaw hclear hstart hr
  have hown := hr.owned n (by omega)
  have hdistinct := hr.distinct n (by omega)
  have hnextWalk : c.getNext s.rxCurrent s.rxdc = walk c m start (n + 1) := by
    rw [hat.current, hat.rxdc, walk]
  obtain ⟨hfits, hmax⟩ | ⟨hmore, hnext⟩ := h.last
  · obtain ⟨k, hk, hstop⟩ := hat.stop_complete (hr.more n (by omega)) hfits
    refine ⟨_, (hreturns _).mpr ((returns_stop hstop).mpr rfl), ?_, hat.filled_succ, hnextWalk⟩
    exact (hat.finish hlaw hclear hstart hown hdistinct (hlaw.last s.rxdc k hk).2 true).rxOk hr
      (hlaw.last s.rxdc k hk).1 hat.kept hat.released h.rooms fun _ => ⟨hfits, hmax⟩
  · have hacq := hat.acquire hclear hstart hown
    have hnot : owned c (s.dataMem c) (walk c m start (n + 1)) = false := by
      by_cases hback : ∃ j, 1 ≤ j ∧ j < n ∧ walk c m start (n + 1) = walk c m start j
      · obtain ⟨j, hj, hjn, heq⟩ := hback
        exact hacq.2 j hj hjn heq
      · rw [hacq.1 fun j hj hjn heq => hback ⟨j, hj, hjn, heq⟩]
        exact hnext.resolve_right hback
    obtain ⟨k, hk, hstop⟩ := hat.stop_starved hlaw hmore hnot
    refine ⟨_, (hreturns _).mpr ((returns_stop hstop).mpr rfl), ?_, hat.filled_succ, hnextWalk⟩
    exact (hat.finish hlaw hclear hstart hown hdistinct (hlaw.starved s.rxdc k hk).2.1 false).rxOk hr
      (hlaw.starved s.rxdc k hk).1 hat.kept hat.released h.rooms nofun

/-! The condition is needed. -/

theorem Stored.of_prefix {l filled : List (BitVec 32 × List (List Byte))}
    (h : Stored sizes filled pkt) (hpre : l <+: filled) : Stored sizes l pkt := by
  intro i x hx
  obtain ⟨hlt, -⟩ := List.getElem?_eq_some_iff.mp hx
  obtain ⟨rest, rfl⟩ := hpre
  have heq := h i x (by rw [List.getElem?_append_left hlt, hx])
  rwa [List.take_append_of_le_length (by omega)] at heq

theorem rxTurn_cases (c : RxChip) (rxStart : BitVec 32) (hpkt : s.pkt ≠ []) :
    (∃ r, rxTurn c rxStart s = .stop r ∧
      r.filled = s.filled ++ [(s.rxCurrent, pieces (c.sizes s.rxdc) s.pkt)]) ∨
    ∃ s', rxTurn c rxStart s = .go s' ∧
      s'.filled = s.filled ++ [(s.rxCurrent, pieces (c.sizes s.rxdc) s.pkt)] := by
  rw [rxTurn, if_neg hpkt]
  split
  · exact .inl ⟨_, rfl, rfl⟩
  · simp only
    split
    · exact .inl ⟨_, rfl, rfl⟩
    · exact .inr ⟨_, rfl, rfl⟩

theorem returns_prefix {rxStart : BitVec 32} {r : RxResult} (h : Returns (rxTurn c rxStart) s r) :
    s.filled <+: r.filled := by
  apply h.invariant (P := fun s' => s.filled <+: s'.filled) (Q := fun r => s.filled <+: r.filled)
    (List.prefix_refl _)
  · intro s' s'' hs' hgo
    by_cases hpkt : s'.pkt = []
    · rw [rxTurn, if_pos hpkt] at hgo
      cases hgo
    · obtain ⟨r', hturn, -⟩ | ⟨t, hturn, hfilled⟩ := rxTurn_cases c rxStart hpkt
      · rw [hgo] at hturn
        cases hturn
      · rw [hgo] at hturn
        cases hturn
        exact hfilled ▸ hs'.trans (List.prefix_append _ _)
  · intro s' r' hs' hstop
    by_cases hpkt : s'.pkt = []
    · rw [rxTurn, if_pos hpkt] at hstop
      cases hstop
      exact hs'
    · obtain ⟨r'', hturn, hfilled⟩ | ⟨t, hturn, -⟩ := rxTurn_cases c rxStart hpkt
      · rw [hstop] at hturn
        cases hturn
        exact hfilled ▸ hs'.trans (List.prefix_append _ _)
      · rw [hstop] at hturn
        cases hturn

theorem returns_filled {rxStart : BitVec 32} {r : RxResult} (h : Returns (rxTurn c rxStart) s r)
    (hpkt : s.pkt ≠ []) :
    s.filled ++ [(s.rxCurrent, pieces (c.sizes s.rxdc) s.pkt)] <+: r.filled := by
  obtain ⟨r', hturn, hfilled⟩ | ⟨s', hturn, hfilled⟩ :=
    rxTurn_cases c rxStart hpkt
  · have hr := (returns_stop hturn).mp h
    exact ⟨[], by rw [List.append_nil, ← hfilled, hr]⟩
  · rw [← hfilled]
    exact returns_prefix ((returns_go hturn).mp h)

theorem not_nodup_of_prefix {l l' : List (BitVec 32 × List (List Byte))}
    {x : BitVec 32 × List (List Byte)} (hmem : x.1 ∈ l.map Prod.fst) (h : l ++ [x] <+: l') :
    ¬(l'.map Prod.fst).Nodup := by
  intro hnodup
  have hsub := (h.map Prod.fst).sublist.nodup hnodup
  rw [List.map_append, List.map_singleton, List.nodup_append] at hsub
  exact hsub.2.2 _ hmem _ (List.mem_singleton_self _) rfl

theorem ends_of_rxOk (hlaw : c.Lawful ls) (hclear : Clear c m ring) (hstart : start ∈ ring)
    (hown : owned c m start = true) {r : RxResult}
    (hr : Returns (rxTurn c start) (rxStartTurn c m start pkt) r)
    (hok : RxOk c ls sizes maxSize m start ring pkt r) :
    pkt ≠ [] ∧ ∃ n, Ends c sizes maxSize m start pkt n := by
  have hpkt : pkt ≠ [] := by
    intro hnil
    have hstop : ∃ m', rxTurn c start (rxStartTurn c m start pkt) = .stop ⟨m', start, [], true⟩ :=
      ⟨_, by rw [rxTurn, if_pos (by exact hnil)]; rfl⟩
    obtain ⟨m', hstop⟩ := hstop
    exact hok.some hown (by rw [(returns_stop hstop).mp hr])
  refine ⟨hpkt, ?_⟩
  by_contra hnone
  -- Without an end the walk would go to one new descriptor after the other.
  have hall : ∀ n, Reached c m start pkt n := by
    intro n
    induction n with
    | zero =>
      refine ⟨fun i hi => ?_, fun i hi j hj => absurd hj (by omega), fun i hi => ?_⟩
      · rw [Nat.le_zero.mp hi]
        exact hown
      · rw [Nat.le_zero.mp hi]
        exact List.length_pos_of_ne_nil hpkt
    | succ n ih =>
      obtain ⟨s, hat, hreturns⟩ := reach hlaw hclear hstart ih
      have hret := (hreturns r).mp hr
      have howned := ih.owned n (by omega)
      have hrest : s.pkt ≠ [] := by
        have := ih.more n (by omega)
        rw [hat.rest]
        exact fun hc => absurd (drop_eq_nil_iff n |>.mp hc) (by omega)
      have hpre := returns_filled hret hrest
      rw [hat.filled_succ] at hpre
      have hrooms := (stored_iff sizes ih).mp (hok.stored.of_prefix hpre)
      by_cases hfits : pkt.length ≤ offset (cap c m start) (n + 1)
      · obtain ⟨k, hk, hstop⟩ := hat.stop_complete (ih.more n (by omega)) hfits
        have heq := (returns_stop hstop).mp hret
        have hwhole := hok.whole (by rw [heq]; rfl)
        have hfin := hat.finish hlaw hclear hstart howned (ih.distinct n (by omega))
          (hlaw.last s.rxdc k hk).2 true
        rw [heq, hfin.filled, flatten_fill, List.take_of_length_le hfits] at hwhole
        have hmax := congrArg List.length hwhole
        rw [List.length_take] at hmax
        exact absurd ⟨n, ih.owned, ih.distinct, fun i hi => ih.more (i + 1) (by omega), hrooms,
          .inl ⟨hfits, by omega⟩⟩ hnone
      · have hmore : offset (cap c m start) (n + 1) < pkt.length := by omega
        have hacq := hat.acquire hclear hstart howned
        have hnot : ¬(RxRing.owned c m (walk c m start (n + 1)) = false ∨
            ∃ j, 1 ≤ j ∧ j < n ∧ walk c m start (n + 1) = walk c m start j) := fun hlast =>
          hnone ⟨n, ih.owned, ih.distinct, fun i hi => ih.more (i + 1) (by omega), hrooms,
            .inr ⟨hmore, hlast⟩⟩
        rw [not_or, Bool.not_eq_false] at hnot
        have hacquired : owned c (s.dataMem c) (walk c m start (n + 1)) = true := by
          rw [hacq.1 fun j hj hjn heq => hnot.2 ⟨j, hj, hjn, heq⟩]
          exact hnot.1
        obtain ⟨s', hgo, hcurrent, hfilled, hat'⟩ :=
          hat.go hlaw hclear hstart howned hmore hacquired
        have hnew : ∀ j ≤ n, walk c m start (n + 1) ≠ walk c m start j := by
          intro j hj heq
          have hrest' : s'.pkt ≠ [] := by
            obtain ⟨hne, hne'⟩ := hat.not_complete hmore
            rw [rxTurn, if_neg hne, if_neg hne'] at hgo
            simp only at hgo
            split at hgo
            · cases hgo
            · cases hgo
              exact hne'
          refine not_nodup_of_prefix ?_ (returns_filled ((returns_go hgo).mp hret) hrest') hok.once
          rw [hfilled, hcurrent]
          exact mem_walks.mpr ⟨j, by omega, heq⟩
        refine ⟨fun i hi => ?_, fun i hi j hj => ?_, fun i hi => ?_⟩
        · obtain hi | rfl : i ≤ n ∨ i = n + 1 := by omega
          · exact ih.owned i hi
          · exact hnot.1
        · obtain hi | rfl : i ≤ n ∨ i = n + 1 := by omega
          · exact ih.distinct i hi j hj
          · exact hnew j (by omega)
        · obtain hi | rfl : i ≤ n ∨ i = n + 1 := by omega
          · exact ih.more i hi
          · exact hmore
  have hnodup := nodup_walks (hall ring.length)
  have hsub : ((List.range (ring.length + 1)).map (fill c m start pkt)).map Prod.fst ⊆ ring := by
    intro a ha
    obtain ⟨j, -, rfl⟩ := mem_walks.mp ha
    exact walk_mem hclear hstart j
  have hlen := (hnodup.subperm hsub).length_le
  rw [List.length_map, List.length_map, List.length_range] at hlen
  omega

theorem receivePkt_of_owned (hown : owned c m start = true) {r : RxResult} :
    ReceivePkt c m start pkt r ↔ Returns (rxTurn c start) (rxStartTurn c m start pkt) r := by
  have hown' : rxdescAcquire (rxdescRead c m start 0) = true := hown
  rw [ReceivePkt, hown', if_neg (by decide)]

theorem receivePkt_of_not_owned (hown : owned c m start = false) {r : RxResult} :
    ReceivePkt c m start pkt r ↔ r = ⟨m, start, [], false⟩ := by
  have hown' : rxdescAcquire (rxdescRead c m start 0) = false := hown
  rw [ReceivePkt, if_pos hown']

theorem rxOk_refused (hown : owned c m start = false) :
    RxOk c ls sizes maxSize m start ring pkt ⟨m, start, [], false⟩ := by
  constructor
  · exact fun _ => ⟨rfl, rfl, rfl⟩
  · intro hc
    rw [hown] at hc
    cases hc
  all_goals simp [Stored]

theorem rxOk_iff (hlaw : c.Lawful ls) (hclear : Clear c m ring) (hstart : start ∈ ring) :
    (∃ r, ReceivePkt c m start pkt r ∧ RxOk c ls sizes maxSize m start ring pkt r) ↔
      RxFits c sizes maxSize m start pkt := by
  constructor
  · rintro ⟨r, hr, hok⟩ hown
    have hr := (receivePkt_of_owned hown).mp hr
    exact ends_of_rxOk hlaw hclear hstart hown hr hok
  · intro hfits
    cases hown : owned c m start with
    | false =>
      exact ⟨_, (receivePkt_of_not_owned hown).mpr rfl, rxOk_refused hown⟩
    | true =>
      obtain ⟨hpkt, n, hends⟩ := hfits hown
      obtain ⟨r, hr, hok, -⟩ := rxOk_of_ends hlaw hclear hstart hpkt hends
      exact ⟨r, (receivePkt_of_owned hown).mpr hr, hok⟩

end Dynamips.RxRing
