import Mathlib.Data.List.TakeDrop
import Dynamips.Lib.GuestRam
import Dynamips.Lib.Turns

/-! The transmit loop that the DEC21140 and the Mueslix share: a packet is put
together from one descriptor after the other, up to the last one of it. -/
set_option autoImplicit false

namespace Dynamips.TxRing

open GuestRam Turns
export GuestRam (Ram physmemCopyToVm physmemCopyFromVm)

abbrev Tdes := Nat → BitVec 32

def TXDESC_OWN : BitVec 32 := 0x80000000

/-- What is particular to a chip. A segment is so many bytes of the packet buffer;
without an address nothing is copied there. `trim` is what the last descriptor takes
from the length of the packet. -/
structure TxChip where
  words : Nat
  segs : Tdes → List (Option (BitVec 32) × Nat)
  first : Tdes → Bool
  last : Tdes → Bool
  getNext : BitVec 32 → Tdes → BitVec 32
  trim : Tdes → BitVec 32

variable (c : TxChip)

def txdescRead (m : Ram) (txdAddr : BitVec 32) : Tdes := fun i =>
  if i < c.words then physmemCopyU32FromVm m (txdAddr.toNat + 4 * i) else 0

/-- The packet buffer after a segment, none for a byte that was not written. -/
def segData (m : Ram) : Option (BitVec 32) × Nat → List (Option Byte)
  | (some addr, len) => (physmemCopyFromVm m addr.toNat len).map some
  | (none, len) => List.replicate len none

def TxChip.data (m : Ram) (tdes : Tdes) : List (Option Byte) := (c.segs tdes).flatMap (segData m)

structure TxTurn where
  mem : Ram
  txCurrent : BitVec 32
  ptxd : Tdes
  pkt : List (Option Byte)
  used : List (BitVec 32)

/-- `pkt` is the packet buffer as far as `pkt_ptr` went, `sent` what was handed on to be
sent and `used` are the descriptors that the packet was taken from. -/
structure TxResult where
  mem : Ram
  txCurrent : BitVec 32
  pkt : List (Option Byte)
  sent : Option (List (Option Byte))
  used : List (BitVec 32)
  complete : Bool

/-- The packet after the loop; `tot_len` has 32 bits, and what is behind the end of the
packet was not written. -/
def sendPkt (pkt : List (Option Byte)) (trim : BitVec 32) : Option (List (Option Byte)) :=
  let totLen := BitVec.ofNat 32 pkt.length
  if totLen = 0 then none else some (pkt.takeD (totLen - trim).toNat none)

def txTurn (txStart : BitVec 32) (s : TxTurn) : Turn TxTurn TxResult :=
  if hasFlag (s.ptxd 0) TXDESC_OWN = false then
    .stop ⟨s.mem, s.txCurrent, s.pkt, none, s.used, false⟩
  else
    let pkt := s.pkt ++ c.data s.mem s.ptxd
    let m := if c.first s.ptxd then s.mem else physmemCopyU32ToVm s.mem s.txCurrent.toNat 0
    let txCurrent := c.getNext s.txCurrent s.ptxd
    let used := s.used ++ [s.txCurrent]
    if c.last s.ptxd then
      .stop ⟨physmemCopyU32ToVm m txStart.toNat 0, txCurrent, pkt, sendPkt pkt (c.trim s.ptxd),
        used, true⟩
    else .go ⟨m, txCurrent, txdescRead c m txCurrent, pkt, used⟩

def txStartTurn (m : Ram) (txCurrent : BitVec 32) : TxTurn where
  mem := m
  txCurrent := txCurrent
  ptxd := txdescRead c m txCurrent
  pkt := []
  used := []

/-- The packet at the current descriptor is transmitted with this result. -/
def TransmitPkt (m : Ram) (txCurrent : BitVec 32) (r : TxResult) : Prop :=
  Returns (txTurn c txCurrent) (txStartTurn c m txCurrent) r

/-! What the shared transmit loop sends. -/

variable (c : TxChip)

def owned (m : Ram) (a : BitVec 32) : Bool := hasFlag (txdescRead c m a 0) TXDESC_OWN

/-- The descriptor that the walk from `start` comes to after `i` others. -/
def walk (m : Ram) (start : BitVec 32) : Nat → BitVec 32
  | 0 => start
  | i + 1 => c.getNext (walk m start i) (txdescRead c m (walk m start i))

/-- The descriptors of a ring or chain are apart from each other and from the
buffers, and lead to each other. -/
structure Clear (m : Ram) (ring : List (BitVec 32)) : Prop where
  next : ∀ a ∈ ring, c.getNext a (txdescRead c m a) ∈ ring
  apart : ∀ a ∈ ring, ∀ b ∈ ring, a = b ∨ a.toNat + 4 * c.words ≤ b.toNat ∨
    b.toNat + 4 * c.words ≤ a.toNat
  buffers : ∀ a ∈ ring, owned c m a = true → ∀ x ∈ c.segs (txdescRead c m a), ∀ y ∈ x.1,
    ∀ b ∈ ring, y.toNat + x.2 ≤ b.toNat ∨ b.toNat + 4 * c.words ≤ y.toNat

/-- A complete chain: the descriptor after `n` others is the first last one, and all
are owned. -/
structure Chain (m : Ram) (start : BitVec 32) (n : Nat) : Prop where
  owned : ∀ i ≤ n, owned c m (walk c m start i) = true
  more : ∀ i < n, c.last (txdescRead c m (walk c m start i)) = false
  last : c.last (txdescRead c m (walk c m start n)) = true

/-- What the descriptors of a chain hold, each `held` of it. -/
def chainBytes (held : Ram → Tdes → List Byte) (m : Ram) (start : BitVec 32) (n : Nat) :
    List Byte :=
  (List.range (n + 1)).flatMap fun i => held m (txdescRead c m (walk c m start i))

/-- A frame is transmitted as it should be: what is put together never exceeds the
buffer; the bytes of a complete chain are sent, less its trim; without one everything is
left as it was. -/
structure TxOk (held : Ram → Tdes → List Byte) (maxSize : Nat) (m : Ram) (start : BitVec 32)
    (r : TxResult) : Prop where
  fits : r.pkt.length ≤ maxSize
  sent : ∀ n, Chain c m start n →
    let bytes := chainBytes c held m start n
    let trim := (c.trim (txdescRead c m (walk c m start n))).toNat
    r.sent = if bytes = [] then none else some ((bytes.take (bytes.length - trim)).map some)
  kept : (¬∃ n, Chain c m start n) → r.mem = m ∧ r.txCurrent = start ∧ r.sent = none

/-- There is nothing to transmit, or a complete chain that fits in the buffer, in which
no descriptor makes the packet longer than by the bytes it holds and the trim takes no
more than there is. -/
def TxFits (held : Ram → Tdes → List Byte) (maxSize : Nat) (m : Ram) (start : BitVec 32) : Prop :=
  owned c m start = true → ∃ n, Chain c m start n ∧
    (chainBytes c held m start n).length ≤ maxSize ∧
    (∀ i ≤ n, ((c.segs (txdescRead c m (walk c m start i))).map Prod.snd).sum =
      (held m (txdescRead c m (walk c m start i))).length) ∧
    (chainBytes c held m start n = [] ∨
      (c.trim (txdescRead c m (walk c m start n))).toNat ≤ (chainBytes c held m start n).length)

/-- What a descriptor holds, against what it puts in the packet buffer. -/
structure TxChip.Lawful (c : TxChip) (held : Ram → Tdes → List Byte) (maxSize : Nat) : Prop where
  words : 1 ≤ c.words
  le : ∀ m t, (held m t).length ≤ ((c.segs t).map Prod.snd).sum
  eq : ∀ m t, ((c.segs t).map Prod.snd).sum = (held m t).length →
    c.data m t = (held m t).map some
  small : ∀ t, (c.trim t).toNat ≤ 3
  size : maxSize < 2 ^ 31
  trim : (∀ t, c.trim t = 0) ∨
    ∀ m t, ((c.segs t).map Prod.snd).sum = (held m t).length ∨
      maxSize < ((c.segs t).map Prod.snd).sum

variable {c} {held : Ram → Tdes → List Byte} {maxSize : Nat} {m : Ram} {start : BitVec 32}
  {ring : List (BitVec 32)} {n : Nat}

/-! Chains. -/

theorem walk_mem (hclear : Clear c m ring) (hstart : start ∈ ring) (i : Nat) :
    walk c m start i ∈ ring := by
  induction i with
  | zero => exact hstart
  | succ i ih => exact hclear.next _ ih

theorem walk_shift {i j : Nat} (h : walk c m start i = walk c m start j) (k : Nat) :
    walk c m start (i + k) = walk c m start (j + k) := by
  induction k with
  | zero => exact h
  | succ k ih => rw [← Nat.add_assoc, ← Nat.add_assoc, walk, walk, ih]

theorem Chain.distinct (h : Chain c m start n) {i j : Nat} (hi : i ≤ n) (hj : j < i) :
    walk c m start i ≠ walk c m start j := by
  intro heq
  have hshift := walk_shift heq (n - i)
  rw [Nat.add_sub_cancel' hi] at hshift
  have hmore := h.more (j + (n - i)) (by omega)
  rw [← hshift, h.last] at hmore
  cases hmore

theorem Chain.unique {n' : Nat} (h : Chain c m start n) (h' : Chain c m start n') : n = n' := by
  obtain hlt | rfl | hlt := Nat.lt_trichotomy n n'
  · have hmore := h'.more n hlt
    rw [h.last] at hmore
    cases hmore
  · rfl
  · have hmore := h.more n' hlt
    rw [h'.last] at hmore
    cases hmore

/-! Words of the descriptors. -/

theorem txdescRead_congr {m' : Ram} {a : BitVec 32}
    (h : ∀ x, a.toNat ≤ x → x < a.toNat + 4 * c.words → m' x = m x) :
    txdescRead c m' a = txdescRead c m a := by
  funext i
  simp only [txdescRead]
  split
  · exact u32_congr fun x hx hx' => h x (by omega) (by omega)
  · rfl

theorem txdescRead_status (hclear : Clear c m ring) {a b : BitVec 32} (ha : a ∈ ring)
    (hb : b ∈ ring) (hne : a ≠ b) {m' : Ram} (status : BitVec 32) (hwords : 1 ≤ c.words) :
    txdescRead c (physmemCopyU32ToVm m' b.toNat status) a = txdescRead c m' a := by
  have hapart := (hclear.apart a ha b hb).resolve_left hne
  exact txdescRead_congr fun x hx hx' => copyToVm_of_not_mem (by simp only [length_mHton32]; omega)

theorem not_owned_cleared (hwords : 1 ≤ c.words) {m' : Ram} (a : BitVec 32) :
    owned c (physmemCopyU32ToVm m' a.toNat 0) a = false := by
  have hword : txdescRead c (physmemCopyU32ToVm m' a.toNat 0) a 0 = 0 := by
    rw [txdescRead, if_pos (by omega)]
    exact u32_u32ToVm _ _
  rw [owned, hword]
  rfl

theorem segData_congr {m' : Ram} (x : Option (BitVec 32) × Nat)
    (h : ∀ y ∈ x.1, ∀ z, y.toNat ≤ z → z < y.toNat + x.2 → m' z = m z) :
    segData m' x = segData m x := by
  obtain ⟨addr, len⟩ := x
  cases addr with
  | none => rfl
  | some addr => rw [segData, segData, copyFromVm_congr fun z hz hz' => h addr rfl z hz hz']

theorem length_segData (m : Ram) (x : Option (BitVec 32) × Nat) : (segData m x).length = x.2 := by
  obtain ⟨addr, len⟩ := x
  cases addr with
  | none => simp [segData]
  | some addr => simp [segData]

theorem length_data (m : Ram) (t : Tdes) : (c.data m t).length = ((c.segs t).map Prod.snd).sum := by
  rw [TxChip.data, List.length_flatMap]
  congr 1
  exact List.map_congr_left fun x _ => length_segData m x

theorem data_congr {m' : Ram} {t : Tdes}
    (h : ∀ x ∈ c.segs t, ∀ y ∈ x.1, ∀ z, y.toNat ≤ z → z < y.toNat + x.2 → m' z = m z) :
    c.data m' t = c.data m t :=
  List.flatMap_congr fun x hx => segData_congr x (h x hx)

/-! The loop. -/

/-- What the descriptor of the walk after `i` others puts in the packet buffer. -/
def dataAt (c : TxChip) (m : Ram) (start : BitVec 32) (i : Nat) : List (Option Byte) :=
  c.data m (txdescRead c m (walk c m start i))

/-- The descriptor of the walk after `j` others is not cleared before the end of the
loop. -/
def keeps (c : TxChip) (m : Ram) (start : BitVec 32) (j : Nat) : Bool :=
  c.first (txdescRead c m (walk c m start j))

/-- The loop before the turn for the descriptor after `i` others. -/
structure At (c : TxChip) (m : Ram) (start : BitVec 32) (ring : List (BitVec 32)) (i : Nat)
    (s : TxTurn) : Prop where
  current : s.txCurrent = walk c m start i
  ptxd : s.ptxd = txdescRead c m (walk c m start i)
  pkt : s.pkt = (List.range i).flatMap (dataAt c m start)
  used : s.used = (List.range i).map (walk c m start)
  kept : ∀ a ∈ ring, (∀ j < i, keeps c m start j = false → a ≠ walk c m start j) →
    txdescRead c s.mem a = txdescRead c m a
  cleared : ∀ j < i, keeps c m start j = false → owned c s.mem (walk c m start j) = false
  outside : ∀ x, (∀ a ∈ ring, x < a.toNat ∨ a.toNat + 4 * c.words ≤ x) → s.mem x = m x

theorem at_start : At c m start ring 0 (txStartTurn c m start) := by
  constructor
  · rfl
  · rfl
  · rfl
  · rfl
  · exact fun a _ _ => rfl
  · exact fun j hj => absurd hj (by omega)
  · exact fun x _ => rfl

variable {i : Nat} {s : TxTurn}

def TxTurn.clearOwn (c : TxChip) (s : TxTurn) : Ram :=
  if c.first s.ptxd then s.mem else physmemCopyU32ToVm s.mem s.txCurrent.toNat 0

def TxTurn.next (c : TxChip) (s : TxTurn) : TxTurn where
  mem := s.clearOwn c
  txCurrent := c.getNext s.txCurrent s.ptxd
  ptxd := txdescRead c (s.clearOwn c) (c.getNext s.txCurrent s.ptxd)
  pkt := s.pkt ++ c.data s.mem s.ptxd
  used := s.used ++ [s.txCurrent]

theorem At.data (h : At c m start ring i s) (hclear : Clear c m ring) (hstart : start ∈ ring)
    (hown : owned c m (walk c m start i) = true) : c.data s.mem s.ptxd = dataAt c m start i := by
  rw [h.ptxd, dataAt]
  apply data_congr
  intro x hx y hy z hz hz'
  apply h.outside
  intro a ha
  have := hclear.buffers _ (walk_mem hclear hstart i) hown x hx y hy a ha
  omega

theorem At.pkt_succ (h : At c m start ring i s) (hclear : Clear c m ring) (hstart : start ∈ ring)
    (hown : owned c m (walk c m start i) = true) :
    s.pkt ++ c.data s.mem s.ptxd = (List.range (i + 1)).flatMap (dataAt c m start) := by
  rw [h.data hclear hstart hown, h.pkt, List.range_succ, List.flatMap_append,
    List.flatMap_singleton]

theorem At.used_succ (h : At c m start ring i s) :
    s.used ++ [s.txCurrent] = (List.range (i + 1)).map (walk c m start) := by
  rw [h.used, h.current, List.range_succ, List.map_append, List.map_singleton]

theorem At.owned (h : At c m start ring i s) (hown : owned c m (walk c m start i) = true) :
    hasFlag (s.ptxd 0) TXDESC_OWN = true := by
  rw [h.ptxd]
  exact hown

theorem At.go (h : At c m start ring i s) (hown : TxRing.owned c m (walk c m start i) = true)
    (hmore : c.last (txdescRead c m (walk c m start i)) = false) :
    txTurn c start s = .go (s.next c) := by
  rw [← h.ptxd] at hmore
  rw [txTurn, if_neg (by rw [h.owned hown]; decide)]
  simp only [hmore, Bool.false_eq_true, if_false]
  rfl

theorem At.clearOwn_kept (h : At c m start ring i s) (hclear : Clear c m ring)
    (hstart : start ∈ ring) (hwords : 1 ≤ c.words) {a : BitVec 32} (ha : a ∈ ring)
    (hne : ∀ j < i + 1, keeps c m start j = false → a ≠ walk c m start j) :
    txdescRead c (s.clearOwn c) a = txdescRead c m a := by
  have hkept := h.kept a ha fun j hj => hne j (by omega)
  rw [TxTurn.clearOwn]
  split
  · exact hkept
  · rename_i hfirst
    rw [h.ptxd, Bool.not_eq_true] at hfirst
    rw [h.current, txdescRead_status hclear ha (walk_mem hclear hstart i)
      (hne i (by omega) hfirst) _ hwords, hkept]

theorem At.clearOwn_cleared (h : At c m start ring i s) (hclear : Clear c m ring)
    (hstart : start ∈ ring) (hwords : 1 ≤ c.words) {j : Nat} (hj : j < i + 1)
    (hfirst : keeps c m start j = false) : TxRing.owned c (s.clearOwn c) (walk c m start j) = false := by
  have hwalk := walk_mem hclear hstart (c := c) (m := m)
  by_cases heq : walk c m start j = walk c m start i
  · have hcleared : c.first s.ptxd = false := by
      rw [h.ptxd, ← heq]
      exact hfirst
    rw [TxTurn.clearOwn, hcleared, if_neg (by decide), h.current, heq]
    exact not_owned_cleared hwords _
  · have hlt : j < i := by
      by_contra hc
      exact heq (by rw [show j = i by omega])
    rw [TxTurn.clearOwn]
    split
    · exact h.cleared j hlt hfirst
    · rw [h.current, TxRing.owned, txdescRead_status hclear (hwalk j) (hwalk i) heq _ hwords]
      exact h.cleared j hlt hfirst

theorem At.clearOwn_outside (h : At c m start ring i s) (hclear : Clear c m ring)
    (hstart : start ∈ ring) (hwords : 1 ≤ c.words) {x : Nat}
    (hx : ∀ a ∈ ring, x < a.toNat ∨ a.toNat + 4 * c.words ≤ x) : s.clearOwn c x = m x := by
  have hkept := h.outside x hx
  have := hx _ (walk_mem hclear hstart i)
  rw [TxTurn.clearOwn]
  split
  · exact hkept
  · rw [physmemCopyU32ToVm, h.current, copyToVm_of_not_mem (by rw [length_mHton32]; omega), hkept]

theorem At.next (h : At c m start ring i s) (hclear : Clear c m ring) (hstart : start ∈ ring)
    (hwords : 1 ≤ c.words) (hown : TxRing.owned c m (walk c m start i) = true)
    (hnew : ∀ j < i + 1, keeps c m start j = false → walk c m start (i + 1) ≠ walk c m start j) :
    At c m start ring (i + 1) (s.next c) := by
  have hcurrent : c.getNext s.txCurrent s.ptxd = walk c m start (i + 1) := by
    rw [h.current, h.ptxd, walk]
  constructor
  · exact hcurrent
  · rw [TxTurn.next, hcurrent]
    exact h.clearOwn_kept hclear hstart hwords (walk_mem hclear hstart (i + 1)) hnew
  · exact h.pkt_succ hclear hstart hown
  · exact h.used_succ
  · exact fun a ha hne => h.clearOwn_kept hclear hstart hwords ha hne
  · exact fun j hj hfirst => h.clearOwn_cleared hclear hstart hwords hj hfirst
  · exact fun x hx => h.clearOwn_outside hclear hstart hwords hx

theorem reach (hclear : Clear c m ring) (hstart : start ∈ ring) (hwords : 1 ≤ c.words)
    (hchain : Chain c m start n) (hi : i ≤ n) : ∃ s, At c m start ring i s ∧ ∀ r,
      Returns (txTurn c start) (txStartTurn c m start) r ↔ Returns (txTurn c start) s r := by
  induction i with
  | zero => exact ⟨_, at_start, fun _ => Iff.rfl⟩
  | succ i ih =>
    obtain ⟨s, hat, hreturns⟩ := ih (by omega)
    have hown := hchain.owned i (by omega)
    have hgo := hat.go hown (hchain.more i (by omega))
    have hat' := hat.next hclear hstart hwords hown fun j hj _ => hchain.distinct hi hj
    exact ⟨_, hat', fun r => (hreturns r).trans (returns_go hgo)⟩

theorem transmit_chain (hclear : Clear c m ring) (hstart : start ∈ ring) (hwords : 1 ≤ c.words)
    (hchain : Chain c m start n) : ∃ r, TransmitPkt c m start r ∧
      r.pkt = (List.range (n + 1)).flatMap (dataAt c m start) ∧
        r.sent = sendPkt r.pkt (c.trim (txdescRead c m (walk c m start n))) ∧
          r.used = (List.range (n + 1)).map (walk c m start) ∧
            r.txCurrent = walk c m start (n + 1) := by
  obtain ⟨s, hat, hreturns⟩ := reach hclear hstart hwords hchain le_rfl
  have hown := hchain.owned n le_rfl
  have hlast := hchain.last
  rw [← hat.ptxd] at hlast
  have hstop : txTurn c start s = .stop ⟨physmemCopyU32ToVm (s.clearOwn c) start.toNat 0,
      c.getNext s.txCurrent s.ptxd, s.pkt ++ c.data s.mem s.ptxd,
      sendPkt (s.pkt ++ c.data s.mem s.ptxd) (c.trim s.ptxd), s.used ++ [s.txCurrent], true⟩ := by
    rw [txTurn, if_neg (by rw [hat.owned hown]; decide)]
    simp only [hlast, if_true]
    rfl
  refine ⟨_, (hreturns _).mpr ((returns_stop hstop).mpr rfl), hat.pkt_succ hclear hstart hown, ?_,
    hat.used_succ, ?_⟩
  · rw [← hat.ptxd]
  · rw [walk, ← hat.ptxd, ← hat.current]

theorem transmit_refused (hown : owned c m start = false) :
    TransmitPkt c m start ⟨m, start, [], none, [], false⟩ := by
  apply (returns_stop _).mpr rfl
  exact if_pos hown

theorem chain_of_txOk (hclear : Clear c m ring) (hstart : start ∈ ring) (hwords : 1 ≤ c.words)
    (hown : owned c m start = true) {r : TxResult} (hr : TransmitPkt c m start r)
    (hok : TxOk c held maxSize m start r) : ∃ n, Chain c m start n := by
  by_contra hnone
  obtain ⟨hmem, hcurrent, -⟩ := hok.kept hnone
  -- The loop would go on for ever, as it may not stop at a descriptor that is not owned.
  apply not_returns_of_endless (i := 0) (r := r) (P := fun i s => At c m start ring i s ∧
    (∀ j ≤ i, owned c m (walk c m start j) = true) ∧
    (∀ j < i, c.last (txdescRead c m (walk c m start j)) = false) ∧
    Returns (txTurn c start) s r) ⟨at_start, ?_, nofun, hr⟩ ?_ hr
  · intro j hj
    rw [Nat.le_zero.mp hj]
    exact hown
  · rintro i s ⟨hat, howned, hmore, hret⟩
    have hnotLast : c.last (txdescRead c m (walk c m start i)) = false := by
      by_contra hlast
      exact hnone ⟨i, howned, hmore, by simpa using hlast⟩
    have hgo := hat.go (howned i le_rfl) hnotLast
    have hret' := (returns_go hgo).mp hret
    have hwalk : c.getNext s.txCurrent s.ptxd = walk c m start (i + 1) := by
      rw [hat.current, hat.ptxd, walk]
    have hnext : owned c (s.clearOwn c) (walk c m start (i + 1)) = true := by
      by_contra hnot
      rw [Bool.not_eq_true, ← hwalk] at hnot
      have hstop : txTurn c start (s.next c) =
          .stop ⟨s.clearOwn c, c.getNext s.txCurrent s.ptxd, (s.next c).pkt, none,
            (s.next c).used, false⟩ := if_pos hnot
      have heq := (returns_stop hstop).mp hret'
      rw [heq] at hmem hcurrent
      simp only at hmem hcurrent
      rw [hmem, hcurrent, hown] at hnot
      cases hnot
    have hnew : ∀ j < i + 1, keeps c m start j = false →
        walk c m start (i + 1) ≠ walk c m start j := by
      intro j hj hkeeps heq
      have hcleared := hat.clearOwn_cleared hclear hstart hwords hj hkeeps
      rw [← heq, hnext] at hcleared
      cases hcleared
    refine ⟨s.next c, hgo, hat.next hclear hstart hwords (howned i le_rfl) hnew, fun j hj => ?_,
      fun j hj => ?_, hret'⟩
    · obtain hj | rfl : j ≤ i ∨ j = i + 1 := by omega
      · exact howned j hj
      · rw [owned, hat.clearOwn_kept hclear hstart hwords (walk_mem hclear hstart _) hnew] at hnext
        exact hnext
    · obtain hj | rfl : j < i ∨ j = i := by omega
      · exact hmore j hj
      · exact hnotLast

/-! The packet that is sent. -/

theorem sendPkt_bytes {bytes : List Byte} {t : BitVec 32} (hsize : bytes.length < 2 ^ 31)
    (ht : bytes = [] ∨ t.toNat ≤ bytes.length) : sendPkt (bytes.map some) t =
      if bytes = [] then none else some ((bytes.take (bytes.length - t.toNat)).map some) := by
  cases bytes with
  | nil => rfl
  | cons b bytes =>
    have htrim := ht.resolve_left (by simp)
    have hlen : (BitVec.ofNat 32 (b :: bytes).length).toNat = (b :: bytes).length := by
      rw [BitVec.toNat_ofNat]
      omega
    have hne : BitVec.ofNat 32 ((b :: bytes).map some).length ≠ 0 := by
      rw [List.length_map]
      intro hzero
      rw [hzero] at hlen
      simp at hlen
    rw [sendPkt, if_neg hne, if_neg (by simp), List.length_map, BitVec.toNat_sub_of_le
      (by rw [BitVec.le_def, hlen]; exact htrim), hlen, List.takeD_eq_take, List.map_take]
    rw [List.length_map]
    omega

theorem length_of_sendPkt {pkt : List (Option Byte)} {bytes : List Byte} {t : BitVec 32}
    (hsize : pkt.length < 2 ^ 31) (ht : t.toNat ≤ 3) (h : sendPkt pkt t =
      if bytes = [] then none else some ((bytes.take (bytes.length - t.toNat)).map some)) :
    (t = 0 → pkt.length = bytes.length) ∧
      (pkt.length = bytes.length → bytes = [] ∨ t.toNat ≤ bytes.length) := by
  have hlen : (BitVec.ofNat 32 pkt.length).toNat = pkt.length := by
    rw [BitVec.toNat_ofNat]
    omega
  rw [sendPkt] at h
  split at h
  · rename_i hzero
    rw [hzero] at hlen
    split at h
    · rename_i hnil
      subst hnil
      exact ⟨fun _ => hlen.symm, fun _ => .inl rfl⟩
    · cases h
  · split at h
    · cases h
    · have hlens := congrArg List.length (Option.some.inj h)
      rw [List.takeD_length, List.length_map, List.length_take, BitVec.toNat_sub, hlen] at hlens
      constructor
      · rintro rfl
        simp at hlens
        omega
      · intro heq
        omega

/-- What the descriptor of the walk after `i` others holds. -/
def heldAt (c : TxChip) (held : Ram → Tdes → List Byte) (m : Ram) (start : BitVec 32) (i : Nat) :
    List Byte :=
  held m (txdescRead c m (walk c m start i))

theorem flatMap_lengths {α β : Type} {f : Nat → List α} {g : Nat → List β} {k : Nat}
    (hle : ∀ i < k, (g i).length ≤ (f i).length) :
    ((List.range k).flatMap g).length ≤ ((List.range k).flatMap f).length ∧
      (((List.range k).flatMap f).length = ((List.range k).flatMap g).length ↔
        ∀ i < k, (f i).length = (g i).length) := by
  induction k with
  | zero => simp
  | succ k ih =>
    obtain ⟨hsum, hiff⟩ := ih fun i hi => hle i (by omega)
    have hk := hle k (by omega)
    simp only [List.range_succ, List.flatMap_append, List.flatMap_singleton, List.length_append]
    refine ⟨by omega, fun h i hi => ?_, fun h => ?_⟩
    · obtain hi | rfl : i < k ∨ i = k := by omega
      · exact hiff.mp (by omega) i hi
      · omega
    · have := hiff.mpr fun i hi => h i (by omega)
      have := h k (by omega)
      omega

theorem length_le_flatMap {α : Type} (f : Nat → List α) {k : Nat} (hi : i < k) :
    (f i).length ≤ ((List.range k).flatMap f).length := by
  induction k with
  | zero => omega
  | succ k ih =>
    simp only [List.range_succ, List.flatMap_append, List.flatMap_singleton, List.length_append]
    obtain hi | rfl : i < k ∨ i = k := by omega
    · have := ih hi
      omega
    · omega

theorem dataAt_eq (hlaw : c.Lawful held maxSize)
    (h : (dataAt c m start i).length = (heldAt c held m start i).length) :
    dataAt c m start i = (heldAt c held m start i).map some := by
  rw [dataAt, length_data] at h
  exact hlaw.eq _ _ h

theorem heldAt_le (hlaw : c.Lawful held maxSize) (i : Nat) :
    (heldAt c held m start i).length ≤ (dataAt c m start i).length := by
  rw [dataAt, length_data]
  exact hlaw.le _ _

theorem txOk_refused (hown : owned c m start = false) :
    TxOk c held maxSize m start ⟨m, start, [], none, [], false⟩ := by
  refine ⟨Nat.zero_le _, fun n hchain => ?_, fun _ => ⟨rfl, rfl, rfl⟩⟩
  have hfirst := hchain.owned 0 (by omega)
  rw [walk, hown] at hfirst
  cases hfirst

theorem txOk_of_fits (hlaw : c.Lawful held maxSize) (hclear : Clear c m ring)
    (hstart : start ∈ ring) (h : TxFits c held maxSize m start) :
    ∃ r, TransmitPkt c m start r ∧ TxOk c held maxSize m start r := by
  cases hown : owned c m start with
  | false =>
    exact ⟨_, transmit_refused hown, txOk_refused hown⟩
  | true =>
    obtain ⟨n, hchain, hsize, hlen, htrim⟩ := h hown
    obtain ⟨r, hr, hpkt, hsent, -⟩ := transmit_chain hclear hstart hlaw.words hchain
    have hdata : ∀ i ∈ List.range (n + 1),
        dataAt c m start i = (heldAt c held m start i).map some := by
      intro i hi
      have heq := hlen i (by rw [List.mem_range] at hi; omega)
      rw [← length_data m] at heq
      exact dataAt_eq hlaw heq
    have hbytes : r.pkt = (chainBytes c held m start n).map some := by
      rw [hpkt, List.flatMap_congr hdata, chainBytes, List.map_flatMap]
      rfl
    refine ⟨r, hr, ?_, fun n' hchain' => ?_, fun hnone => absurd ⟨n, hchain⟩ hnone⟩
    · rw [hbytes, List.length_map]
      exact hsize
    · obtain rfl := hchain.unique hchain'
      have hmax := hlaw.size
      rw [hsent, hbytes]
      exact sendPkt_bytes (by omega) htrim

theorem fits_of_txOk (hlaw : c.Lawful held maxSize) (hclear : Clear c m ring)
    (hstart : start ∈ ring) {r : TxResult} (hr : TransmitPkt c m start r)
    (hok : TxOk c held maxSize m start r) : TxFits c held maxSize m start := by
  intro hown
  obtain ⟨n, hchain⟩ := chain_of_txOk hclear hstart hlaw.words hown hr hok
  obtain ⟨r', hr', hpkt, hsent, -⟩ := transmit_chain hclear hstart hlaw.words hchain
  obtain rfl := hr.unique hr'
  have hfits := hok.fits
  have hmax := hlaw.size
  have hsentOk := hok.sent n hchain
  rw [hsent] at hsentOk
  obtain ⟨hzero, htrim⟩ := length_of_sendPkt (by omega) (hlaw.small _) hsentOk
  obtain ⟨hle, hiff⟩ := flatMap_lengths (f := dataAt c m start) (g := heldAt c held m start)
    (k := n + 1) fun i _ => heldAt_le hlaw i
  rw [← hpkt] at hle hiff
  have heq : r.pkt.length = (chainBytes c held m start n).length := by
    obtain hnone | hshort := hlaw.trim
    · exact hzero (hnone _)
    · refine hiff.mpr fun i hi => ?_
      have hlen := length_le_flatMap (dataAt c m start) hi
      rw [← hpkt] at hlen
      rw [dataAt, length_data] at hlen ⊢
      exact (hshort m (txdescRead c m (walk c m start i))).resolve_right (by omega)
  refine ⟨n, hchain, by omega, fun i hi => ?_, htrim heq⟩
  have hlen := hiff.mp heq i (by omega)
  rwa [dataAt, length_data] at hlen

theorem txOk_iff (hlaw : c.Lawful held maxSize) (hclear : Clear c m ring)
    (hstart : start ∈ ring) :
    (∃ r, TransmitPkt c m start r ∧ TxOk c held maxSize m start r) ↔
      TxFits c held maxSize m start := by
  constructor
  · rintro ⟨r, hr, hok⟩
    exact fits_of_txOk hlaw hclear hstart hr hok
  · exact txOk_of_fits hlaw hclear hstart

end Dynamips.TxRing
