import Mathlib.Data.List.Nodup
import Dynamips.Lib.Fragments
import Dynamips.Am79c971

/-! What a packet leaves in the receive ring of the AM79C971. -/
set_option autoImplicit false

namespace Dynamips.Am79c971

open GuestRam Turns Fragments

def Am79c971Data.descAddr (d : Am79c971Data) (k : Nat) : Nat := d.rxStart.toNat + 16 * k

def Am79c971Data.word (d : Am79c971Data) (m : Ram) (k i : Nat) : BitVec 32 :=
  physmemCopyU32FromVm m (d.descAddr k + 4 * i)

def Am79c971Data.addrWord (d : Am79c971Data) : Nat :=
  if d.bcr20.setWidth 8 = (2 : BitVec 8) then 0 else 2

def Am79c971Data.countWord (d : Am79c971Data) : Nat :=
  if d.bcr20.setWidth 8 = (2 : BitVec 8) then 2 else 0

def Am79c971Data.owned (d : Am79c971Data) (m : Ram) (k : Nat) : Bool :=
  hasFlag (d.word m k 1) AM79C971_RMD1_OWN

/-- The descriptor that is `i` after the current one, at most once around the ring. -/
def Am79c971Data.slot (d : Am79c971Data) (i : Nat) : Nat :=
  if d.rxPos.toNat + i < d.rxLen.toNat then d.rxPos.toNat + i
  else d.rxPos.toNat + i - d.rxLen.toNat

/-- The room in the buffer of the descriptor that is `i` after the current one. -/
def Am79c971Data.cap (d : Am79c971Data) (m : Ram) (i : Nat) : Nat := bufLen (d.word m (d.slot i) 1)

def Am79c971Data.bufAddr (d : Am79c971Data) (m : Ram) (k : Nat) : Nat :=
  (d.word m k d.addrWord).toNat

/-- The ring is in memory and the buffers of the device are outside it. -/
structure Clear (d : Am79c971Data) (m : Ram) : Prop where
  inMemory : d.descAddr d.rxLen.toNat ≤ 2 ^ 32
  apart : ∀ k < d.rxLen.toNat, d.owned m k = true →
    d.bufAddr m k + bufLen (d.word m k 1) ≤ d.descAddr 0 ∨
      d.descAddr d.rxLen.toNat ≤ d.bufAddr m k

structure RxOk (d : Am79c971Data) (m : Ram) (pkt : List Byte) (r : RxResult) : Prop where
  inRing : ∀ k ∈ r.touched, k < d.rxLen.toNat
  once : (r.filled.map Prod.fst).Nodup
  owned : ∀ k ∈ r.filled.map Prod.fst, d.owned m k = true
  given : ∀ k < d.rxLen.toNat,
    d.owned r.mem k = (d.owned m k && !decide (k ∈ r.filled.map Prod.fst))
  first : ∀ k ∈ (r.filled.map Prod.fst).head?,
    hasFlag (d.word r.mem k 1) AM79C971_RMD1_STP = true
  stored : r.complete = true → (r.filled.map Prod.snd).flatten = pkt.take AM79C971_MAX_PKT_SIZE
  last : r.complete = true → ∀ k ∈ (r.filled.map Prod.fst).getLast?,
    hasFlag (d.word r.mem k 1) AM79C971_RMD1_ENP = true ∧
      d.word r.mem k d.countWord &&& AM79C971_RMD2_LEN =
        BitVec.ofNat 32 (min pkt.length AM79C971_MAX_PKT_SIZE + 4)
  starved : r.complete = false → ∀ k ∈ (r.filled.map Prod.fst).getLast?,
    hasFlag (d.word r.mem k 1) AM79C971_RMD1_ERR = true ∧
      hasFlag (d.word r.mem k 1) AM79C971_RMD1_BUFF = true ∧
        hasFlag (d.word r.mem k 1) AM79C971_RMD1_ENP = true

/-- The packet goes to descriptors of the device up to the one `n` after the
current one: it ends there, or the next one is not the device's. -/
structure Ends (d : Am79c971Data) (m : Ram) (pkt : List Byte) (n : Nat) : Prop where
  inside : n < d.rxLen.toNat
  owned : ∀ i ≤ n, d.owned m (d.slot i) = true
  more : ∀ i < n, offset (d.cap m) (i + 1) < pkt.length
  last : pkt.length ≤ offset (d.cap m) (n + 1) ∧ pkt.length ≤ AM79C971_MAX_PKT_SIZE ∨
    offset (d.cap m) (n + 1) < pkt.length ∧ d.owned m (d.slot (n + 1)) = false

/-- The software style is known, the position is in the ring, and the packet
ends before the ring does. -/
structure RxFits (d : Am79c971Data) (m : Ram) (pkt : List Byte) : Prop where
  style : d.bcr20.setWidth 8 = (2 : BitVec 8) ∨ d.bcr20.setWidth 8 = (3 : BitVec 8)
  position : d.rxPos.toNat < d.rxLen.toNat
  ends : d.owned m d.rxPos.toNat = true → ∃ n, Ends d m pkt n

variable {d : Am79c971Data} {m : Ram} {pkt : List Byte}

/-! Flags. -/

theorem own_eq (w : BitVec 32) : hasFlag w AM79C971_RMD1_OWN = w.getLsbD 31 := hasFlag_twoPow w 31

theorem err_eq (w : BitVec 32) : hasFlag w AM79C971_RMD1_ERR = w.getLsbD 30 := hasFlag_twoPow w 30

theorem buff_eq (w : BitVec 32) : hasFlag w AM79C971_RMD1_BUFF = w.getLsbD 27 :=
  hasFlag_twoPow w 27

theorem stp_eq (w : BitVec 32) : hasFlag w AM79C971_RMD1_STP = w.getLsbD 25 := hasFlag_twoPow w 25

theorem enp_eq (w : BitVec 32) : hasFlag w AM79C971_RMD1_ENP = w.getLsbD 24 := hasFlag_twoPow w 24

def firstRmd1 (rmd1 : BitVec 32) : BitVec 32 :=
  (rmd1 &&& ~~~AM79C971_RMD1_OWN) ||| AM79C971_RMD1_STP

theorem firstRmd1_bits (rmd1 : BitVec 32) :
    (firstRmd1 rmd1).getLsbD 31 = false ∧ (firstRmd1 rmd1).getLsbD 25 = true ∧
      (firstRmd1 rmd1).getLsbD 24 = rmd1.getLsbD 24 ∧
        (firstRmd1 rmd1).getLsbD 27 = rmd1.getLsbD 27 ∧
          (firstRmd1 rmd1).getLsbD 30 = rmd1.getLsbD 30 := by
  simp [firstRmd1, AM79C971_RMD1_OWN, AM79C971_RMD1_STP]

/-! Words of the ring. -/

theorem word_write {k k' i i' : Nat} (hi : i < 4) (hi' : i' < 4) (val : BitVec 32) :
    d.word (physmemCopyU32ToVm m (d.descAddr k' + 4 * i') val) k i =
      if k = k' ∧ i = i' then val else d.word m k i := by
  simp only [Am79c971Data.word, Am79c971Data.descAddr]
  by_cases h : k = k' ∧ i = i'
  · obtain ⟨rfl, rfl⟩ := h
    rw [if_pos ⟨rfl, rfl⟩, u32_u32ToVm]
  · rw [if_neg h, u32_u32ToVm_disjoint]
    omega

theorem word_buffer {k i addr : Nat} {data : List Byte} (hk : k < d.rxLen.toNat) (hi : i < 4)
    (h : addr + data.length ≤ d.descAddr 0 ∨ d.descAddr d.rxLen.toNat ≤ addr) :
    d.word (physmemCopyToVm m data addr) k i = d.word m k i := by
  simp only [Am79c971Data.word, Am79c971Data.descAddr] at h ⊢
  rw [u32_copyToVm]
  omega

theorem slot_lt (h : d.rxPos.toNat < d.rxLen.toNat) {i : Nat} (hi : i ≤ d.rxLen.toNat) :
    d.slot i < d.rxLen.toNat := by
  have hsum := Nat.add_lt_add_of_lt_of_le h hi
  rw [Am79c971Data.slot]
  split <;> omega

theorem slot_zero (h : d.rxPos.toNat < d.rxLen.toNat) : d.slot 0 = d.rxPos.toNat :=
  if_pos h

theorem slot_rxLen : d.slot d.rxLen.toNat = d.rxPos.toNat := by
  rw [Am79c971Data.slot, if_neg (by omega)]
  omega

theorem slot_injective {i j : Nat} (hi : i < d.rxLen.toNat) (hj : j < d.rxLen.toNat)
    (h : d.slot i = d.slot j) : i = j := by
  simp only [Am79c971Data.slot] at h
  split at h <;> split at h <;> omega

theorem slot_succ {i : Nat} (h : d.rxPos.toNat < d.rxLen.toNat) (hi : i < d.rxLen.toNat) :
    d.slot (i + 1) = if d.slot i + 1 = d.rxLen.toNat then 0 else d.slot i + 1 := by
  simp only [Am79c971Data.slot]
  split <;> split <;> split <;> omega

theorem current_toNat (hmem : d.descAddr d.rxLen.toNat ≤ 2 ^ 32) {p : BitVec 32}
    (hp : p.toNat < d.rxLen.toNat) : (d.rxStart + p * 16).toNat = d.descAddr p.toNat := by
  simp only [Am79c971Data.descAddr] at hmem ⊢
  have hmul : (p * 16).toNat = 16 * p.toNat := by
    rw [BitVec.toNat_mul]
    change p.toNat * 16 % 2 ^ 32 = _
    omega
  rw [BitVec.toNat_add, hmul]
  omega

theorem word_addr (hmem : d.descAddr d.rxLen.toNat ≤ 2 ^ 32) {a : BitVec 32} {k : Nat}
    (hk : k < d.rxLen.toNat) (ha : a.toNat = d.descAddr k) {i : Nat} (hi : i < 4) :
    (a + BitVec.ofNat 32 (4 * i)).toNat = d.descAddr k + 4 * i := by
  simp only [Am79c971Data.descAddr] at hmem ha ⊢
  rw [BitVec.toNat_add, BitVec.toNat_ofNat]
  omega

theorem rxdescRead_eq {addr : Nat} {k : Nat} (haddr : addr = d.descAddr k)
    (hstyle : d.bcr20.setWidth 8 = (2 : BitVec 8) ∨ d.bcr20.setWidth 8 = (3 : BitVec 8)) :
    rxdescRead d m addr = some ⟨d.word m k d.addrWord, d.word m k 1, d.word m k d.countWord⟩ := by
  subst haddr
  simp only [rxdescRead, Am79c971Data.addrWord, Am79c971Data.countWord, Am79c971Data.word]
  split
  · rfl
  · rw [if_pos (hstyle.resolve_left ‹_›)]

/-! The loop. -/

/-- The loop before the turn for the descriptor `i` after the first one. -/
structure At (d : Am79c971Data) (m : Ram) (pkt : List Byte) (i : Nat) (s : RxTurn) : Prop where
  regs : s.d = { d with rxPos := s.d.rxPos }
  pos : s.d.rxPos.toNat = d.slot i
  current : s.rxCurrent.toNat = d.descAddr (d.slot i)
  rmd0 : s.rxdc.rmd0 = d.word m (d.slot i) d.addrWord
  rmd1 : s.rxdc.rmd1 = d.word m (d.slot i) 1
  isFirst : s.rxd0 = none ↔ i = 0
  rxd0 : ∀ x ∈ s.rxd0, x.rmd1 = d.word m (d.slot 0) 1
  rest : s.pkt = pkt.drop (offset (d.cap m) i)
  touched : s.touched = (List.range (i + 1)).map d.slot
  filled : s.filled = (List.range i).map fun j => (d.slot j, chunk (d.cap m) pkt j)
  kept : ∀ k < d.rxLen.toNat, (∀ j, 1 ≤ j → j < i → k ≠ d.slot j) → ∀ w < 4,
    d.word s.mem k w = d.word m k w
  released : ∀ j, 1 ≤ j → j < i → d.owned s.mem (d.slot j) = false

theorem at_start (pkt : List Byte) (hclear : Clear d m)
    (hstyle : d.bcr20.setWidth 8 = (2 : BitVec 8) ∨ d.bcr20.setWidth 8 = (3 : BitVec 8))
    (hpos : d.rxPos.toNat < d.rxLen.toNat) :
    ∃ s, rxStartTurn d m pkt = some s ∧ At d m pkt 0 s := by
  have hcur := current_toNat hclear.inMemory hpos
  have hread := rxdescRead_eq (m := m) hcur hstyle
  have hslot := slot_zero hpos
  refine ⟨_, by rw [rxStartTurn, Am79c971Data.rxdescGetCurrent, hread, Option.map_some], ?_⟩
  constructor
  · rfl
  · exact hslot.symm
  · rw [hslot]
    exact hcur
  · rw [hslot]
  · rw [hslot]
  · simp
  · simp
  · simp [offset]
  · simp [hslot]
  · simp
  · exact fun k _ _ w _ => rfl
  · exact fun j _ hj => absurd hj (by omega)

variable {i : Nat} {s : RxTurn}

theorem chunk_length_le (d : Am79c971Data) (m : Ram) (pkt : List Byte) (i : Nat) :
    (chunk (d.cap m) pkt i).length ≤ d.cap m i := by
  simp [chunk]

structure Put (d : Am79c971Data) (m : Ram) (pkt : List Byte) (i : Nat) (s : RxTurn) : Prop where
  regs : s.d = { d with rxPos := s.d.rxPos }
  pos : s.d.rxPos.toNat = d.slot (i + 1)
  current : s.rxCurrent.toNat = d.descAddr (d.slot i)
  rmd1 : s.rxdc.rmd1 = if i = 0 then d.word m (d.slot 0) 1
    else d.word m (d.slot i) 1 &&& ~~~AM79C971_RMD1_OWN
  isFirst : s.rxd0 = none ↔ i = 0
  rxd0 : ∀ x ∈ s.rxd0, x.rmd1 = d.word m (d.slot 0) 1
  rest : s.pkt = pkt.drop (offset (d.cap m) (i + 1))
  touched : s.touched = (List.range (i + 1)).map d.slot
  filled : s.filled = (List.range (i + 1)).map fun j => (d.slot j, chunk (d.cap m) pkt j)
  kept : ∀ k < d.rxLen.toNat, (∀ j, 1 ≤ j → j < i → k ≠ d.slot j) → ∀ w < 4,
    d.word s.mem k w = d.word m k w
  released : ∀ j, 1 ≤ j → j < i → d.owned s.mem (d.slot j) = false

theorem At.put (h : At d m pkt i s) (hclear : Clear d m) (hpos : d.rxPos.toNat < d.rxLen.toNat)
    (hi : i < d.rxLen.toNat) (hown : d.owned m (d.slot i) = true) :
    Put d m pkt i s.putPkt := by
  have hcap : bufLen s.rxdc.rmd1 = d.cap m i := by rw [h.rmd1, Am79c971Data.cap]
  have hdata : s.pkt.take (bufLen s.rxdc.rmd1) = chunk (d.cap m) pkt i := by
    rw [hcap, h.rest, chunk]
  have hmem : ∀ k < d.rxLen.toNat, ∀ w < 4, d.word s.putPkt.mem k w = d.word s.mem k w := by
    intro k hk w hw
    have hroom := chunk_length_le d m pkt i
    have hbuf := hclear.apart (d.slot i) (slot_lt hpos (by omega)) hown
    simp only [RxTurn.putPkt, hdata, h.rmd0]
    apply word_buffer hk hw
    simp only [Am79c971Data.bufAddr] at hbuf
    simp only [Am79c971Data.cap] at hroom
    omega
  constructor
  · simp only [RxTurn.putPkt, Am79c971Data.rxdescSetNext]
    rw [h.regs]
  · have hlt := slot_lt hpos (show i ≤ d.rxLen.toNat by omega)
    have hone : (s.d.rxPos + 1).toNat = d.slot i + 1 := by
      have hmax := d.rxLen.isLt
      rw [BitVec.toNat_add, h.pos]
      change (d.slot i + 1) % 2 ^ 32 = _
      omega
    have hlen : s.d.rxLen = d.rxLen := by rw [h.regs]
    simp only [RxTurn.putPkt, Am79c971Data.rxdescSetNext, hlen]
    rw [slot_succ hpos hi]
    by_cases heq : d.slot i + 1 = d.rxLen.toNat
    · rw [if_pos (BitVec.eq_of_toNat_eq (hone.trans heq)), if_pos heq]
      simp
    · rw [if_neg fun hc => heq (by rw [← hone, hc]), if_neg heq, hone]
  · exact h.current
  · simp only [RxTurn.putPkt, Option.isNone_iff_eq_none, h.isFirst]
    split
    · rename_i hzero
      rw [h.rmd1, hzero]
    · rw [h.rmd1]
  · exact h.isFirst
  · exact h.rxd0
  · simp only [RxTurn.putPkt]
    rw [hcap, h.rest, drop_offset_succ]
  · exact h.touched
  · simp only [RxTurn.putPkt]
    rw [hdata, h.filled, List.range_succ, List.map_append, h.pos]
    rfl
  · intro k hk hne w hw
    rw [hmem k hk w hw, h.kept k hk hne w hw]
  · intro j hj hji
    have hlt := slot_lt hpos (show j ≤ d.rxLen.toNat by omega)
    have hrel := h.released j hj hji
    rw [Am79c971Data.owned] at hrel ⊢
    rw [hmem _ hlt 1 (by omega), hrel]

theorem slot_ne {j : Nat} (hpos : d.rxPos.toNat < d.rxLen.toNat) (hi : i < d.rxLen.toNat)
    (hj : 1 ≤ j) (hji : j ≤ i) : d.slot (i + 1) ≠ d.slot j := by
  intro heq
  by_cases hlast : i + 1 = d.rxLen.toNat
  · rw [hlast, slot_rxLen, ← slot_zero hpos] at heq
    have := slot_injective (by omega) (by omega) heq
    omega
  · have := slot_injective (by omega) (by omega) heq
    omega

theorem Put.next_current (h : Put d m pkt i s) (hclear : Clear d m)
    (hpos : d.rxPos.toNat < d.rxLen.toNat) (hi : i < d.rxLen.toNat) :
    s.d.rxdescGetCurrent.toNat = d.descAddr (d.slot (i + 1)) := by
  have hlt := slot_lt hpos (show i + 1 ≤ d.rxLen.toNat by omega)
  have hcur := current_toNat hclear.inMemory (p := s.d.rxPos) (by rw [h.pos]; exact hlt)
  rw [Am79c971Data.rxdescGetCurrent, h.regs]
  rw [h.pos] at hcur
  exact hcur

theorem Put.next_owned (h : Put d m pkt i s) (hclear : Clear d m)
    (hpos : d.rxPos.toNat < d.rxLen.toNat) (hi : i < d.rxLen.toNat) :
    hasFlag (physmemCopyU32FromVm s.mem (s.d.rxdescGetCurrent + 4).toNat) AM79C971_RMD1_OWN =
      d.owned m (d.slot (i + 1)) := by
  have hlt := slot_lt hpos (show i + 1 ≤ d.rxLen.toNat by omega)
  have haddr := word_addr hclear.inMemory hlt (h.next_current hclear hpos hi) (show 1 < 4 by omega)
  have hkept := h.kept _ hlt (fun j hj hji => slot_ne hpos hi hj (by omega)) 1 (by omega)
  change (s.d.rxdescGetCurrent + 4).toNat = _ at haddr
  rw [haddr, Am79c971Data.owned, ← hkept, Am79c971Data.word]

theorem owned_release (w : BitVec 32) :
    hasFlag (w &&& ~~~AM79C971_RMD1_OWN) AM79C971_RMD1_OWN = false := by
  rw [own_eq]
  simp [AM79C971_RMD1_OWN]

/-- The next descriptor becomes the current one. -/
theorem Put.next (h : Put d m pkt i s) (hclear : Clear d m)
    (hstyle : d.bcr20.setWidth 8 = (2 : BitVec 8) ∨ d.bcr20.setWidth 8 = (3 : BitVec 8))
    (hpos : d.rxPos.toNat < d.rxLen.toNat) (hi : i < d.rxLen.toNat) :
    ∃ s', ({ s with touched := s.touched ++ [s.d.rxPos.toNat] } : RxTurn).next = some s' ∧
      At d m pkt (i + 1) s' := by
  have hlt := slot_lt hpos (show i ≤ d.rxLen.toNat by omega)
  have hlt' := slot_lt hpos (show i + 1 ≤ d.rxLen.toNat by omega)
  have hcur := h.next_current hclear hpos hi
  have haddr := word_addr hclear.inMemory hlt h.current (show 1 < 4 by omega)
  change (s.rxCurrent + 4).toNat = _ at haddr
  have hkept : ∀ k < d.rxLen.toNat, (∀ j, 1 ≤ j → j < i + 1 → k ≠ d.slot j) → ∀ w < 4,
      d.word (physmemCopyU32ToVm s.mem (s.rxCurrent + 4).toNat s.rxdc.rmd1) k w =
        d.word m k w := by
    intro k hk hne w hw
    rw [haddr, word_write hw (by omega)]
    split
    · rename_i heq
      obtain ⟨rfl, rfl⟩ := heq
      by_cases hzero : i = 0
      · rw [h.rmd1, if_pos hzero, hzero]
      · exact absurd rfl (hne i (by omega) (by omega))
    · exact h.kept k hk (fun j hj hji => hne j hj (by omega)) w hw
  have hnot : ∀ j, 1 ≤ j → j < i + 1 → d.slot (i + 1) ≠ d.slot j :=
    fun j hj hji => slot_ne hpos hi hj (by omega)
  have hregs : s.d.bcr20 = d.bcr20 := by rw [h.regs]
  have hread := rxdescRead_eq (m := physmemCopyU32ToVm s.mem (s.rxCurrent + 4).toNat s.rxdc.rmd1)
    hcur hstyle
  have hsame : ∀ m', rxdescRead s.d m' = rxdescRead d m' := by
    intro m'
    funext a
    simp only [rxdescRead, hregs]
  refine ⟨_, by rw [RxTurn.next, hsame, hread, Option.map_some], ?_⟩
  constructor
  · exact h.regs
  · exact h.pos
  · exact hcur
  · have hw : d.addrWord < 4 := by
      rw [Am79c971Data.addrWord]
      split <;> omega
    exact hkept _ hlt' hnot _ hw
  · exact hkept _ hlt' hnot 1 (by omega)
  · simp
  · intro x hx
    obtain rfl := Option.mem_some_iff.mp hx
    cases hfirst : s.rxd0 with
    | none => rw [Option.getD_none, h.rmd1, if_pos (h.isFirst.mp hfirst)]
    | some y => exact h.rxd0 y hfirst
  · exact h.rest
  · rw [h.touched, h.pos, List.range_succ (n := i + 1), List.map_append]
    rfl
  · exact h.filled
  · exact hkept
  · intro j hj hji
    rw [Am79c971Data.owned, haddr, word_write (by omega) (by omega)]
    split
    · rename_i heq
      have hij := slot_injective (by omega) hi heq.1
      rw [h.rmd1, if_neg (by omega), owned_release]
    · rename_i hne
      have hlt : j < i := by
        by_contra hge
        exact hne ⟨by rw [show j = i by omega], rfl⟩
      exact h.released j hj hlt

/-! The end of the loop. -/

/-- The ring after the loop, where the last descriptor got `rmd1`. -/
structure Finished (d : Am79c971Data) (m m' : Ram) (i : Nat) (rmd1 : BitVec 32) (r : RxResult) :
    Prop where
  word : ∀ k < d.rxLen.toNat, d.word r.mem k 1 =
    if k = d.slot 0 then firstRmd1 (if i = 0 then rmd1 else d.word m (d.slot 0) 1)
    else if k = d.slot i then rmd1 else d.word m' k 1
  filled : r.filled.map Prod.fst = (List.range (i + 1)).map d.slot

theorem finished_finish {e : RxTurn} {m' : Ram} {rmd1 : BitVec 32} (complete : Bool)
    (hclear : Clear d m) (hpos : d.rxPos.toNat < d.rxLen.toNat)
    (hmem : ∀ k < d.rxLen.toNat, d.word e.mem k 1 = if k = d.slot i then rmd1 else d.word m' k 1)
    (hfirst : (e.rxd0.getD e.rxdc).rmd1 = if i = 0 then rmd1 else d.word m (d.slot 0) 1)
    (hfilled : e.filled.map Prod.fst = (List.range (i + 1)).map d.slot) :
    Finished d m m' i rmd1 (e.finish d.rxdescGetCurrent complete) := by
  have hslot := slot_zero hpos
  have haddr := word_addr hclear.inMemory hpos (current_toNat hclear.inMemory hpos)
    (show 1 < 4 by omega)
  change (d.rxdescGetCurrent + 4).toNat = _ at haddr
  refine ⟨fun k hk => ?_, hfilled⟩
  simp only [RxTurn.finish]
  rw [haddr, word_write (by omega) (by omega), hfirst, hslot]
  by_cases heq : k = d.rxPos.toNat
  · rw [if_pos ⟨heq, rfl⟩, if_pos heq]
    rfl
  · rw [if_neg fun hc => heq hc.1, if_neg heq, hmem k hk]

theorem mem_slots {n k : Nat} : k ∈ (List.range n).map d.slot ↔ ∃ j < n, k = d.slot j := by
  simp only [List.mem_map, List.mem_range, eq_comm (b := k)]

theorem Finished.given {r : RxResult} {m' : Ram} {rmd1 : BitVec 32}
    (h : Finished d m m' i rmd1 r) (hi : i < d.rxLen.toNat)
    (hown : i ≠ 0 → rmd1.getLsbD 31 = false)
    (hkept : ∀ k < d.rxLen.toNat, (∀ j, 1 ≤ j → j < i → k ≠ d.slot j) → ∀ w < 4,
      d.word m' k w = d.word m k w)
    (hreleased : ∀ j, 1 ≤ j → j < i → d.owned m' (d.slot j) = false) :
    ∀ k < d.rxLen.toNat,
      d.owned r.mem k = (d.owned m k && !decide (k ∈ r.filled.map Prod.fst)) := by
  intro k hk
  have hword := h.word k hk
  rw [h.filled]
  by_cases hused : k ∈ (List.range (i + 1)).map d.slot
  · rw [decide_eq_true hused, Bool.not_true, Bool.and_false]
    obtain ⟨j, hj, rfl⟩ := mem_slots.mp hused
    rw [Am79c971Data.owned, hword]
    split
    · rw [own_eq, (firstRmd1_bits _).1]
    · rename_i hzero
      have hjzero : j ≠ 0 := fun hc => hzero (by rw [hc])
      split
      · rename_i heq
        have hij := slot_injective (by omega) hi heq
        rw [own_eq, hown (by omega)]
      · rename_i hne
        have hji : j ≠ i := fun hc => hne (by rw [hc])
        exact hreleased j (by omega) (by omega)
  · have hnot : ∀ j ≤ i, k ≠ d.slot j := fun j hj heq =>
      hused (mem_slots.mpr ⟨j, by omega, heq⟩)
    rw [decide_eq_false hused, Bool.not_false, Bool.and_true]
    rw [if_neg (hnot 0 (by omega)), if_neg (hnot i (by omega)),
      hkept k hk (fun j _ hj => hnot j (by omega)) 1 (by omega)] at hword
    rw [Am79c971Data.owned, hword, Am79c971Data.owned]

theorem Finished.first {r : RxResult} {m' : Ram} {rmd1 : BitVec 32}
    (h : Finished d m m' i rmd1 r) (hpos : d.rxPos.toNat < d.rxLen.toNat) :
    ∀ k ∈ (r.filled.map Prod.fst).head?, hasFlag (d.word r.mem k 1) AM79C971_RMD1_STP = true := by
  intro k hk
  rw [h.filled, List.range_succ_eq_map, List.map_cons, List.head?_cons, Option.mem_some_iff] at hk
  subst hk
  rw [h.word _ (slot_lt hpos (by omega)), if_pos rfl, stp_eq, (firstRmd1_bits _).2.1]

theorem Finished.last {r : RxResult} {m' : Ram} {rmd1 : BitVec 32}
    (h : Finished d m m' i rmd1 r) (hpos : d.rxPos.toNat < d.rxLen.toNat)
    (hi : i < d.rxLen.toNat) {k : Nat} (hk : k ∈ (r.filled.map Prod.fst).getLast?) :
    k = d.slot i ∧ (d.word r.mem k 1).getLsbD 24 = rmd1.getLsbD 24 ∧
      (d.word r.mem k 1).getLsbD 27 = rmd1.getLsbD 27 ∧
        (d.word r.mem k 1).getLsbD 30 = rmd1.getLsbD 30 := by
  rw [h.filled, List.range_succ, List.map_append, List.map_singleton, List.getLast?_concat,
    Option.mem_some_iff] at hk
  subst hk
  have hword := h.word _ (slot_lt hpos (show i ≤ d.rxLen.toNat by omega))
  by_cases hzero : i = 0
  · obtain ⟨-, -, h24, h27, h30⟩ := firstRmd1_bits rmd1
    rw [if_pos (by rw [hzero]), if_pos hzero] at hword
    rw [hword]
    exact ⟨rfl, h24, h27, h30⟩
  · have hne : d.slot i ≠ d.slot 0 := fun hc => hzero (slot_injective hi (by omega) hc)
    rw [if_neg hne, if_pos rfl] at hword
    rw [hword]
    exact ⟨rfl, rfl, rfl, rfl⟩

theorem and_or_mask (x mask v : BitVec 32) (h : v &&& mask = v) :
    ((x &&& ~~~mask) ||| v) &&& mask = v := by
  rw [BitVec.and_or_distrib_right, h, BitVec.and_assoc, BitVec.and_comm (~~~mask) mask]
  simp

theorem count_and_mask (n : Nat) (h : n ≤ AM79C971_MAX_PKT_SIZE) :
    BitVec.ofNat 32 (n + 4) &&& AM79C971_RMD2_LEN = BitVec.ofNat 32 (n + 4) := by
  simp only [AM79C971_MAX_PKT_SIZE] at h
  apply BitVec.eq_of_toNat_eq
  rw [BitVec.toNat_and, BitVec.toNat_ofNat]
  change _ &&& (2 ^ 12 - 1) = _
  rw [Nat.and_two_pow_sub_one_eq_mod]
  omega

theorem putOwned (w : BitVec 32) (hi : i ≠ 0) (h : s.rxdc.rmd1 = if i = 0 then w
    else d.word m (d.slot i) 1 &&& ~~~AM79C971_RMD1_OWN) : s.rxdc.rmd1.getLsbD 31 = false := by
  rw [h, if_neg hi, ← own_eq, owned_release]

theorem RxOk.of_finished {r : RxResult} {rmd1 : BitVec 32}
    (hpos : d.rxPos.toNat < d.rxLen.toNat) (hi : i < d.rxLen.toNat)
    (howned : ∀ j ≤ i, d.owned m (d.slot j) = true) (h : Put d m pkt i s)
    (hfin : Finished d m s.mem i rmd1 r) (hown : i ≠ 0 → rmd1.getLsbD 31 = false)
    (htouched : ∀ k ∈ r.touched, k < d.rxLen.toNat)
    (hstored : r.complete = true →
      (r.filled.map Prod.snd).flatten = pkt.take AM79C971_MAX_PKT_SIZE ∧
        rmd1.getLsbD 24 = true ∧ d.word r.mem (d.slot i) d.countWord &&& AM79C971_RMD2_LEN =
          BitVec.ofNat 32 (min pkt.length AM79C971_MAX_PKT_SIZE + 4))
    (hstarved : r.complete = false → rmd1.getLsbD 30 = true ∧ rmd1.getLsbD 27 = true ∧
      rmd1.getLsbD 24 = true) : RxOk d m pkt r := by
  constructor
  · exact htouched
  · rw [hfin.filled]
    refine List.Nodup.map_on ?_ List.nodup_range
    intro a ha b hb hab
    rw [List.mem_range] at ha hb
    exact slot_injective (by omega) (by omega) hab
  · intro k hk
    rw [hfin.filled] at hk
    obtain ⟨j, hj, rfl⟩ := mem_slots.mp hk
    exact howned j (by omega)
  · exact hfin.given hi hown h.kept h.released
  · exact hfin.first hpos
  · exact fun hc => (hstored hc).1
  · intro hc k hk
    obtain ⟨rfl, h24, -, -⟩ := hfin.last hpos hi hk
    rw [enp_eq, h24]
    exact (hstored hc).2
  · intro hc k hk
    obtain ⟨rfl, h24, h27, h30⟩ := hfin.last hpos hi hk
    rw [err_eq, buff_eq, enp_eq, h24, h27, h30]
    exact hstarved hc

theorem Put.fst_filled (h : Put d m pkt i s) :
    s.filled.map Prod.fst = (List.range (i + 1)).map d.slot := by
  rw [h.filled, List.map_map]
  rfl

theorem Put.snd_filled (h : Put d m pkt i s) :
    (s.filled.map Prod.snd).flatten = pkt.take (offset (d.cap m) (i + 1)) := by
  rw [h.filled, List.map_map, ← flatten_chunks]
  rfl

theorem Put.first_rmd1 (h : Put d m pkt i s) (rmd1 : BitVec 32) (rmd0 rmd2 : BitVec 32) :
    (s.rxd0.getD ⟨rmd0, rmd1, rmd2⟩).rmd1 = if i = 0 then rmd1 else d.word m (d.slot 0) 1 := by
  cases hfirst : s.rxd0 with
  | none => rw [Option.getD_none, if_pos (h.isFirst.mp hfirst)]
  | some x =>
    have hne : i ≠ 0 := fun hc => by simp [h.isFirst.mpr hc] at hfirst
    rw [Option.getD_some, if_neg hne, h.rxd0 x hfirst]

theorem countWord_cases (hstyle : d.bcr20.setWidth 8 = (2 : BitVec 8) ∨
    d.bcr20.setWidth 8 = (3 : BitVec 8)) :
    d.bcr20.setWidth 8 = (2 : BitVec 8) ∧ d.countWord = 2 ∨
      d.bcr20.setWidth 8 ≠ (2 : BitVec 8) ∧ d.bcr20.setWidth 8 = (3 : BitVec 8) ∧
        d.countWord = 0 := by
  by_cases h2 : d.bcr20.setWidth 8 = (2 : BitVec 8)
  · exact .inl ⟨h2, if_pos h2⟩
  · exact .inr ⟨h2, hstyle.resolve_left h2, if_neg h2⟩

theorem Put.endPkt_mem (h : Put d m pkt i s) (hclear : Clear d m)
    (hstyle : d.bcr20.setWidth 8 = (2 : BitVec 8) ∨ d.bcr20.setWidth 8 = (3 : BitVec 8))
    (hpos : d.rxPos.toNat < d.rxLen.toNat) (hi : i < d.rxLen.toNat) (pktLen : Nat) :
    (s.endPkt pktLen).mem = physmemCopyU32ToVm (physmemCopyU32ToVm s.mem
      (d.descAddr (d.slot i) + 4 * 1) (s.rxdc.rmd1 ||| AM79C971_RMD1_ENP))
        (d.descAddr (d.slot i) + 4 * d.countWord)
          ((s.rxdc.rmd2 &&& ~~~AM79C971_RMD2_LEN) ||| BitVec.ofNat 32 (pktLen + 4)) := by
  have hlt := slot_lt hpos (show i ≤ d.rxLen.toNat by omega)
  have h1 := word_addr hclear.inMemory hlt h.current (show 1 < 4 by omega)
  have h2 := word_addr hclear.inMemory hlt h.current (show 2 < 4 by omega)
  change (s.rxCurrent + 4).toNat = _ at h1
  change (s.rxCurrent + 8).toNat = _ at h2
  have hregs : s.d.bcr20 = d.bcr20 := by rw [h.regs]
  simp only [RxTurn.endPkt, hregs, h1]
  obtain ⟨hs, hw⟩ | ⟨hs, hs', hw⟩ := countWord_cases hstyle
  · rw [if_pos hs, hw, h2]
  · rw [if_neg hs, if_pos hs', hw, h.current]
    rfl

theorem Put.complete (h : Put d m pkt i s) (hclear : Clear d m)
    (hstyle : d.bcr20.setWidth 8 = (2 : BitVec 8) ∨ d.bcr20.setWidth 8 = (3 : BitVec 8))
    (hpos : d.rxPos.toNat < d.rxLen.toNat) (hi : i < d.rxLen.toNat)
    (howned : ∀ j ≤ i, d.owned m (d.slot j) = true)
    (hfits : pkt.length ≤ offset (d.cap m) (i + 1)) (hmax : pkt.length ≤ AM79C971_MAX_PKT_SIZE) :
    RxOk d m pkt ((s.endPkt (min pkt.length AM79C971_MAX_PKT_SIZE)).finish
      d.rxdescGetCurrent true) := by
  have hlt := slot_lt hpos (show i ≤ d.rxLen.toNat by omega)
  have hmem := h.endPkt_mem hclear hstyle hpos hi (min pkt.length AM79C971_MAX_PKT_SIZE)
  have hcw : d.countWord < 4 ∧ d.countWord ≠ 1 := by
    rw [Am79c971Data.countWord]
    split <;> omega
  have hword : ∀ k < d.rxLen.toNat,
      d.word (s.endPkt (min pkt.length AM79C971_MAX_PKT_SIZE)).mem k 1 =
        if k = d.slot i then s.rxdc.rmd1 ||| AM79C971_RMD1_ENP else d.word s.mem k 1 := by
    intro k hk
    rw [hmem, word_write (by omega) hcw.1, if_neg fun hc => hcw.2 hc.2.symm,
      word_write (by omega) (by omega)]
    simp only [and_true]
  have hfin := finished_finish true hclear hpos hword
    (h.first_rmd1 _ _ _) h.fst_filled
  refine RxOk.of_finished hpos hi howned h hfin ?_ ?_ ?_ ?_
  · intro hne
    rw [BitVec.getLsbD_or, putOwned _ hne h.rmd1]
    rfl
  · intro k hk
    change k ∈ s.touched at hk
    rw [h.touched] at hk
    obtain ⟨j, hj, rfl⟩ := mem_slots.mp hk
    exact slot_lt hpos (by omega)
  · refine fun _ => ⟨?_, ?_, ?_⟩
    · change (s.filled.map Prod.snd).flatten = _
      rw [h.snd_filled, List.take_of_length_le hfits, List.take_of_length_le hmax]
    · rw [BitVec.getLsbD_or, show AM79C971_RMD1_ENP.getLsbD 24 = true by decide, Bool.or_true]
    · have haddr := word_addr hclear.inMemory hpos (current_toNat hclear.inMemory hpos)
        (show 1 < 4 by omega)
      change (d.rxdescGetCurrent + 4).toNat = _ at haddr
      simp only [RxTurn.finish]
      rw [haddr, word_write hcw.1 (by omega), if_neg fun hc => hcw.2 hc.2, hmem,
        word_write hcw.1 hcw.1, if_pos ⟨rfl, rfl⟩]
      exact and_or_mask _ _ _ (count_and_mask _ (by omega))
  · intro hc
    cases hc

theorem Put.starved (h : Put d m pkt i s) (hclear : Clear d m)
    (hpos : d.rxPos.toNat < d.rxLen.toNat) (hi : i < d.rxLen.toNat)
    (howned : ∀ j ≤ i, d.owned m (d.slot j) = true) :
    RxOk d m pkt (({ s with touched := s.touched ++ [s.d.rxPos.toNat] } : RxTurn).noBuffer.finish
      d.rxdescGetCurrent false) := by
  have hlt := slot_lt hpos (show i ≤ d.rxLen.toNat by omega)
  have h1 := word_addr hclear.inMemory hlt h.current (show 1 < 4 by omega)
  change (s.rxCurrent + 4).toNat = _ at h1
  have hword : ∀ k < d.rxLen.toNat,
      d.word ({ s with touched := s.touched ++ [s.d.rxPos.toNat] } : RxTurn).noBuffer.mem k 1 =
        if k = d.slot i then s.rxdc.rmd1 ||| (AM79C971_RMD1_ERR ||| AM79C971_RMD1_BUFF) |||
          AM79C971_RMD1_ENP else d.word s.mem k 1 := by
    intro k hk
    simp only [RxTurn.noBuffer]
    rw [h1, word_write (by omega) (by omega)]
    simp only [and_true]
  have hfin := finished_finish false hclear hpos hword
    (h.first_rmd1 _ _ _) h.fst_filled
  refine RxOk.of_finished hpos hi howned h hfin ?_ ?_ ?_ ?_
  · intro hne
    rw [BitVec.getLsbD_or, BitVec.getLsbD_or, putOwned _ hne h.rmd1]
    rfl
  · intro k hk
    change k ∈ s.touched ++ [s.d.rxPos.toNat] at hk
    rw [h.touched, h.pos, List.mem_append, List.mem_singleton] at hk
    obtain hk | rfl := hk
    · obtain ⟨j, hj, rfl⟩ := mem_slots.mp hk
      exact slot_lt hpos (by omega)
    · exact slot_lt hpos (by omega)
  · intro hc
    cases hc
  · refine fun _ => ⟨?_, ?_, ?_⟩
    all_goals simp [AM79C971_RMD1_ERR, AM79C971_RMD1_BUFF, AM79C971_RMD1_ENP]

/-! From the first descriptor to the end of the packet. -/

def turnOf (d : Am79c971Data) (pkt : List Byte) : RxTurn → Turn RxTurn (Option RxResult) :=
  rxTurn d.rxdescGetCurrent (min pkt.length AM79C971_MAX_PKT_SIZE)

theorem Put.rest_nil (h : Put d m pkt i s) :
    s.pkt = [] ↔ pkt.length ≤ offset (d.cap m) (i + 1) := by
  rw [h.rest, drop_eq_nil_iff]

theorem At.stop_complete (h : At d m pkt i s) (hclear : Clear d m)
    (hpos : d.rxPos.toNat < d.rxLen.toNat) (hi : i < d.rxLen.toNat)
    (hown : d.owned m (d.slot i) = true) (hfits : pkt.length ≤ offset (d.cap m) (i + 1)) :
    turnOf d pkt s = .stop (some ((s.putPkt.endPkt (min pkt.length AM79C971_MAX_PKT_SIZE)).finish
      d.rxdescGetCurrent true)) := by
  have hput := h.put hclear hpos hi hown
  simp only [turnOf, rxTurn]
  rw [if_pos (hput.rest_nil.mpr hfits)]

theorem At.stop_starved (h : At d m pkt i s) (hclear : Clear d m)
    (hpos : d.rxPos.toNat < d.rxLen.toNat) (hi : i < d.rxLen.toNat)
    (hown : d.owned m (d.slot i) = true) (hmore : offset (d.cap m) (i + 1) < pkt.length)
    (hnext : d.owned m (d.slot (i + 1)) = false) :
    turnOf d pkt s = .stop (some (({ s.putPkt with touched := s.putPkt.touched ++
      [s.putPkt.d.rxPos.toNat] } : RxTurn).noBuffer.finish d.rxdescGetCurrent false)) := by
  have hput := h.put hclear hpos hi hown
  have hown' := hput.next_owned hclear hpos hi
  rw [hnext] at hown'
  simp only [turnOf, rxTurn]
  rw [if_neg fun hc => absurd (hput.rest_nil.mp hc) (by omega), if_pos hown']

theorem At.go (h : At d m pkt i s) (hclear : Clear d m)
    (hstyle : d.bcr20.setWidth 8 = (2 : BitVec 8) ∨ d.bcr20.setWidth 8 = (3 : BitVec 8))
    (hpos : d.rxPos.toNat < d.rxLen.toNat) (hi : i < d.rxLen.toNat)
    (hown : d.owned m (d.slot i) = true) (hmore : offset (d.cap m) (i + 1) < pkt.length)
    (hnext : d.owned m (d.slot (i + 1)) = true) :
    ∃ s', turnOf d pkt s = .go s' ∧ At d m pkt (i + 1) s' := by
  have hput := h.put hclear hpos hi hown
  have hown' := hput.next_owned hclear hpos hi
  obtain ⟨s', hs', hat⟩ := hput.next hclear hstyle hpos hi
  rw [hnext] at hown'
  refine ⟨s', ?_, hat⟩
  simp only [turnOf, rxTurn]
  rw [if_neg fun hc => absurd (hput.rest_nil.mp hc) (by omega),
    if_neg (ne_of_eq_of_ne hown' (by decide)), hs']

theorem reach (hclear : Clear d m)
    (hstyle : d.bcr20.setWidth 8 = (2 : BitVec 8) ∨ d.bcr20.setWidth 8 = (3 : BitVec 8))
    (hpos : d.rxPos.toNat < d.rxLen.toNat) {s0 : RxTurn} (h0 : At d m pkt 0 s0)
    (hi : i ≤ d.rxLen.toNat) (howned : ∀ j ≤ i, d.owned m (d.slot j) = true)
    (hmore : ∀ j < i, offset (d.cap m) (j + 1) < pkt.length) :
    ∃ s, At d m pkt i s ∧ ∀ r, Returns (turnOf d pkt) s0 r ↔ Returns (turnOf d pkt) s r := by
  induction i with
  | zero => exact ⟨s0, h0, fun _ => Iff.rfl⟩
  | succ i ih =>
    obtain ⟨s, hat, hreturns⟩ := ih (by omega) (fun j hj => howned j (by omega))
      fun j hj => hmore j (by omega)
    obtain ⟨s', hgo, hat'⟩ := hat.go hclear hstyle hpos (by omega) (howned i (by omega))
      (hmore i (by omega)) (howned (i + 1) (by omega))
    exact ⟨s', hat', fun r => (hreturns r).trans (returns_go hgo)⟩

theorem turn_again {s : RxTurn} (h : s.d.rxPos.toNat ∈ s.filled.map Prod.fst ∨
    ¬(s.filled.map Prod.fst).Nodup) : ¬(s.putPkt.filled.map Prod.fst).Nodup := by
  intro hnodup
  simp only [RxTurn.putPkt, List.map_append, List.map_singleton, List.nodup_append] at hnodup
  obtain hmem | hdup := h
  · exact hnodup.2.2 _ hmem _ (List.mem_singleton_self _) rfl
  · exact hdup hnodup.1

theorem next_filled {s s' : RxTurn} (h : s.next = some s') :
    s'.filled = s.filled ∧ s'.touched = s.touched := by
  obtain ⟨rxdn, -, rfl⟩ := Option.map_eq_some_iff.mp h
  exact ⟨rfl, rfl⟩

theorem rxTurn_cases {rxStart : BitVec 32} {pktLen : Nat} (s : RxTurn) :
    (∃ s', rxTurn rxStart pktLen s = .go s' ∧ s'.filled = s.putPkt.filled ∧
      ∀ k ∈ s.touched, k ∈ s'.touched) ∨ rxTurn rxStart pktLen s = .stop none ∨
        ∃ r, rxTurn rxStart pktLen s = .stop (some r) ∧ r.filled = s.putPkt.filled ∧
          ∀ k ∈ s.touched, k ∈ r.touched := by
  simp only [rxTurn]
  split
  · exact .inr (.inr ⟨_, rfl, rfl, fun k hk => hk⟩)
  · split
    · exact .inr (.inr ⟨_, rfl, rfl, fun k hk => List.mem_append_left _ hk⟩)
    · split
      · exact .inr (.inl rfl)
      · rename_i s' hs'
        obtain ⟨hfilled, htouched⟩ := next_filled hs'
        exact .inl ⟨s', rfl, hfilled, fun k hk => htouched ▸ List.mem_append_left _ hk⟩

theorem returns_rule {rxStart : BitVec 32} {pktLen : Nat} {r : RxResult} {P : RxTurn → Prop}
    {Q : RxResult → Prop} (hr : Returns (rxTurn rxStart pktLen) s (some r)) (h0 : P s)
    (hgo : ∀ s s', P s → s'.filled = s.putPkt.filled → (∀ k ∈ s.touched, k ∈ s'.touched) → P s')
    (hstop : ∀ s (r : RxResult), P s → r.filled = s.putPkt.filled →
      (∀ k ∈ s.touched, k ∈ r.touched) → Q r) : Q r := by
  have hall : ∀ r', some r = some r' → Q r' := by
    apply hr.invariant (P := P) (Q := fun o => ∀ r', o = some r' → Q r') h0
    · intro s s' hs hturn
      obtain ⟨s'', hgo', hfilled, htouched⟩ | hstop' | ⟨r', hstop', -⟩ := rxTurn_cases s
      · rw [hturn] at hgo'
        cases hgo'
        exact hgo s s' hs hfilled htouched
      · rw [hturn] at hstop'
        cases hstop'
      · rw [hturn] at hstop'
        cases hstop'
    · rintro s o hs hturn r' rfl
      obtain ⟨s', hgo', -⟩ | hstop' | ⟨r'', hstop', hfilled, htouched⟩ := rxTurn_cases s
      · rw [hturn] at hgo'
        cases hgo'
      · rw [hturn] at hstop'
        cases hstop'
      · rw [hturn] at hstop'
        cases hstop'
        exact hstop s r' hs hfilled htouched
  exact hall r rfl

theorem returns_again {rxStart : BitVec 32} {pktLen : Nat} {r : RxResult}
    (hr : Returns (rxTurn rxStart pktLen) s (some r))
    (h : s.d.rxPos.toNat ∈ s.filled.map Prod.fst) : ¬(r.filled.map Prod.fst).Nodup := by
  apply returns_rule hr (P := fun s => s.d.rxPos.toNat ∈ s.filled.map Prod.fst ∨
    ¬(s.filled.map Prod.fst).Nodup) (.inl h)
  · intro s s' hs hfilled _
    exact .inr (hfilled ▸ turn_again hs)
  · intro s r hs hfilled _
    exact hfilled ▸ turn_again hs

theorem rxOk_refused (hpos : d.rxPos.toNat < d.rxLen.toNat) :
    RxOk d m pkt ⟨d, m, [d.rxPos.toNat], [], false⟩ := by
  constructor <;> simp [hpos]

theorem rxOk_of_ends (hclear : Clear d m)
    (hstyle : d.bcr20.setWidth 8 = (2 : BitVec 8) ∨ d.bcr20.setWidth 8 = (3 : BitVec 8))
    (hpos : d.rxPos.toNat < d.rxLen.toNat) {n : Nat} (h : Ends d m pkt n) {s0 : RxTurn}
    (h0 : At d m pkt 0 s0) : ∃ r, Returns (turnOf d pkt) s0 (some r) ∧ RxOk d m pkt r := by
  have hn := h.inside
  obtain ⟨s, hat, hreturns⟩ := reach hclear hstyle hpos h0 (by omega) h.owned h.more
  have hown := h.owned n (by omega)
  have hput := hat.put hclear hpos hn hown
  obtain ⟨hfits, hmax⟩ | ⟨hmore, hnext⟩ := h.last
  · have hstop := hat.stop_complete hclear hpos hn hown hfits
    exact ⟨_, (hreturns _).mpr ((returns_stop hstop).mpr rfl),
      hput.complete hclear hstyle hpos hn h.owned hfits hmax⟩
  · have hstop := hat.stop_starved hclear hpos hn hown hmore hnext
    exact ⟨_, (hreturns _).mpr ((returns_stop hstop).mpr rfl),
      hput.starved hclear hpos hn h.owned⟩

theorem ends_of_rxOk (hclear : Clear d m)
    (hstyle : d.bcr20.setWidth 8 = (2 : BitVec 8) ∨ d.bcr20.setWidth 8 = (3 : BitVec 8))
    (hpos : d.rxPos.toNat < d.rxLen.toNat) (hfirst : d.owned m d.rxPos.toNat = true)
    {s0 : RxTurn} (h0 : At d m pkt 0 s0) {r : RxResult}
    (hr : Returns (turnOf d pkt) s0 (some r)) (hok : RxOk d m pkt r) :
    ∃ n, Ends d m pkt n := by
  by_contra hnone
  -- Without an end the loop goes around the whole ring.
  have hall : ∀ i ≤ d.rxLen.toNat, (∀ j ≤ i, d.owned m (d.slot j) = true) ∧
      ∀ j < i, offset (d.cap m) (j + 1) < pkt.length := by
    intro i
    induction i with
    | zero =>
      intro _
      refine ⟨fun j hj => ?_, fun j hj => absurd hj (by omega)⟩
      obtain rfl : j = 0 := by omega
      rw [slot_zero hpos, hfirst]
    | succ i ih =>
      intro hi
      obtain ⟨howned, hmore⟩ := ih (by omega)
      obtain ⟨s, hat, hreturns⟩ := reach hclear hstyle hpos h0 (by omega) howned hmore
      have hown := howned i (by omega)
      have hput := hat.put hclear hpos (by omega) hown
      by_cases hfits : pkt.length ≤ offset (d.cap m) (i + 1)
      · have hstop := hat.stop_complete hclear hpos (by omega) hown hfits
        have heq := (returns_stop hstop).mp ((hreturns _).mp hr)
        cases heq
        have hstored := hok.stored rfl
        change (s.putPkt.filled.map Prod.snd).flatten = _ at hstored
        rw [hput.snd_filled, List.take_of_length_le hfits] at hstored
        have hmax := congrArg List.length hstored
        rw [List.length_take] at hmax
        exact absurd ⟨i, by omega, howned, hmore, .inl ⟨hfits, by omega⟩⟩ hnone
      · cases hnext : d.owned m (d.slot (i + 1)) with
        | false =>
          exact absurd ⟨i, by omega, howned, hmore, .inr ⟨by omega, hnext⟩⟩ hnone
        | true =>
          refine ⟨fun j hj => ?_, fun j hj => ?_⟩
          · obtain hj | rfl : j ≤ i ∨ j = i + 1 := by omega
            · exact howned j hj
            · exact hnext
          · obtain hj | rfl : j < i ∨ j = i := by omega
            · exact hmore j hj
            · omega
  obtain ⟨howned, hmore⟩ := hall d.rxLen.toNat (by omega)
  obtain ⟨s, hat, hreturns⟩ := reach hclear hstyle hpos h0 (by omega) howned hmore
  refine returns_again ((hreturns _).mp hr) ?_ hok.once
  rw [hat.pos, hat.filled, List.map_map, slot_rxLen, ← slot_zero hpos]
  exact List.mem_map_of_mem (List.mem_range.mpr (by omega))

def Am79c971Data.after (accesses : List RegAccess) : Am79c971Data :=
  accesses.foldl Am79c971Data.access Am79c971Data.init

end Dynamips.Am79c971
