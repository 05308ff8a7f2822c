import Dynamips.Am79c971Rx

/-! The transmit path of the AM79C971 (dev_am79c971.c), one packet at a time. -/
set_option autoImplicit false

namespace Dynamips.Am79c971

open GuestRam Turns Fragments

def AM79C971_CSR0_TINT : BitVec 32 := 0x00000200

def AM79C971_CSR0_INTR : BitVec 32 := 0x00000080

def AM79C971_CSR0_IENA : BitVec 32 := 0x00000040

def AM79C971_CSR0_TXON : BitVec 32 := 0x00000010

def AM79C971_CSR3_IM_MASK : BitVec 32 := 0x00007F00

def AM79C971_TMD1_OWN : BitVec 32 := 0x80000000

def AM79C971_TMD1_STP : BitVec 32 := 0x02000000

def AM79C971_TMD1_ENP : BitVec 32 := 0x01000000

def AM79C971_TMD1_LEN : BitVec 32 := 0x00000FFF

/-- `struct am79c971_data`, as far as the transmit ring goes. `canTransmit` is what
`netio_can_transmit` says of the NIO and `irq` the interrupt line. -/
structure TxData where
  txStart : BitVec 32
  txLen : BitVec 32
  txPos : BitVec 32
  bcr20 : BitVec 32
  csr0 : BitVec 32
  csr3 : BitVec 32
  canTransmit : Bool
  irq : Bool

def TxData.updateIrqStatus (d : TxData) : TxData :=
  let mask := AM79C971_CSR3_IM_MASK &&& ~~~(d.csr3 &&& AM79C971_CSR3_IM_MASK)
  let csr0 := if hasFlag d.csr0 mask then d.csr0 ||| AM79C971_CSR0_INTR
    else d.csr0 &&& ~~~AM79C971_CSR0_INTR
  let both := AM79C971_CSR0_INTR ||| AM79C971_CSR0_IENA
  { d with csr0 := csr0, irq := decide (csr0 &&& both = both) }

structure TxDesc where
  tmd0 : BitVec 32
  tmd1 : BitVec 32

/-- `txdesc_read`; none for an unknown software style, where nothing is read. -/
def txdescRead (d : TxData) (m : Ram) (txdAddr : BitVec 32) : Option TxDesc :=
  let buf (i : Nat) := physmemCopyU32FromVm m (txdAddr.toNat + 4 * i)
  if d.bcr20.setWidth 8 = (2 : BitVec 8) then some ⟨buf 0, buf 1⟩
  else if d.bcr20.setWidth 8 = (3 : BitVec 8) then some ⟨buf 2, buf 1⟩
  else none

def TxData.txdescSetNext (d : TxData) : TxData :=
  { d with txPos := if d.txPos + 1 = d.txLen then 0 else d.txPos + 1 }

def TxData.txdescGetCurrent (d : TxData) : BitVec 32 := d.txStart + d.txPos * 16

def clen (tmd1 : BitVec 32) : Nat :=
  (~~~((tmd1 &&& AM79C971_TMD1_LEN) - 1) &&& AM79C971_TMD1_LEN).toNat

/-- What was done with a packet. `pkt` is the packet buffer as far as it was written
and `frame` what goes to `cisco_isl_rewrite` and `netio_send`. -/
structure TxResult where
  d : TxData
  mem : Ram
  pkt : List Byte
  frame : Option (List Byte)
  transmitted : Bool

/-- The loop of `am79c971_handle_txring_single` before a turn. -/
structure TxTurn where
  d : TxData
  mem : Ram
  txCurrent : BitVec 32
  ptxd : TxDesc
  pkt : List Byte

def clearOwn (m : Ram) (txd : BitVec 32) (tmd1 : BitVec 32) : Ram :=
  physmemCopyU32ToVm m (txd + 4).toNat (tmd1 &&& ~~~AM79C971_TMD1_OWN)

/-- The data of a turn is in the packet and the ring position has moved. -/
def TxTurn.takePkt (s : TxTurn) : TxTurn :=
  { s with
    d := s.d.txdescSetNext
    mem := if hasFlag s.ptxd.tmd1 AM79C971_TMD1_STP then s.mem
      else clearOwn s.mem s.txCurrent s.ptxd.tmd1
    pkt := s.pkt ++ physmemCopyFromVm s.mem s.ptxd.tmd0.toNat (clen s.ptxd.tmd1) }

def TxTurn.finish (s : TxTurn) (txStart tmd1 : BitVec 32) : TxResult :=
  let totLen := BitVec.ofNat 32 s.pkt.length
  { d := { s.d with csr0 := s.d.csr0 ||| AM79C971_CSR0_TINT }.updateIrqStatus
    mem := clearOwn s.mem txStart tmd1
    pkt := s.pkt
    frame := if totLen = 0 then none else some (s.pkt.take totLen.toNat)
    transmitted := true }

/-- A turn of the loop; `tmd1` is of the first descriptor. None where a descriptor is
used that was not read. -/
def txTurn (txStart tmd1 : BitVec 32) (s : TxTurn) : Turn TxTurn (Option TxResult) :=
  let s' := s.takePkt
  if hasFlag s.ptxd.tmd1 AM79C971_TMD1_ENP then .stop (some (s'.finish txStart tmd1))
  else
    match txdescRead s'.d s'.mem s'.d.txdescGetCurrent with
    | none => .stop none
    | some ntxd =>
      if hasFlag ntxd.tmd1 AM79C971_TMD1_OWN = false then
        .stop (some ⟨s'.d, s'.mem, s'.pkt, none, false⟩)
      else .go { s' with txCurrent := s'.d.txdescGetCurrent, ptxd := ntxd }

/-- Nothing is transmitted before a descriptor is looked at. -/
def TxData.idle (d : TxData) : Bool :=
  decide (d.txStart = 0) || !hasFlag d.csr0 AM79C971_CSR0_TXON || !d.canTransmit

/-- Where the loop starts; none for an unknown software style. -/
def txStartTurn (d : TxData) (m : Ram) : Option TxTurn :=
  (txdescRead d m d.txdescGetCurrent).map fun txd0 =>
    { d := d, mem := m, txCurrent := d.txdescGetCurrent, ptxd := txd0, pkt := [] }

/-- `am79c971_handle_txring_single` returns with this result. -/
def HandleTxringSingle (d : TxData) (m : Ram) (r : TxResult) : Prop :=
  if d.idle then r = ⟨d, m, [], none, false⟩
  else ∃ s, txStartTurn d m = some s ∧
    if hasFlag s.ptxd.tmd1 AM79C971_TMD1_OWN = false then r = ⟨d, m, [], none, false⟩
    else Returns (txTurn d.txdescGetCurrent s.ptxd.tmd1) s (some r)

/-! What is expected of it. -/

/-- The registers of the transmit ring in the places of those of the receive ring, for
what is said of either. -/
def TxData.ring (d : TxData) : Am79c971Data where
  rxStart := d.txStart
  rxL2len := 0
  rxLen := d.txLen
  rxPos := d.txPos
  bcr20 := d.bcr20

/-- The second word of the descriptor that is `i` after the current one. -/
def TxData.tmd1 (d : TxData) (m : Ram) (i : Nat) : BitVec 32 := d.ring.word m (d.ring.slot i) 1

def TxData.ownedAt (d : TxData) (m : Ram) (pos : BitVec 32) : Bool :=
  hasFlag (physmemCopyU32FromVm m ((d.txStart + pos * 16).toNat + 4)) AM79C971_TMD1_OWN

/-- A complete chain of the ring: the descriptor `n` after the current one is the first
that ends a packet, and all are the device's. -/
structure Chain (d : TxData) (m : Ram) (n : Nat) : Prop where
  position : d.txPos.toNat < d.txLen.toNat
  inside : n < d.txLen.toNat
  owned : ∀ i ≤ n, d.ring.owned m (d.ring.slot i) = true
  more : ∀ i < n, hasFlag (d.tmd1 m i) AM79C971_TMD1_ENP = false
  last : hasFlag (d.tmd1 m n) AM79C971_TMD1_ENP = true

/-- Memory when so many descriptors have been gone through: those without STP are
the driver's. -/
def TxData.returned (d : TxData) (m : Ram) : Nat → Ram
  | 0 => m
  | i + 1 =>
    if hasFlag (d.tmd1 m i) AM79C971_TMD1_STP then d.returned m i
    else physmemCopyU32ToVm (d.returned m i) (d.ring.descAddr (d.ring.slot i) + 4 * 1)
      (d.tmd1 m i &&& ~~~AM79C971_TMD1_OWN)

/-- The buffer of the descriptor that is `i` after the current one, when it is its turn. -/
def TxData.buffer (d : TxData) (m : Ram) (i : Nat) : List Byte :=
  physmemCopyFromVm (d.returned m i) (d.ring.word m (d.ring.slot i) d.ring.addrWord).toNat
    (clen (d.tmd1 m i))

def TxData.chainBytes (d : TxData) (m : Ram) (n : Nat) : List Byte :=
  (List.range n).flatMap (d.buffer m)

/-- A packet is transmitted as it should be: it never exceeds the buffer, it is a
complete chain of the ring that goes back to the driver, and else no ownership bit and
not the position changes. -/
structure TxOk (d : TxData) (m : Ram) (r : TxResult) : Prop where
  fits : r.pkt.length ≤ AM79C971_MAX_PKT_SIZE
  sent : r.transmitted = true → ∃ n, Chain d m n ∧
    let bytes := d.chainBytes m (n + 1)
    r.frame = (if bytes = [] then none else some bytes) ∧
      ∀ i ≤ n, d.ring.owned r.mem (d.ring.slot i) = false
  kept : r.transmitted = false → r.frame = none ∧ r.d.txPos = d.txPos ∧
    ∀ pos, d.ownedAt r.mem pos = d.ownedAt m pos

/-- The software style is known, and the current descriptor is not the device's or
starts a complete chain that fits in the buffer, where no later descriptor has STP. -/
structure TxFits (d : TxData) (m : Ram) : Prop where
  style : d.bcr20.setWidth 8 = (2 : BitVec 8) ∨ d.bcr20.setWidth 8 = (3 : BitVec 8)
  chain : d.ownedAt m d.txPos = true → ∃ n, Chain d m n ∧
    offset (fun i => clen (d.tmd1 m i)) (n + 1) ≤ AM79C971_MAX_PKT_SIZE ∧
    ∀ i, 1 ≤ i → i ≤ n → hasFlag (d.tmd1 m i) AM79C971_TMD1_STP = false

variable {d : TxData} {m : Ram} {n i j : Nat}

/-! Descriptors that went back. -/

theorem word_returned {k w : Nat} (hw : w < 4) (h : ∀ j < i, d.ring.slot j ≠ k) :
    d.ring.word (d.returned m i) k w = d.ring.word m k w := by
  induction i with
  | zero => rfl
  | succ i ih =>
    have hih := ih fun j hj => h j (by omega)
    have hne := h i (by omega)
    rw [TxData.returned]
    split
    · exact hih
    · rw [word_write hw (by omega), if_neg (by omega), hih]

theorem slot_ne_slot (hi : i < d.txLen.toNat) (hj : j < i) : d.ring.slot j ≠ d.ring.slot i := by
  intro heq
  have := slot_injective (d := d.ring) (show j < d.txLen.toNat by omega) hi heq
  omega

theorem owned_returned (hn : n < d.txLen.toNat) (hi : i ≤ n + 1) (hj : j < i) :
    d.ring.owned (d.returned m i) (d.ring.slot j) =
      (d.ring.owned m (d.ring.slot j) && hasFlag (d.tmd1 m j) AM79C971_TMD1_STP) := by
  induction i with
  | zero => omega
  | succ i ih =>
    rw [TxData.returned]
    by_cases heq : j = i
    · subst heq
      split
      · rename_i hstp
        rw [Am79c971Data.owned, word_returned (by omega) fun k hk => slot_ne_slot (by omega) hk,
          hstp, Bool.and_true, Am79c971Data.owned]
      · rename_i hstp
        rw [Bool.not_eq_true] at hstp
        rw [Am79c971Data.owned, word_write (by omega) (by omega), if_pos ⟨rfl, rfl⟩, hstp,
          Bool.and_false]
        exact owned_release _
    · have hih := ih (by omega) (by omega)
      split
      · exact hih
      · rw [Am79c971Data.owned, word_write (by omega) (by omega),
          if_neg fun hc => slot_ne_slot (i := i) (j := j) (by omega) (by omega) hc.1]
        exact hih

/-! The loop. -/

theorem txdescRead_eq {a : BitVec 32} {k : Nat} (ha : a.toNat = d.ring.descAddr k)
    (hstyle : d.bcr20.setWidth 8 = (2 : BitVec 8) ∨ d.bcr20.setWidth 8 = (3 : BitVec 8)) :
    txdescRead d m a = some ⟨d.ring.word m k d.ring.addrWord, d.ring.word m k 1⟩ := by
  obtain h2 | h3 := hstyle
  · have haddr : d.ring.addrWord = 0 := if_pos h2
    simp only [txdescRead]
    rw [if_pos h2, ha, haddr, Am79c971Data.word, Am79c971Data.word]
  · have hne : d.bcr20.setWidth 8 ≠ (2 : BitVec 8) := by
      rw [h3]
      decide
    have haddr : d.ring.addrWord = 2 := if_neg hne
    simp only [txdescRead]
    rw [if_neg hne, if_pos h3, ha, haddr, Am79c971Data.word, Am79c971Data.word]

/-- The loop before the turn for the descriptor `i` after the first one. -/
structure TxAt (d : TxData) (m : Ram) (i : Nat) (s : TxTurn) : Prop where
  regs : s.d = { d with txPos := s.d.txPos }
  pos : s.d.txPos.toNat = d.ring.slot i
  mem : s.mem = d.returned m i
  current : s.txCurrent.toNat = d.ring.descAddr (d.ring.slot i)
  ptxd : s.ptxd = ⟨d.ring.word m (d.ring.slot i) d.ring.addrWord, d.tmd1 m i⟩
  pkt : s.pkt = d.chainBytes m i

structure TxTaken (d : TxData) (m : Ram) (i : Nat) (s : TxTurn) : Prop where
  regs : s.d = { d with txPos := s.d.txPos }
  pos : s.d.txPos.toNat = d.ring.slot i
  mem : s.mem = d.returned m i
  current : s.d.txdescGetCurrent.toNat = d.ring.descAddr (d.ring.slot i)
  pkt : s.pkt = d.chainBytes m i

variable {s : TxTurn}

theorem current_eq (hmem : d.ring.descAddr d.txLen.toNat ≤ 2 ^ 32) {e : TxData}
    (hregs : e = { d with txPos := e.txPos }) (hlt : e.txPos.toNat < d.txLen.toNat) :
    e.txdescGetCurrent.toNat = d.ring.descAddr e.txPos.toNat := by
  have hstart : e.txStart = d.txStart := by rw [hregs]
  rw [TxData.txdescGetCurrent, hstart]
  exact current_toNat (d := d.ring) hmem hlt

theorem clearOwn_eq (hmem : d.ring.descAddr d.txLen.toNat ≤ 2 ^ 32) {m' : Ram} {a : BitVec 32}
    {k : Nat} (hk : k < d.txLen.toNat) (ha : a.toNat = d.ring.descAddr k) (tmd1 : BitVec 32) :
    clearOwn m' a tmd1 =
      physmemCopyU32ToVm m' (d.ring.descAddr k + 4 * 1) (tmd1 &&& ~~~AM79C971_TMD1_OWN) := by
  have haddr := word_addr (d := d.ring) hmem hk ha (show 1 < 4 by omega)
  change (a + 4).toNat = _ at haddr
  rw [clearOwn, haddr]

theorem TxAt.take (h : TxAt d m i s) (hmem : d.ring.descAddr d.txLen.toNat ≤ 2 ^ 32)
    (hpos : d.txPos.toNat < d.txLen.toNat) (hi : i < d.txLen.toNat) :
    TxTaken d m (i + 1) s.takePkt := by
  have hlt := slot_lt (d := d.ring) hpos (show i ≤ d.txLen.toNat by omega)
  have hlt' := slot_lt (d := d.ring) hpos (show i + 1 ≤ d.txLen.toNat by omega)
  have hlen : s.d.txLen = d.txLen := by rw [h.regs]
  have hone : (s.d.txPos + 1).toNat = d.ring.slot i + 1 := by
    have hmax := d.txLen.isLt
    change d.ring.slot i < d.txLen.toNat at hlt
    rw [BitVec.toNat_add, h.pos]
    change (d.ring.slot i + 1) % 2 ^ 32 = _
    omega
  have hregs : s.takePkt.d = { d with txPos := s.takePkt.d.txPos } := by
    simp only [TxTurn.takePkt, TxData.txdescSetNext]
    rw [h.regs]
  have hnext : s.takePkt.d.txPos.toNat = d.ring.slot (i + 1) := by
    simp only [TxTurn.takePkt, TxData.txdescSetNext, hlen]
    rw [slot_succ (d := d.ring) hpos hi]
    change _ = if d.ring.slot i + 1 = d.txLen.toNat then 0 else d.ring.slot i + 1
    by_cases heq : d.ring.slot i + 1 = d.txLen.toNat
    · rw [if_pos (BitVec.eq_of_toNat_eq (hone.trans heq)), if_pos heq]
      rfl
    · rw [if_neg fun hc => heq (by rw [← hone, hc]), if_neg heq, hone]
  constructor
  · exact hregs
  · exact hnext
  · simp only [TxTurn.takePkt, TxData.returned, h.ptxd, h.mem,
      clearOwn_eq hmem hlt h.current]
  · rw [← hnext]
    exact current_eq hmem hregs (by rw [hnext]; exact hlt')
  · simp only [TxTurn.takePkt, h.ptxd, h.pkt, h.mem, TxData.chainBytes, List.range_succ,
      List.flatMap_append, List.flatMap_singleton, TxData.buffer]

theorem TxTaken.next (h : TxTaken d m i s)
    (hstyle : d.bcr20.setWidth 8 = (2 : BitVec 8) ∨ d.bcr20.setWidth 8 = (3 : BitVec 8))
    (hi : i < d.txLen.toNat) : txdescRead s.d s.mem s.d.txdescGetCurrent =
      some ⟨d.ring.word m (d.ring.slot i) d.ring.addrWord, d.tmd1 m i⟩ := by
  have hread : txdescRead s.d s.mem s.d.txdescGetCurrent =
      txdescRead d s.mem s.d.txdescGetCurrent := by
    rw [h.regs]
    rfl
  have haddr : d.ring.addrWord < 4 := by
    rw [Am79c971Data.addrWord]
    split <;> omega
  rw [hread, txdescRead_eq h.current hstyle, h.mem, TxData.tmd1,
    word_returned haddr fun j hj => slot_ne_slot hi hj,
    word_returned (by omega) fun j hj => slot_ne_slot hi hj]

variable {r : TxResult}

theorem txAt_start (hmem : d.ring.descAddr d.txLen.toNat ≤ 2 ^ 32)
    (hstyle : d.bcr20.setWidth 8 = (2 : BitVec 8) ∨ d.bcr20.setWidth 8 = (3 : BitVec 8))
    (hpos : d.txPos.toNat < d.txLen.toNat) : ∃ s, txStartTurn d m = some s ∧ TxAt d m 0 s := by
  have hslot : d.ring.slot 0 = d.txPos.toNat := slot_zero (d := d.ring) hpos
  have hcur := current_eq hmem (e := d) rfl hpos
  rw [← hslot] at hcur
  refine ⟨_, by rw [txStartTurn, txdescRead_eq hcur hstyle, Option.map_some], ?_⟩
  constructor
  · rfl
  · exact hslot.symm
  · rfl
  · exact hcur
  · rfl
  · rfl

theorem reach_tx (hmem : d.ring.descAddr d.txLen.toNat ≤ 2 ^ 32)
    (hstyle : d.bcr20.setWidth 8 = (2 : BitVec 8) ∨ d.bcr20.setWidth 8 = (3 : BitVec 8))
    (hchain : Chain d m n) {txStart tmd1 : BitVec 32} {s0 : TxTurn} (h0 : TxAt d m 0 s0)
    (hi : i ≤ n) : ∃ s, TxAt d m i s ∧ ∀ r,
      Returns (txTurn txStart tmd1) s0 r ↔ Returns (txTurn txStart tmd1) s r := by
  induction i with
  | zero => exact ⟨s0, h0, fun _ => Iff.rfl⟩
  | succ i ih =>
    obtain ⟨s, hat, hreturns⟩ := ih (by omega)
    have hinside := hchain.inside
    have htaken := hat.take hmem hchain.position (by omega)
    have hmore : hasFlag s.ptxd.tmd1 AM79C971_TMD1_ENP = false := by
      rw [hat.ptxd]
      exact hchain.more i (by omega)
    have hown : hasFlag (d.tmd1 m (i + 1)) AM79C971_TMD1_OWN = true := hchain.owned (i + 1) hi
    have hgo : txTurn txStart tmd1 s = .go { s.takePkt with
        txCurrent := s.takePkt.d.txdescGetCurrent
        ptxd := ⟨d.ring.word m (d.ring.slot (i + 1)) d.ring.addrWord, d.tmd1 m (i + 1)⟩ } := by
      simp only [txTurn, hmore, htaken.next hstyle (by omega), hown, Bool.false_eq_true,
        Bool.true_eq_false, if_false]
    refine ⟨_, ?_, fun r => (hreturns r).trans (returns_go hgo)⟩
    constructor
    · exact htaken.regs
    · exact htaken.pos
    · exact htaken.mem
    · exact htaken.current
    · rfl
    · exact htaken.pkt

theorem transmit_chain (hmem : d.ring.descAddr d.txLen.toNat ≤ 2 ^ 32)
    (hstyle : d.bcr20.setWidth 8 = (2 : BitVec 8) ∨ d.bcr20.setWidth 8 = (3 : BitVec 8))
    (hchain : Chain d m n) {s0 : TxTurn} (h0 : TxAt d m 0 s0) :
    ∃ r, Returns (txTurn d.txdescGetCurrent s0.ptxd.tmd1) s0 (some r) ∧ r.transmitted = true ∧
      r.pkt = d.chainBytes m (n + 1) ∧
        (r.frame = if BitVec.ofNat 32 r.pkt.length = 0 then none
          else some (r.pkt.take (BitVec.ofNat 32 r.pkt.length).toNat)) ∧
          r.mem = physmemCopyU32ToVm (d.returned m (n + 1))
            (d.ring.descAddr (d.ring.slot 0) + 4 * 1)
            (d.tmd1 m 0 &&& ~~~AM79C971_TMD1_OWN) := by
  obtain ⟨s, hat, hreturns⟩ := reach_tx hmem hstyle hchain h0 le_rfl
  have hinside := hchain.inside
  have htaken := hat.take hmem hchain.position hinside
  have hlast : hasFlag s.ptxd.tmd1 AM79C971_TMD1_ENP = true := by
    rw [hat.ptxd]
    exact hchain.last
  have hstop : txTurn d.txdescGetCurrent s0.ptxd.tmd1 s =
      .stop (some (s.takePkt.finish d.txdescGetCurrent s0.ptxd.tmd1)) := by
    simp only [txTurn, hlast, if_true]
  have hslot : d.ring.slot 0 = d.txPos.toNat := slot_zero (d := d.ring) hchain.position
  have hcur := current_eq hmem (e := d) rfl hchain.position
  rw [← hslot] at hcur
  have hlt := slot_lt (d := d.ring) hchain.position (Nat.zero_le _)
  refine ⟨_, (hreturns _).mpr ((returns_stop hstop).mpr rfl), rfl, htaken.pkt, rfl, ?_⟩
  simp only [TxTurn.finish]
  rw [clearOwn_eq hmem hlt hcur, htaken.mem, h0.ptxd]

theorem length_chainBytes (k : Nat) :
    (d.chainBytes m k).length = offset (fun i => clen (d.tmd1 m i)) k := by
  induction k with
  | zero => rfl
  | succ k ih =>
    rw [TxData.chainBytes, List.range_succ, List.flatMap_append, List.flatMap_singleton,
      List.length_append, ← TxData.chainBytes, ih, offset, TxData.buffer,
      length_physmemCopyFromVm]

theorem owned_sent (hchain : Chain d m n) (hi : i ≤ n) :
    d.ring.owned (physmemCopyU32ToVm (d.returned m (n + 1))
      (d.ring.descAddr (d.ring.slot 0) + 4 * 1) (d.tmd1 m 0 &&& ~~~AM79C971_TMD1_OWN))
      (d.ring.slot i) = (decide (1 ≤ i) && hasFlag (d.tmd1 m i) AM79C971_TMD1_STP) := by
  have hinside := hchain.inside
  rw [Am79c971Data.owned, word_write (by omega) (by omega)]
  cases i with
  | zero =>
    rw [if_pos ⟨rfl, rfl⟩]
    exact owned_release _
  | succ i =>
    rw [if_neg fun hc => slot_ne_slot (i := i + 1) (j := 0) (by omega) (by omega) hc.1.symm]
    have howned := owned_returned (m := m) hinside le_rfl (show i + 1 < n + 1 by omega)
    rw [hchain.owned (i + 1) hi, Bool.true_and] at howned
    rw [← Am79c971Data.owned, howned, decide_eq_true (by omega), Bool.true_and]

theorem handle_chain (hmem : d.ring.descAddr d.txLen.toNat ≤ 2 ^ 32) (hidle : d.idle = false)
    (hstyle : d.bcr20.setWidth 8 = (2 : BitVec 8) ∨ d.bcr20.setWidth 8 = (3 : BitVec 8))
    (hchain : Chain d m n) : ∃ r, HandleTxringSingle d m r ∧ r.transmitted = true ∧
      r.pkt = d.chainBytes m (n + 1) ∧
        (r.frame = if BitVec.ofNat 32 r.pkt.length = 0 then none
          else some (r.pkt.take (BitVec.ofNat 32 r.pkt.length).toNat)) ∧
          ∀ i ≤ n, d.ring.owned r.mem (d.ring.slot i) =
            (decide (1 ≤ i) && hasFlag (d.tmd1 m i) AM79C971_TMD1_STP) := by
  obtain ⟨s, hstart, hat⟩ := txAt_start (m := m) hmem hstyle hchain.position
  obtain ⟨r, hr, hsent, hpkt, hframe, hrmem⟩ := transmit_chain hmem hstyle hchain hat
  have hown : hasFlag s.ptxd.tmd1 AM79C971_TMD1_OWN = true := by
    rw [hat.ptxd]
    exact hchain.owned 0 (by omega)
  refine ⟨r, ?_, hsent, hpkt, hframe, fun i hi => ?_⟩
  · rw [HandleTxringSingle, if_neg (by rw [hidle]; decide)]
    refine ⟨s, hstart, ?_⟩
    rw [if_neg (by rw [hown]; decide)]
    exact hr
  · rw [hrmem]
    exact owned_sent hchain hi

theorem handle_unique {r' : TxResult} (h : HandleTxringSingle d m r)
    (h' : HandleTxringSingle d m r') : r = r' := by
  rw [HandleTxringSingle] at h h'
  split at h
  · rw [if_pos ‹_›] at h'
    rw [h, h']
  · rw [if_neg ‹_›] at h'
    obtain ⟨s, hs, h⟩ := h
    obtain ⟨s', hs', h'⟩ := h'
    cases hs.symm.trans hs'
    split at h
    · rw [if_pos ‹_›] at h'
      rw [h, h']
    · rw [if_neg ‹_›] at h'
      exact Option.some.inj (h.unique h')

theorem txdescRead_some {a : BitVec 32} {t : TxDesc} (h : txdescRead d m a = some t) :
    (d.bcr20.setWidth 8 = (2 : BitVec 8) ∨ d.bcr20.setWidth 8 = (3 : BitVec 8)) ∧
      t.tmd1 = physmemCopyU32FromVm m (a.toNat + 4) := by
  simp only [txdescRead] at h
  split at h
  · rename_i h2
    cases h
    exact ⟨.inl h2, rfl⟩
  · split at h
    · rename_i h3
      cases h
      exact ⟨.inr h3, rfl⟩
    · cases h

theorem not_owned_of_underflow {txStart tmd1 : BitVec 32} {s0 : TxTurn}
    (h0 : s0.d = { d with txPos := s0.d.txPos })
    (hr : Returns (txTurn txStart tmd1) s0 (some r)) (hsent : r.transmitted = false) :
    d.ownedAt r.mem r.d.txPos = false := by
  have hall : ∀ r', some r = some r' → r'.transmitted = false →
      d.ownedAt r'.mem r'.d.txPos = false := by
    have hset : ∀ s : TxTurn, s.d = { d with txPos := s.d.txPos } →
        s.takePkt.d = { d with txPos := s.takePkt.d.txPos } := by
      intro s hs
      simp only [TxTurn.takePkt, TxData.txdescSetNext]
      rw [hs]
    apply hr.invariant (P := fun s => s.d = { d with txPos := s.d.txPos })
      (Q := fun o => ∀ r', o = some r' → r'.transmitted = false →
        d.ownedAt r'.mem r'.d.txPos = false) h0
    · intro s s' hs hturn
      simp only [txTurn] at hturn
      split at hturn
      · cases hturn
      · split at hturn
        · cases hturn
        · split at hturn
          · cases hturn
          · cases hturn
            exact hset s hs
    · intro s o hs hturn r' ho hsent'
      subst ho
      simp only [txTurn] at hturn
      split at hturn
      · cases hturn
        cases hsent'
      · split at hturn
        · cases hturn
        · rename_i ntxd hread
          split at hturn
          · rename_i hown
            cases hturn
            obtain ⟨-, htmd1⟩ := txdescRead_some hread
            have hstart : s.takePkt.d.txStart = d.txStart := by rw [hset s hs]
            rw [htmd1, TxData.txdescGetCurrent, hstart] at hown
            exact hown
          · cases hturn
  exact hall r rfl hsent

theorem txOk_refused : TxOk d m ⟨d, m, [], none, false⟩ := by
  constructor
  · exact Nat.zero_le _
  · exact fun h => absurd h Bool.false_ne_true
  · exact fun _ => ⟨rfl, rfl, fun _ => rfl⟩

theorem txFits_of_txOk (hmem : d.ring.descAddr d.txLen.toNat ≤ 2 ^ 32) (hidle : d.idle = false)
    (h : HandleTxringSingle d m r) (hok : TxOk d m r) : TxFits d m := by
  have hhandle := h
  rw [HandleTxringSingle, if_neg (by rw [hidle]; decide)] at h
  obtain ⟨s, hstart, h⟩ := h
  obtain ⟨txd0, hread, rfl⟩ := Option.map_eq_some_iff.mp hstart
  obtain ⟨hstyle, htmd1⟩ := txdescRead_some hread
  refine ⟨hstyle, fun hown => ?_⟩
  rw [if_neg (by rw [htmd1]; exact fun hc => absurd (hown.symm.trans hc) (by decide))] at h
  cases hsent : r.transmitted with
  | false =>
    obtain ⟨-, hpos, hkept⟩ := hok.kept hsent
    have hnot := not_owned_of_underflow rfl h hsent
    rw [hpos, hkept, hown] at hnot
    cases hnot
  | true =>
    obtain ⟨n, hchain, -, hdriver⟩ := hok.sent hsent
    obtain ⟨r', hr', -, hpkt, -, howned⟩ := handle_chain hmem hidle hstyle hchain
    cases handle_unique hhandle hr'
    refine ⟨n, hchain, ?_, fun i hi hin => ?_⟩
    · have hfits := hok.fits
      rw [hpkt, length_chainBytes] at hfits
      exact hfits
    · have hbit := howned i hin
      rw [hdriver i hin, decide_eq_true hi, Bool.true_and] at hbit
      exact hbit.symm

theorem txOk_of_txFits (hmem : d.ring.descAddr d.txLen.toNat ≤ 2 ^ 32) (hidle : d.idle = false)
    (h : TxFits d m) : ∃ r, HandleTxringSingle d m r ∧ TxOk d m r := by
  cases hown : d.ownedAt m d.txPos with
  | false =>
    obtain ⟨t, hread⟩ : ∃ t, txdescRead d m d.txdescGetCurrent = some t := by
      simp only [txdescRead]
      split
      · exact ⟨_, rfl⟩
      · exact ⟨_, if_pos (h.style.resolve_left ‹_›)⟩
    refine ⟨_, ?_, txOk_refused⟩
    rw [HandleTxringSingle, if_neg (by rw [hidle]; decide)]
    refine ⟨_, by rw [txStartTurn, hread, Option.map_some], ?_⟩
    rw [if_pos (by rw [(txdescRead_some hread).2]; exact hown)]
  | true =>
    obtain ⟨n, hchain, hfits, hstp⟩ := h.chain hown
    obtain ⟨r, hr, hsent, hpkt, hframe, howned⟩ := handle_chain hmem hidle h.style hchain
    have hlen : r.pkt.length ≤ AM79C971_MAX_PKT_SIZE := by
      rw [hpkt, length_chainBytes]
      exact hfits
    have hwidth : (BitVec.ofNat 32 r.pkt.length).toNat = r.pkt.length := by
      rw [BitVec.toNat_ofNat]
      simp only [AM79C971_MAX_PKT_SIZE] at hlen
      omega
    refine ⟨r, hr, hlen, fun _ => ⟨n, hchain, ?_, fun i hi => ?_⟩, fun hnot => ?_⟩
    · rw [hframe, hwidth, List.take_length, ← hpkt]
      by_cases hnil : r.pkt = []
      · rw [if_pos hnil, if_pos (by rw [hnil]; rfl)]
      · rw [if_neg hnil, if_neg fun hzero => hnil ?_]
        rw [hzero] at hwidth
        exact List.length_eq_zero_iff.mp hwidth.symm
    · rw [howned i hi]
      cases i with
      | zero => rfl
      | succ i =>
        rw [hstp (i + 1) (by omega) hi, Bool.and_false]
    · rw [hsent] at hnot
      cases hnot

/-- A packet is transmitted as it should be exactly if nothing is to be transmitted, or
the software style is known and the current descriptor is not the device's or starts a
complete chain that fits in the buffer, where no later descriptor has STP. -/
theorem transmit_ok_iff (d : TxData) (m : Ram)
    (hmem : d.ring.descAddr d.txLen.toNat ≤ 2 ^ 32) :
    (∃ r, HandleTxringSingle d m r ∧ TxOk d m r) ↔ d.idle = true ∨ TxFits d m := by
  cases hidle : d.idle with
  | true =>
    have hrefused : HandleTxringSingle d m ⟨d, m, [], none, false⟩ := by
      rw [HandleTxringSingle, if_pos hidle]
    exact ⟨fun _ => .inl rfl, fun _ => ⟨_, hrefused, txOk_refused⟩⟩
  | false =>
    constructor
    · rintro ⟨r, hr, hok⟩
      exact .inr (txFits_of_txOk hmem hidle hr hok)
    · intro h
      exact txOk_of_txFits hmem hidle (h.resolve_left (by decide))

/-- A ring of two descriptors at 0x1000 on an interface that was started. -/
def twoDescriptors : TxData := ⟨0x1000, 2, 0, 2, AM79C971_CSR0_TXON, 0, true, false⟩

/-- The first descriptor is the device's and holds the five bytes at 0x2000; `flags` are
its other flags. The second one is the driver's. -/
def fiveBytes (flags : Byte) : Ram := fun a =>
  if a = 0x1002 then 0x20 else if a = 0x1004 then 0x80 ||| flags
  else if a = 0x1006 then 0x0F else if a = 0x1007 then 0xFB else 0

/-- Five bytes that start and end a packet. -/
theorem transmit_ok_five : ∃ r, HandleTxringSingle twoDescriptors (fiveBytes 0x03) r ∧
    TxOk twoDescriptors (fiveBytes 0x03) r := by
  refine (transmit_ok_iff _ _ (by decide)).mpr (.inr ⟨.inl (by decide), fun _ => ?_⟩)
  refine ⟨0, ⟨by decide, by decide, fun i hi => ?_, fun i hi => absurd hi (by omega),
    by decide⟩, by decide, fun i hi hi' => absurd hi' (by omega)⟩
  obtain rfl : i = 0 := by omega
  decide

/-- A packet that only starts is left behind. -/
theorem not_transmit_ok : ¬ ∀ (d : TxData) (m : Ram), d.ring.descAddr d.txLen.toNat ≤ 2 ^ 32 →
    ∃ r, HandleTxringSingle d m r ∧ TxOk d m r := by
  intro hall
  obtain ⟨r, hr, hok⟩ := hall twoDescriptors (fiveBytes 0x02) (by decide)
  have hfits := txFits_of_txOk (d := twoDescriptors) (by decide) (by decide) hr hok
  obtain ⟨n, hchain, -⟩ := hfits.chain (by decide)
  have hinside := hchain.inside
  have hlen : twoDescriptors.txLen.toNat = 2 := by decide
  obtain rfl | rfl : n = 0 ∨ n = 1 := by omega
  · exact absurd hchain.last (by decide)
  · exact absurd (hchain.owned 1 le_rfl) (by decide)

end Dynamips.Am79c971
