import Dynamips.Dec21140
import Dynamips.RxRing
import Dynamips.TxRing

/-! Which packets the DEC21140 receives and transmits as it should. -/
set_option autoImplicit false

namespace Dynamips.Dec21140

open GuestRam

/-- The two lengths of a descriptor in 11 bits each, as the transmit side takes them,
the second only when not chained. -/
def rxSizes (rdes : RxRing.Rdes) : List Nat :=
  let len1 := (rdes 1 &&& DEC21140_RXDESC_LEN_MASK).toNat
  let len2 := ((rdes 1 >>> 11) &&& DEC21140_RXDESC_LEN_MASK).toNat
  len1 :: if hasFlag (rdes 1) DEC21140_RXDESC_RCH then [] else [len2]

def txHeld (m : Ram) (tdes : TxRing.Tdes) : List Byte :=
  let len1 := (tdes 1 &&& DEC21140_TXDESC_LEN_MASK).toNat
  let len2 := ((tdes 1 >>> 11) &&& DEC21140_TXDESC_LEN_MASK).toNat
  physmemCopyFromVm m (tdes 2).toNat len1 ++
    if hasFlag (tdes 1) DEC21140_TXDESC_TCH then [] else physmemCopyFromVm m (tdes 3).toNat len2

variable (d : Dec21140Data) (m : Ram) (daddr : EthAddr) (pkt : List Byte)

def Dec21140Data.sizesAt (a : BitVec 32) : List Nat :=
  rxSizes (RxRing.rxdescRead (d.rxChip daddr pkt.length) m a)

def Dec21140Data.RxOk (ring : List (BitVec 32)) (r : RxRing.RxResult) : Prop :=
  RxRing.RxOk (d.rxChip daddr pkt.length) DEC21140_RXDESC_LS (d.sizesAt m daddr pkt)
    DEC21140_MAX_PKT_SIZE m d.rxCurrent ring pkt r

def Dec21140Data.RxFits : Prop :=
  RxRing.RxFits (d.rxChip daddr pkt.length) (d.sizesAt m daddr pkt) DEC21140_MAX_PKT_SIZE m
    d.rxCurrent pkt

/-- The transmitter takes a packet, not a descriptor that it skips. -/
def Dec21140Data.transmits (canTransmit : Bool) : Bool :=
  d.txStarted canTransmit &&
    hasFlag (d.txd0 m 1) (DEC21140_TXDESC_FS ||| DEC21140_TXDESC_LS)

def Dec21140Data.TxOk (canTransmit : Bool) (r : TxRing.TxResult) : Prop :=
  if d.transmits m canTransmit then
    TxRing.TxOk d.txChip txHeld DEC21140_MAX_PKT_SIZE m d.txCurrent r
  else r.sent = none

def Dec21140Data.TxFits (canTransmit : Bool) : Prop :=
  d.transmits m canTransmit = true →
    TxRing.TxFits d.txChip txHeld DEC21140_MAX_PKT_SIZE m d.txCurrent

theorem own_shift {n : Nat} (h : n < 2 ^ 15) :
    hasFlag (BitVec.ofNat 32 n <<< DEC21140_RXDESC_FL_SHIFT) RxRing.RXDESC_OWN = false := by
  have hbit := hasFlag_twoPow (BitVec.ofNat 32 n <<< DEC21140_RXDESC_FL_SHIFT) 31
  have hn : n.testBit (31 - DEC21140_RXDESC_FL_SHIFT) = false := Nat.testBit_lt_two_pow h
  rw [BitVec.getLsbD_shiftLeft, BitVec.getLsbD_ofNat, hn, Bool.and_false, Bool.and_false] at hbit
  exact hbit

theorem rxChip_lawful (pktLen : Nat) :
    (d.rxChip daddr pktLen).Lawful DEC21140_RXDESC_LS := by
  have hown := own_shift (n := min pktLen DEC21140_MAX_PKT_SIZE + 4)
    (by simp only [DEC21140_MAX_PKT_SIZE]; omega)
  have hls : hasFlag DEC21140_RXDESC_LS DEC21140_RXDESC_LS = true := by decide
  have hlsOwn : hasFlag DEC21140_RXDESC_LS RxRing.RXDESC_OWN = false := by decide
  have hmfOwn : hasFlag DEC21140_RXDESC_MF RxRing.RXDESC_OWN = false := by decide
  have hfs : hasFlag DEC21140_RXDESC_FS DEC21140_RXDESC_FS = true ∧
      hasFlag DEC21140_RXDESC_FS RxRing.RXDESC_OWN = false := by decide
  have hstarved : hasFlag (DEC21140_RXDESC_LS ||| DEC21140_RXDESC_DE) DEC21140_RXDESC_LS = true ∧
      hasFlag (DEC21140_RXDESC_LS ||| DEC21140_RXDESC_DE) RxRing.RXDESC_OWN = false ∧
        decide (DEC21140_RXDESC_LS ||| DEC21140_RXDESC_DE ≠ 0) = true := by decide
  have hmore : hasFlag 0 RxRing.RXDESC_OWN = false ∧ decide ((0 : BitVec 32) ≠ 0) = false := by
    decide
  constructor
  · simp [Dec21140Data.rxChip]
  · exact hfs.1
  · exact hfs.2
  · intro rdes n hn
    simp only [Dec21140Data.rxChip]
    split <;> simp only [hasFlag_or, hls, hown, hlsOwn, hmfOwn, Bool.true_or, Bool.or_false,
      and_self]
  · exact fun _ _ _ => hstarved
  · exact fun _ _ _ => hmore

theorem txChip_lawful : d.txChip.Lawful txHeld DEC21140_MAX_PKT_SIZE := by
  constructor
  · simp [Dec21140Data.txChip]
  · intro m t
    simp only [Dec21140Data.txChip, txSegs, txHeld]
    split <;> simp
  · intro m t h
    simp only [Dec21140Data.txChip, txSegs, txHeld, TxRing.TxChip.data] at h ⊢
    split
    · rename_i hchained
      simp only [hchained, if_true, List.map_cons, List.map_nil, List.sum_cons, List.sum_nil,
        List.append_nil, length_physmemCopyFromVm] at h
      simp only [TxRing.segData, List.flatMap_cons, List.flatMap_nil, List.append_nil,
        show ((t 1 >>> 11) &&& DEC21140_TXDESC_LEN_MASK).toNat = 0 by omega, List.replicate_zero]
    · simp only [TxRing.segData, List.flatMap_cons, List.flatMap_nil, List.append_nil,
        List.map_append]
  · exact fun t => Nat.zero_le _
  · simp [DEC21140_MAX_PKT_SIZE]
  · exact .inl fun t => rfl

variable {d m daddr pkt}

theorem rxOk_iff {ring : List (BitVec 32)}
    (hclear : RxRing.Clear (d.rxChip daddr pkt.length) m ring) (hcurrent : d.rxCurrent ∈ ring) :
    (∃ d' r, d.ReceivePkt m daddr pkt d' r ∧ d.RxOk m daddr pkt ring r) ↔
      d.RxFits m daddr pkt := by
  rw [Dec21140Data.RxFits, ← RxRing.rxOk_iff (rxChip_lawful d daddr pkt.length) hclear hcurrent]
  constructor
  · rintro ⟨d', r, ⟨hr, -⟩, hok⟩
    exact ⟨r, hr, hok⟩
  · rintro ⟨r, hr, hok⟩
    exact ⟨_, r, ⟨hr, rfl⟩, hok⟩

theorem txOk_idle {canTransmit : Bool} (h : d.transmits m canTransmit = false) :
    ∃ d' r, d.HandleTxringSingle m canTransmit d' r ∧ d.TxOk m canTransmit r := by
  simp only [Dec21140Data.TxOk, h, Bool.false_eq_true, if_false]
  by_cases hnot : d.txStarted canTransmit = false ∨
      hasFlag (d.txd0 m 0) TxRing.TXDESC_OWN = false
  · refine ⟨d, ⟨m, d.txCurrent, [], none, [], false⟩, ?_, rfl⟩
    rw [Dec21140Data.HandleTxringSingle, if_pos hnot]
    exact ⟨rfl, rfl⟩
  · have hstarted := Bool.not_eq_false _ |>.mp (not_or.mp hnot).1
    rw [Dec21140Data.transmits, hstarted, Bool.true_and] at h
    exact ⟨(d.skipSetup m).1, (d.skipSetup m).2,
      by rw [Dec21140Data.HandleTxringSingle, if_neg hnot, if_pos h], rfl⟩

theorem txOk_iff {ring : List (BitVec 32)} (hclear : TxRing.Clear d.txChip m ring)
    (hcurrent : d.txCurrent ∈ ring) (canTransmit : Bool) :
    (∃ d' r, d.HandleTxringSingle m canTransmit d' r ∧ d.TxOk m canTransmit r) ↔
      d.TxFits m canTransmit := by
  cases htransmits : d.transmits m canTransmit with
  | false =>
    rw [Dec21140Data.TxFits, htransmits]
    simp [txOk_idle htransmits]
  | true =>
    rw [Dec21140Data.TxFits, htransmits,
      ← TxRing.txOk_iff (txChip_lawful d) hclear hcurrent]
    obtain ⟨hstarted, hflags⟩ := Bool.and_eq_true_iff.mp htransmits
    simp only [Dec21140Data.TxOk, htransmits, if_true, forall_const]
    cases hown : hasFlag (d.txd0 m 0) TxRing.TXDESC_OWN with
    | false =>
      have hrefused := @TxRing.transmit_refused d.txChip m d.txCurrent hown
      constructor
      · rintro ⟨d', r, hr, hok⟩
        rw [Dec21140Data.HandleTxringSingle, if_pos (.inr hown)] at hr
        exact ⟨r, hr.2 ▸ hrefused, hok⟩
      · rintro ⟨r, hr, hok⟩
        refine ⟨d, r, ?_, hok⟩
        rw [Dec21140Data.HandleTxringSingle, if_pos (.inr hown)]
        exact ⟨rfl, hr.unique hrefused⟩
    | true =>
      have hnot : ¬(d.txStarted canTransmit = false ∨
          hasFlag (d.txd0 m 0) TxRing.TXDESC_OWN = false) := by
        rw [hstarted, hown]
        decide
      simp only [Dec21140Data.HandleTxringSingle, if_neg hnot, hflags]
      constructor
      · rintro ⟨d', r, ⟨hr, -⟩, hok⟩
        exact ⟨r, hr, hok⟩
      · rintro ⟨r, hr, hok⟩
        exact ⟨_, r, ⟨hr, rfl⟩, hok⟩

end Dynamips.Dec21140
