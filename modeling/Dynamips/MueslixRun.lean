import Dynamips.Lib.Runs
import Dynamips.Mueslix
import Dynamips.RxRing
import Dynamips.TxRing

/-! What the channels of the Mueslix do in every history of their registers. -/
set_option autoImplicit false

namespace Dynamips.Mueslix

open GuestRam Runs

/-! The size of the CRC. -/

theorem crcSizeOf_le (crcCtrlReg : BitVec 32) : (crcSizeOf crcCtrlReg).toNat ≤ 4 := by
  rw [crcSizeOf]
  split
  · rename_i h
    obtain rfl | rfl := h
    · decide
    · decide
  · decide

def CrcOk (d : MueslixData) : Prop := ∀ id, (d.channel id).crcSize.toNat ≤ 4

variable {d d' : MueslixData} {channel channel' : MueslixChannel} {value : BitVec 32}

theorem CrcOk.setChannel (h : CrcOk d) (id : Fin 4) (hchannel : channel.crcSize.toNat ≤ 4) :
    CrcOk (d.setChannel id channel) := by
  intro i
  simp only [MueslixData.setChannel]
  split
  · exact hchannel
  · exact h i

theorem CrcOk.updateIrqStatus (h : CrcOk d) : CrcOk d.updateIrqStatus := by
  rw [MueslixData.updateIrqStatus]
  split
  · exact h
  · split
    · exact h
    · exact h

theorem access_cases (op : OpType) (value : BitVec 32) (set : BitVec 32 → MueslixChannel)
    (P : MueslixChannel → Prop) (h : P channel) (hset : ∀ data, P (set data)) :
    P (op.access channel value set).1 := by
  cases op with
  | read => exact h
  | write data => exact hset data

theorem updateClkRate_crcSize (h : channel.updateClkRate = some channel') :
    channel'.crcSize = channel.crcSize := by
  rw [MueslixChannel.updateClkRate] at h
  simp only at h
  split at h
  · cases h
  · cases h
    rfl

theorem chanAccess_crcSize {offset : Nat} {op : OpType} (hcrc : channel.crcSize.toNat ≤ 4)
    (h : channel.chanAccess offset op = some (channel', value)) : channel'.crcSize.toNat ≤ 4 := by
  have hplain : ∀ value' set, (∀ data, (set data).crcSize.toNat ≤ 4) →
      some (op.access channel value' set) = some (channel', value) → channel'.crcSize.toNat ≤ 4 := by
    intro value' set hset heq
    have := access_cases op value' set (fun c => c.crcSize.toNat ≤ 4) hcrc hset
    rwa [Option.some.inj heq] at this
  rw [MueslixChannel.chanAccess.eq_def] at h
  split at h
  · exact hplain _ _ (fun data => crcSizeOf_le data) h
  · simp only [Option.map_eq_some_iff, Prod.mk.injEq] at h
    obtain ⟨c, hc, rfl, -⟩ := h
    rw [updateClkRate_crcSize hc]
    exact access_cases op _ _ (fun c => c.crcSize.toNat ≤ 4) hcrc fun _ => hcrc
  all_goals
    refine hplain _ _ ?_ h
    exact fun _ => hcrc

theorem CrcOk.tpuHandleCmd (h : CrcOk d) (disable : List (BitVec 32)) (cmd : BitVec 32) :
    CrcOk (d.tpuHandleCmd disable cmd) := by
  rw [MueslixData.tpuHandleCmd]
  simp only
  split
  · exact h.setChannel _ (h _)
  · split
    · exact h.setChannel _ (h _)
    · exact h

theorem CrcOk.tpuCmd (h : CrcOk d) (cmd : BitVec 32) : CrcOk (d.tpuCmd cmd) := by
  rw [MueslixData.tpuCmd]
  split
  · exact h.tpuHandleCmd _ _
  · split
    · exact h.tpuHandleCmd _ _
    · exact h

theorem CrcOk.generalAccess (h : CrcOk d) (offset : Nat) (op : OpType) :
    CrcOk (d.generalAccess offset op).1 := by
  rw [MueslixData.generalAccess.eq_def]
  split
  · exact h
  · exact CrcOk.updateIrqStatus h
  · exact h
  · exact CrcOk.updateIrqStatus h
  all_goals first
    | exact h
    | exact h.tpuCmd _

theorem CrcOk.access (h : CrcOk d) {offset : Nat} {op : OpType}
    (haccess : d.access offset op = some (d', value)) : CrcOk d' := by
  rw [MueslixData.access] at haccess
  split at haccess
  · rename_i id _
    simp only [Option.map_eq_some_iff, Prod.mk.injEq] at haccess
    obtain ⟨⟨c, v⟩, hc, rfl, -⟩ := haccess
    exact h.setChannel id (chanAccess_crcSize (h id) hc)
  · obtain rfl : (d.generalAccess offset op).1 = d' := congrArg Prod.fst (Option.some.inj haccess)
    exact h.generalAccess offset op

theorem hasFlag_ofNat {n k i : Nat} (h : n < 2 ^ k) (hk : k ≤ i) :
    hasFlag (BitVec.ofNat 32 n) (BitVec.twoPow 32 i) = false := by
  have hi : n < 2 ^ i := Nat.lt_of_lt_of_le h (Nat.pow_le_pow_right (by decide) hk)
  rw [hasFlag_twoPow, BitVec.getLsbD_ofNat, Nat.testBit_lt_two_pow hi, Bool.and_false]

theorem rxChip_lawful (chipMode : Int) (hcrc : channel.crcSize.toNat ≤ 4) :
    (channel.rxChip chipMode).Lawful MUESLIX_RXDESC_LS := by
  have hlen : ∀ (rdes : RxRing.Rdes) n, n ≤ ((channel.rxChip chipMode).sizes rdes).sum →
      n < 2 ^ 16 := by
    intro rdes n hn
    have hand : (rdes 0 &&& MUESLIX_RXDESC_LEN_MASK).toNat ≤ MUESLIX_RXDESC_LEN_MASK.toNat := by
      rw [BitVec.toNat_and]
      exact Nat.and_le_right
    have hmask : MUESLIX_RXDESC_LEN_MASK.toNat = 65535 := by decide
    simp only [RxRing.RxChip.sizes, MueslixChannel.rxChip, List.map_cons, List.map_nil,
      List.sum_cons, List.sum_nil] at hn
    omega
  have hls : hasFlag MUESLIX_RXDESC_LS MUESLIX_RXDESC_LS = true ∧
      hasFlag MUESLIX_RXDESC_LS RxRing.RXDESC_OWN = false := by decide
  have hover : hasFlag (MUESLIX_RXDESC_LS ||| MUESLIX_RXDESC_OVERRUN) MUESLIX_RXDESC_LS = true ∧
      hasFlag (MUESLIX_RXDESC_LS ||| MUESLIX_RXDESC_OVERRUN) RxRing.RXDESC_OWN = false := by decide
  have hfs : hasFlag MUESLIX_RXDESC_FS MUESLIX_RXDESC_FS = true ∧
      hasFlag MUESLIX_RXDESC_FS RxRing.RXDESC_OWN = false := by decide
  have hown : ∀ n < 2 ^ 20, hasFlag (BitVec.ofNat 32 n) RxRing.RXDESC_OWN = false :=
    fun n hn => hasFlag_ofNat (i := 31) hn (by decide)
  have hend : ∀ n < 2 ^ 20, hasFlag (BitVec.ofNat 32 n) MUESLIX_RXDESC_LS = false :=
    fun n hn => hasFlag_ofNat (i := 29) hn (by decide)
  constructor
  · simp [MueslixChannel.rxChip]
  · exact hfs.1
  · exact hfs.2
  · intro rdes n hn
    have hsum : BitVec.ofNat 32 n + channel.crcSize + 1 =
        BitVec.ofNat 32 (n + channel.crcSize.toNat + 1) := by
      simp [BitVec.ofNat_add]
    simp only [MueslixChannel.rxChip, hasFlag_or, hls, hsum, Bool.true_or, Bool.false_or, true_and]
    exact hown _ (by have := hlen rdes n hn; omega)
  · intro rdes n hn
    have hn' := hlen rdes n hn
    simp [MueslixChannel.rxChip, hasFlag_or, hover, hown n (by omega)]
  · intro rdes n hn
    have hn' := hlen rdes n hn
    simp [MueslixChannel.rxChip, hown n (by omega), hend n (by omega)]

def heldLen (chipMode : Int) (tdes0 : BitVec 32) : Nat :=
  let len := (tdes0 &&& MUESLIX_TXDESC_LEN_MASK).toNat
  if chipMode = 0 then len
  else if hasFlag tdes0 MUESLIX_TXDESC_SUB then
    4 * len - ((tdes0 &&& MUESLIX_TXDESC_SUB_LEN) >>> MUESLIX_TXDESC_SUB_SHIFT).toNat
  else 4 * len

def txHeld (chipMode : Int) (m : Ram) (tdes : TxRing.Tdes) : List Byte :=
  physmemCopyFromVm m (tdes 1).toNat (heldLen chipMode (tdes 0))

theorem txLen_cases (chipMode : Int) (tdes0 : BitVec 32) :
    (txLen chipMode tdes0).toNat = heldLen chipMode tdes0 ∨
      heldLen chipMode tdes0 = 0 ∧ MUESLIX_MAX_PKT_SIZE < (txLen chipMode tdes0).toNat := by
  have hmask : (tdes0 &&& MUESLIX_TXDESC_LEN_MASK).toNat ≤ 65535 := by
    rw [BitVec.toNat_and]
    exact Nat.and_le_right
  have hsub : ((tdes0 &&& MUESLIX_TXDESC_SUB_LEN) >>> MUESLIX_TXDESC_SUB_SHIFT).toNat ≤ 3 := by
    have hand : (tdes0 &&& MUESLIX_TXDESC_SUB_LEN).toNat ≤ MUESLIX_TXDESC_SUB_LEN.toNat := by
      rw [BitVec.toNat_and]
      exact Nat.and_le_right
    have hlen : MUESLIX_TXDESC_SUB_LEN.toNat = 3 * 2 ^ 24 := by decide
    rw [BitVec.toNat_ushiftRight, Nat.shiftRight_eq_div_pow, MUESLIX_TXDESC_SUB_SHIFT]
    omega
  have hshift : ((tdes0 &&& MUESLIX_TXDESC_LEN_MASK) <<< 2).toNat =
      4 * (tdes0 &&& MUESLIX_TXDESC_LEN_MASK).toNat := by
    rw [BitVec.toNat_shiftLeft, Nat.shiftLeft_eq]
    omega
  simp only [txLen, heldLen, MUESLIX_MAX_PKT_SIZE]
  split
  · exact .inl rfl
  · split
    · rw [BitVec.toNat_sub, hshift]
      omega
    · exact .inl hshift

theorem txPad_le (tdes0 : BitVec 32) : (txPad tdes0).toNat ≤ 3 := by
  rw [txPad, BitVec.toNat_and]
  exact Nat.and_le_right

theorem txChip_lawful (channel : MueslixChannel) (chipMode : Int) :
    (channel.txChip chipMode).Lawful (txHeld chipMode) MUESLIX_MAX_PKT_SIZE := by
  have hsum : ∀ t : TxRing.Tdes, (((channel.txChip chipMode).segs t).map Prod.snd).sum =
      (txLen chipMode (t 0)).toNat := fun t => Nat.add_zero _
  have hheld : ∀ m t, (txHeld chipMode m t).length = heldLen chipMode (t 0) :=
    fun m t => length_physmemCopyFromVm _ _
  constructor
  · simp [MueslixChannel.txChip]
  · intro m t
    rw [hsum, hheld]
    have := txLen_cases chipMode (t 0)
    omega
  · intro m t h
    rw [hsum, hheld] at h
    simp only [TxRing.TxChip.data, MueslixChannel.txChip, List.flatMap_cons, List.flatMap_nil,
      List.append_nil, TxRing.segData, h, txHeld]
  · exact fun t => txPad_le (t 0)
  · simp [MUESLIX_MAX_PKT_SIZE]
  · refine .inr fun m t => ?_
    rw [hsum, hheld]
    have := txLen_cases chipMode (t 0)
    omega

/-! What every step should do. -/

/-- The address of a descriptor of a ring. The end is behind the last descriptor in chip
mode 0 and at it in chip mode 1. -/
def InRing (chipMode : Int) (start ringEnd addr : BitVec 32) : Prop :=
  start.toNat ≤ addr.toNat ∧
    if chipMode = 0 then addr.toNat < ringEnd.toNat else addr.toNat ≤ ringEnd.toNat

def MueslixChannel.RxIn (channel : MueslixChannel) (chipMode : Int) : BitVec 32 → Prop :=
  InRing chipMode channel.rxStart channel.rxEnd

def MueslixChannel.TxIn (channel : MueslixChannel) (chipMode : Int) : BitVec 32 → Prop :=
  InRing chipMode channel.txStart channel.txEnd

def MueslixChannel.sizesAt (channel : MueslixChannel) (chipMode : Int) (m : Ram) (a : BitVec 32) :
    List Nat :=
  (channel.rxChip chipMode).sizes (RxRing.rxdescRead (channel.rxChip chipMode) m a)

/-- A packet only comes in where reception is enabled, and is stored once in the
descriptors that are owned, at addresses of the ring. -/
structure RxStepOk (d : MueslixData) (m : Ram) (id : Fin 4) (pkt : List Byte)
    (ring : List (BitVec 32)) (r : RxRing.RxResult) : Prop where
  enabled : r.filled ≠ [] →
    hasFlag (d.isRxTxEnabled id) MUESLIX_RX_ENABLE = true ∧ (d.channel id).status ≠ 0
  untouched : r.filled = [] → r.mem = m ∧ r.rxCurrent = (d.channel id).rxCurrent
  stored : d.rxReady id = true →
    RxRing.RxOk ((d.channel id).rxChip d.chipMode) MUESLIX_RXDESC_LS
      ((d.channel id).sizesAt d.chipMode m) pkt.length m (d.channel id).rxCurrent ring pkt r
  inRing : ∀ a ∈ r.filled.map Prod.fst, (d.channel id).RxIn d.chipMode a
  next : r.filled ≠ [] → (d.channel id).RxIn d.chipMode r.rxCurrent

def MueslixData.txReady (d : MueslixData) (id : Fin 4) (canTransmit : Bool) : Bool :=
  (d.channel id).txStart ≠ 0 && (d.channel id).status ≠ 0 && canTransmit

/-- Only where transmission is enabled a frame goes out, with the bytes of a chain at
addresses of the ring. -/
structure TxStepOk (d : MueslixData) (m : Ram) (id : Fin 4) (canTransmit : Bool)
    (r : TxRing.TxResult) : Prop where
  enabled : r.used ≠ [] →
    hasFlag (d.isRxTxEnabled id) MUESLIX_TX_ENABLE = true ∧ (d.channel id).status ≠ 0
  untouched : r.used = [] → r.sent = none ∧ r.mem = m ∧ r.txCurrent = (d.channel id).txCurrent
  frame : d.txReady id canTransmit = true →
    TxRing.TxOk ((d.channel id).txChip d.chipMode) (txHeld d.chipMode) MUESLIX_MAX_PKT_SIZE m
      (d.channel id).txCurrent r
  inRing : ∀ a ∈ r.used, (d.channel id).TxIn d.chipMode a
  next : r.used ≠ [] → (d.channel id).TxIn d.chipMode r.txCurrent

/-- A step does what it should: no access divides by zero, and a packet is received or
transmitted, if at all, as it should be. -/
def StepOk (t : Sys) (ring : List (BitVec 32)) : Event → Prop
  | .access offset op => ∃ r, t.d.access offset op = some r
  | .handleRxring id pkt => ∃ d' r, t.d.HandleRxring t.mem id pkt d' r ∧
      RxStepOk t.d t.mem id pkt ring r
  | .handleTxringSingle id canTransmit => t.passes id ≠ 0 →
      ∃ d' r, t.d.HandleTxringSingle t.mem id canTransmit d' r ∧
        TxStepOk t.d t.mem id canTransmit r
  | _ => True

/-- There is nothing to receive into, or a packet with bytes that ends in the ring. -/
def RxWithin (d : MueslixData) (m : Ram) (id : Fin 4) (pkt : List Byte) : Prop :=
  let channel := d.channel id
  let chip := channel.rxChip d.chipMode
  d.rxReady id = true → RxRing.owned chip m channel.rxCurrent = true → pkt ≠ [] ∧
    ∃ n, RxRing.Ends chip (channel.sizesAt d.chipMode m) pkt.length m channel.rxCurrent pkt n ∧
      ∀ i ≤ n + 1, channel.RxIn d.chipMode (RxRing.walk chip m channel.rxCurrent i)

/-- There is nothing to transmit, or transmission is enabled and a chain of the ring is
complete and fits. -/
def TxWithin (d : MueslixData) (m : Ram) (id : Fin 4) (canTransmit : Bool) : Prop :=
  let channel := d.channel id
  let chip := channel.txChip d.chipMode
  d.txReady id canTransmit = true → TxRing.owned chip m channel.txCurrent = true →
    hasFlag (d.isRxTxEnabled id) MUESLIX_TX_ENABLE = true ∧
      TxRing.TxFits chip (txHeld d.chipMode) MUESLIX_MAX_PKT_SIZE m channel.txCurrent ∧
        ∀ n, TxRing.Chain chip m channel.txCurrent n →
          ∀ i ≤ n + 1, channel.TxIn d.chipMode (TxRing.walk chip m channel.txCurrent i)

/-- The divisor of a channel whose clock an access computes is not all ones. -/
def StepWithin (t : Sys) : Event → Prop
  | .access offset _ => ∀ id, channelAt offset = some id →
      offset - MUESLIX_CHANNEL_LEN * (id.val + 1) = 0x40 → (t.d.channel id).clkDiv ≠ 0xFFFFFFFF
  | .handleRxring id pkt => RxWithin t.d t.mem id pkt
  | .handleTxringSingle id canTransmit => t.passes id ≠ 0 → TxWithin t.d t.mem id canTransmit
  | _ => True

variable {m : Ram} {id : Fin 4} {ring : List (BitVec 32)}

end Dynamips.Mueslix
