import Dynamips.PaA1RxPackets

/-! What each part of the receive path of the TI1570 does to a packet. -/
set_option autoImplicit false

namespace Dynamips.PaA1

open GuestRam Reassembly

namespace PaA1Rx

/-- The free buffer that a channel is given next, its address and its size in cells. -/
def supply (d : PaA1Rx) (rde : RxDmaEntry) : Option (Nat × Nat) :=
  if hasFlag (d.bufPtr rde) RX_BUFPTR_OWN then some ((d.bufAddr rde).toNat, (d.bufSize rde).toNat)
  else none

def InRing (d : PaA1Rx) (rde : RxDmaEntry) (a : Nat) : Prop :=
  isFifo rde = false ∧ (d.bpAddr rde).toNat ≤ a ∧ a < (d.bpAddr rde).toNat + 4

variable {d d' : PaA1Rx} {rde : RxDmaEntry} {rbh : RxBufHolder} {atmHdr : BitVec 32}
  {addr size i : Nat} {cell : List Byte} {full : List (Buf (List Byte))} {cur : Buf (List Byte)}

@[simp] theorem setRde_mem : (d.setRde i rde).mem = d.mem := rfl

@[simp] theorem setRde_self : (d.setRde i rde).rxDmaTable i = rde := Function.update_self ..

theorem setRde_of_ne {j : Nat} (h : j ≠ i) : (d.setRde i rde).rxDmaTable j = d.rxDmaTable j :=
  Function.update_of_ne h ..

structure SameSettings (rde rde' : RxDmaEntry) : Prop where
  select : hasFlag rde'.ctrl RX_DMA_RCR_SELECT = hasFlag rde.ctrl RX_DMA_RCR_SELECT
  aal : aalType rde' = aalType rde
  crc : rde'.aal5Crc = rde.aal5Crc
  fbrEntry : rde'.fbrEntry = rde.fbrEntry

/-- What a chip keeps from a step for the channel `i`. -/
structure Kept (d d' : PaA1Rx) (i : Nat) : Prop where
  others : ∀ j, j ≠ i → d'.rxDmaTable j = d.rxDmaTable j
  settings : SameSettings (d.rxDmaTable i) (d'.rxDmaTable i)
  rings : d'.iregs = d.iregs
  rcrWiPos : d'.rcrWiPos = d.rcrWiPos
  rcrWoiPos : d'.rcrWoiPos = d.rcrWoiPos

/-! A free buffer. -/

structure Acquired (d : PaA1Rx) (rde : RxDmaEntry) (addr size : Nat) (d' : PaA1Rx)
    (rbh : RxBufHolder) : Prop where
  bufAddr : (rbh.bufAddr >>> 2).toNat * 4 = addr
  addr_eq : rbh.bufAddr.toNat = addr
  bufSize : rbh.bufSize.toNat = size
  small : size < 2 ^ 16
  table : d'.rxDmaTable = d.rxDmaTable
  rings : d'.iregs = d.iregs
  rcrWiPos : d'.rcrWiPos = d.rcrWiPos
  rcrWoiPos : d'.rcrWoiPos = d.rcrWoiPos
  ctrl : physmemCopyU32FromVm d'.mem (addr + 4) = 0
  mem : ∀ a, ¬InRing d rde a → (a < addr + 4 ∨ addr + 12 ≤ a) → d'.mem a = d.mem a

theorem acquire_none (h : d.supply rde = none) : d.acquireRxBuffer rde atmHdr = none := by
  rw [supply] at h
  split at h
  · cases h
  · rename_i hown
    rw [acquireRxBuffer, if_pos (Bool.eq_false_of_not_eq_true hown)]

theorem toNat_bufAddr (d : PaA1Rx) (rde : RxDmaEntry) :
    (d.bufAddr rde).toNat = (d.bufPtr rde).toNat % 2 ^ 30 * 4 := by
  have hmask : (d.bufPtr rde &&& RX_BUFPTR_MASK).toNat = (d.bufPtr rde).toNat % 2 ^ 30 := by
    rw [BitVec.toNat_and]
    exact Nat.and_two_pow_sub_one_eq_mod _ 30
  rw [bufAddr, BitVec.toNat_shiftLeft, hmask, Nat.shiftLeft_eq]
  omega

theorem bufSize_lt (d : PaA1Rx) (rde : RxDmaEntry) : (d.bufSize rde).toNat < 2 ^ 16 := by
  rw [bufSize]
  split
  · have := toNat_and_lowMask (d.iregs REG_TX_PSR_SIZE)
    simp only [RX_DMA_CB_LEN_MASK] at this
    omega
  · simp only [BitVec.toNat_ushiftRight, RX_FBR_BS_SHIFT, Nat.shiftRight_eq_div_pow]
    omega

theorem acquire_some (h : d.supply rde = some (addr, size)) :
    ∃ d' rbh, d.acquireRxBuffer rde atmHdr = some (d', rbh) ∧
      Acquired d rde addr size d' rbh := by
  rw [supply] at h
  split at h
  · rename_i hown
    simp only [Option.some.injEq, Prod.mk.injEq] at h
    obtain ⟨rfl, rfl⟩ := h
    rw [acquireRxBuffer, if_neg (by simp [hown])]
    refine ⟨_, _, rfl, ?_⟩
    constructor
    · have := toNat_bufAddr d rde
      simp only [BitVec.toNat_ushiftRight, Nat.shiftRight_eq_div_pow]
      omega
    · rfl
    · rfl
    · exact bufSize_lt d rde
    · split <;> rfl
    · split <;> rfl
    · split <;> rfl
    · split <;> rfl
    · rw [u32_u32ToVm_disjoint _ (by omega), u32_u32ToVm]
    · intro a hring ha
      refine (copyToVm_of_not_mem (by simp only [length_mHton32]; omega)).trans
        ((copyToVm_of_not_mem (by simp only [length_mHton32]; omega)).trans ?_)
      split
      · rfl
      · rename_i hfifo
        have hout : ¬((d.bpAddr rde).toNat ≤ a ∧ a < (d.bpAddr rde).toNat + 4) := fun hin =>
          hring ⟨Bool.eq_false_of_not_eq_true hfifo, hin⟩
        exact copyToVm_of_not_mem (by simp only [length_mHton32]; omega)
  · cases h

/-! The entry of a channel with a new buffer. -/

theorem counted_insert (h : rbh.bufSize.toNat < 2 ^ 16) : Counted (insertRxFreeBuf rde rbh) := by
  intro htype
  have hlow := and_lowMask h
  have hcount : (rde.aal5Crc &&& 0xFFFF).toNat < 2 ^ 16 := by
    have := toNat_and_lowMask rde.aal5Crc
    simp only [RX_DMA_CB_LEN_MASK] at this
    omega
  have hcb : (insertRxFreeBuf rde rbh).cbLen = ((rde.aal5Crc &&& 0xFFFF) <<< 16) ||| rbh.bufSize := by
    rw [BitVec.or_comm]
    exact if_pos htype
  rw [hcb, high_or (shiftLeft_high _) hlow]
  exact shiftLeft_shiftRight hcount

theorem bufLen_insert (h : rbh.bufSize.toNat < 2 ^ 16) :
    bufLen (insertRxFreeBuf rde rbh) = rbh.bufSize := by
  have hlow := and_lowMask h
  simp only [bufLen, insertRxFreeBuf]
  split
  · rw [BitVec.or_comm]
    exact low_or (shiftLeft_low _) hlow
  · exact hlow

theorem ctrlPtr_eq (h : rde.sbAddr.toNat * 4 = addr) (hlt : addr + 4 < 2 ^ 32) :
    ctrlPtr rde = addr + 4 := by
  have hfour : (4 : BitVec 32).toNat = 4 := rfl
  rw [ctrlPtr, BitVec.toNat_add, BitVec.toNat_shiftLeft, Nat.shiftLeft_eq, hfour]
  omega

variable {d₁ : PaA1Rx}

theorem stored_nil (m : Ram) (addr size : Nat) : Stored m ⟨addr, size, []⟩ := by
  simp [Stored, physmemCopyFromVm]

theorem insert_fields (h : Acquired d rde addr size d₁ rbh) (hbelow : addr + 16 < 2 ^ 32) :
    (insertRxFreeBuf rde rbh).sbAddr.toNat * 4 = addr ∧
      (insertRxFreeBuf rde rbh).cbAddr.toNat = addr + rxBufferSize ∧
        (bufLen (insertRxFreeBuf rde rbh)).toNat = size := by
  have haddr := h.addr_eq
  refine ⟨h.bufAddr, ?_, ?_⟩
  · simp only [insertRxFreeBuf, BitVec.toNat_add, haddr, BitVec.toNat_ofNat, rxBufferSize]
    omega
  · rw [bufLen_insert (by rw [h.bufSize]; exact h.small), h.bufSize]

theorem ofNat_of_toNat {x : BitVec 32} (h : x.toNat * 4 = addr) :
    x = BitVec.ofNat 32 (addr / 4) := by
  apply BitVec.eq_of_toNat_eq
  have hx := x.isLt
  rw [BitVec.toNat_ofNat]
  omega

theorem startPacket_holds (h : Acquired d (d.rxDmaTable i) addr size d₁ rbh)
    (hbelow : addr + rxBufferSize + Atm.payloadSize * size < 2 ^ 32)
    (hawake : hasFlag (d.rxDmaTable i).ctrl RX_DMA_WAIT_EOP = false) :
    Holds (d₁.startPacket i rbh).mem ((d₁.startPacket i rbh).rxDmaTable i) []
      ⟨addr, size, []⟩ := by
  simp only [rxBufferSize] at hbelow
  obtain ⟨hsb, hcb, hlen⟩ := insert_fields h (by omega)
  have hsmall : rbh.bufSize.toNat < 2 ^ 16 := by
    rw [h.bufSize]
    exact h.small
  simp only [startPacket, h.table, setRde_self]
  constructor
  · rw [hasFlag_or]
    exact (Bool.or_eq_true _ _).mpr (Or.inr (by decide))
  · rw [hasFlag_or]
    exact (Bool.or_eq_false_iff).mpr ⟨hawake, by decide⟩
  · exact ofNat_of_toNat hsb
  · exact hsb
  · exact hcb
  · simp only [List.length_nil, Nat.add_zero]
    exact hlen
  · intro htype
    refine counted_insert hsmall ?_
    rw [← htype]
    exact (or_and_of_apart rfl).symm
  · simp
  · intro b hb
    rw [List.mem_singleton.mp hb]
    exact hbelow
  · constructor
    · rw [Linked, ctrlPtr_eq hsb (by omega), u32_u32ToVm]
      rfl
    · intro b hb
      rw [List.mem_singleton.mp hb]
      exact stored_nil _ addr size
    · intro b hb c hc
      rw [List.mem_singleton.mp hb] at hc
      cases hc

/-- The buffers of a packet are apart from the one that a channel is given. -/
structure Fresh (d : PaA1Rx) (rde : RxDmaEntry) (addr size : Nat) (bufs : List (Buf (List Byte))) :
    Prop where
  room : ∀ b ∈ bufs, Apart b.addr (stop b) addr (addr + rxBufferSize + Atm.payloadSize * size)
  ring : ∀ b ∈ bufs, ∀ a, InRing d rde a → a < b.addr ∨ stop b ≤ a

theorem chainBuffer_mem (h : Holds d.mem rde full cur) (hacq : Acquired d rde addr size d₁ rbh)
    {a : Nat} (hring : ¬InRing d rde a) (hnew : a < addr + 4 ∨ addr + 12 ≤ a)
    (hcur : a < cur.addr + 4 ∨ cur.addr + 8 ≤ a) :
    (d₁.chainBuffer i rde rbh).mem a = d.mem a := by
  have hbelow := h.below cur (by simp)
  simp only [stop, rxBufferSize] at hbelow
  have hptr := ctrlPtr_eq h.current (by omega)
  exact (copyToVm_of_not_mem (by simp only [length_mHton32]; omega)).trans (hacq.mem a hring hnew)

/-- A full buffer is chained to a free one. -/
theorem chainBuffer_holds (h : Holds d.mem (d.rxDmaTable i) full cur)
    (hacq : Acquired d (d.rxDmaTable i) addr size d₁ rbh)
    (hbelow : addr + rxBufferSize + Atm.payloadSize * size < 2 ^ 32)
    (hfresh : Fresh d (d.rxDmaTable i) addr size (full ++ [cur]))
    (hfull : cur.cells.length = cur.room) (hapart : ∀ b ∈ full, BufsApart b cur) :
    Holds (d₁.chainBuffer i (d.rxDmaTable i) rbh).mem
      ((d₁.chainBuffer i (d.rxDmaTable i) rbh).rxDmaTable i) (full ++ [cur])
      ⟨addr, size, []⟩ := by
  have hkeep : ∀ b ∈ full ++ [cur], ∀ a, b.addr ≤ a → a < stop b →
      (a < cur.addr + 4 ∨ cur.addr + 8 ≤ a) →
      (d₁.chainBuffer i (d.rxDmaTable i) rbh).mem a = d.mem a := by
    intro b hb a ha ha' hout
    have hroom := hfresh.room b hb
    simp only [Apart, rxBufferSize] at hroom
    refine chainBuffer_mem h hacq (fun hring => ?_) (by omega) hout
    have := hfresh.ring b hb a hring
    omega
  have hcurBelow := h.below cur (by simp)
  have hnewApart := hfresh.room cur (by simp)
  have hstop : cur.addr + 16 ≤ stop cur := by simp only [stop, rxBufferSize]; omega
  simp only [rxBufferSize, Apart] at hbelow hnewApart
  have hptr := ctrlPtr_eq h.current (by omega)
  obtain ⟨hsb, hcb, hlen⟩ := insert_fields hacq (by omega)
  have hsmall : rbh.bufSize.toNat < 2 ^ 16 := by
    rw [hacq.bufSize]
    exact hacq.small
  have hold : physmemCopyU32FromVm d₁.mem (cur.addr + 4) =
      physmemCopyU32FromVm d.mem (cur.addr + 4) := by
    refine u32_congr fun a ha ha' => hacq.mem a (fun hring => ?_) (by omega)
    have := hfresh.ring cur (by simp) a hring
    omega
  have hrde : (d₁.chainBuffer i (d.rxDmaTable i) rbh).rxDmaTable i =
      insertRxFreeBuf (d.rxDmaTable i) rbh := setRde_self
  rw [hrde]
  constructor
  · exact h.act
  · exact h.awake
  · rw [head_append]
    exact h.start
  · exact hsb
  · exact hcb
  · exact hlen
  · exact counted_insert hsmall
  · intro b hb
    rcases List.mem_append.mp hb with hb | hb
    · exact h.filled b hb
    · rw [List.mem_singleton.mp hb, hfull]
  · intro b hb
    rcases List.mem_append.mp hb with hb | hb
    · exact h.below b hb
    · rw [List.mem_singleton.mp hb]
      exact hbelow
  · constructor
    · refine linked_append h.inMemory.linked (fun b hb a ha ha' => ?_) ?_ ?_
      · have := hapart b hb
        simp only [BufsApart, Apart] at this
        simp only [rxBufferSize] at ha'
        have hb' : b.addr + 16 ≤ stop b := by simp only [stop, rxBufferSize]; omega
        exact hkeep b (List.mem_append_left _ hb) a ha (by omega) (by omega)
      · simp only [chainBuffer, hptr, u32_u32ToVm, hold]
        rw [ofNat_of_toNat hsb]
      · simp only [chainBuffer, hptr]
        rw [u32_u32ToVm_disjoint _ (by omega)]
        exact hacq.ctrl
    · intro b hb
      rcases List.mem_append.mp hb with hb | hb
      · refine stored_congr (h.room b hb) (fun a ha ha' => ?_) (h.inMemory.stored b hb)
        have hb' : b.addr + rxBufferSize = b.addr + 16 := rfl
        refine hkeep b hb a (by omega) ha' ?_
        rcases List.mem_append.mp hb with hb | hb
        · have := hapart b hb
          simp only [BufsApart, Apart] at this
          omega
        · rw [List.mem_singleton.mp hb] at ha
          simp only [rxBufferSize] at ha
          omega
      · rw [List.mem_singleton.mp hb]
        exact stored_nil _ addr size
    · intro b hb c hc
      rcases List.mem_append.mp hb with hb | hb
      · exact h.inMemory.whole b hb c hc
      · rw [List.mem_singleton.mp hb] at hc
        cases hc

/-! A cell in its buffer. -/

def fillCell (d : PaA1Rx) (i : Nat) (cell : List Byte) : PaA1Rx :=
  { d.setRde i (countCell (d.rxDmaTable i)) with
    mem := physmemCopyToVm d.mem (payload cell) (d.rxDmaTable i).cbAddr.toNat }

theorem length_payload (h : cell.length = Atm.cellSize) :
    (payload cell).length = Atm.payloadSize := by
  simp only [Atm.cellSize, Atm.hdrSize, Atm.payloadSize] at h
  simp [payload, Atm.hdrSize, Atm.payloadSize, h]

theorem bufLen_countCell (h : 0 < (bufLen rde).toNat) :
    (bufLen (countCell rde)).toNat + 1 = (bufLen rde).toNat := by
  have hlow := toNat_and_lowMask rde.cbLen
  have hone : (1 : BitVec 32).toNat = 1 := rfl
  have hsub : (bufLen rde - 1).toNat = (bufLen rde).toNat - 1 := by
    rw [BitVec.toNat_sub, hone]
    omega
  have hmask : (bufLen rde - 1) &&& RX_DMA_CB_LEN_MASK = bufLen rde - 1 := by
    refine and_lowMask ?_
    rw [hsub]
    simp only [bufLen]
    omega
  have hcount : bufLen (countCell rde) = bufLen rde - 1 := low_or (high_low _) hmask
  rw [hcount, hsub]
  omega

theorem counted_countCell (h : Counted rde) (hpos : 0 < (bufLen rde).toNat) :
    Counted (countCell rde) := by
  intro htype
  have hlow := toNat_and_lowMask rde.cbLen
  have hone : (1 : BitVec 32).toNat = 1 := rfl
  have hmask : (bufLen rde - 1) &&& RX_DMA_CB_LEN_MASK = bufLen rde - 1 := by
    refine and_lowMask ?_
    rw [BitVec.toNat_sub, hone]
    simp only [bufLen] at hpos ⊢
    omega
  have hhigh := high_or (high_high rde.cbLen) hmask
  have hcount := h htype
  simp only [countCell] at hhigh ⊢
  rw [hhigh]
  exact hcount

theorem fillCell_mem {a : Nat} (hcell : cell.length = Atm.cellSize)
    (h : a < (d.rxDmaTable i).cbAddr.toNat ∨ (d.rxDmaTable i).cbAddr.toNat + 48 ≤ a) :
    (d.fillCell i cell).mem a = d.mem a := by
  refine copyToVm_of_not_mem ?_
  rw [length_payload hcell]
  exact h

theorem fillCell_holds (h : Holds d.mem (d.rxDmaTable i) full cur)
    (hroom : cur.cells.length < cur.room) (hcell : cell.length = Atm.cellSize)
    (hapart : ∀ b ∈ full, BufsApart b cur) :
    Holds (d.fillCell i cell).mem ((d.fillCell i cell).rxDmaTable i) full
      (cur.put (payload cell)) := by
  have hleft := h.left
  have hcount := @bufLen_countCell (d.rxDmaTable i) (by omega)
  have hpos := h.pos
  have hbelow := h.below cur (by simp)
  have hmul : Atm.payloadSize * (cur.cells.length + 1) ≤ Atm.payloadSize * cur.room :=
    Nat.mul_le_mul_left _ hroom
  simp only [stop, Nat.mul_add, Nat.mul_one] at hbelow hmul
  have hkeep : ∀ b ∈ full, ∀ a, b.addr ≤ a → a < stop b → (d.fillCell i cell).mem a = d.mem a := by
    intro b hb a ha ha'
    have := hapart b hb
    simp only [BufsApart, Apart, stop] at this ha'
    simp only [Atm.payloadSize] at *
    exact fillCell_mem hcell (by omega)
  have hrde : (d.fillCell i cell).rxDmaTable i = countCell (d.rxDmaTable i) := setRde_self
  rw [hrde]
  constructor
  · exact h.act
  · exact h.awake
  · have hhead : full.head?.getD (cur.put (payload cell)) = full.head?.getD cur ∨
        full = [] := by
      cases full with
      | nil => exact Or.inr rfl
      | cons b full => exact Or.inl rfl
    rcases hhead with hhead | rfl
    · rw [hhead]
      exact h.start
    · exact h.start
  · exact h.current
  · simp only [countCell, BitVec.toNat_add, BitVec.toNat_ofNat, hpos, Buf.put,
      List.length_append, List.length_singleton]
    simp only [Atm.payloadSize] at *
    omega
  · simp only [Buf.put, List.length_append, List.length_singleton]
    omega
  · exact counted_countCell h.count (by omega)
  · exact h.filled
  · intro b hb
    rcases List.mem_append.mp hb with hb | hb
    · exact h.below b (List.mem_append_left _ hb)
    · rw [List.mem_singleton.mp hb, stop_put]
      exact h.below cur (by simp)
  · constructor
    · rw [linked_put, linked_congr fun b hb a ha ha' => ?_]
      · exact h.inMemory.linked
      · rcases List.mem_append.mp hb with hb | hb
        · exact hkeep b hb a ha (by simp only [stop]; omega)
        · rw [List.mem_singleton.mp hb] at ha'
          exact fillCell_mem hcell (by omega)
    · intro b hb
      rcases List.mem_append.mp hb with hb | hb
      · refine stored_congr (h.filled b hb).le (fun a ha ha' => hkeep b hb a ?_ ha')
          (h.inMemory.stored b (List.mem_append_left _ hb))
        omega
      · rw [List.mem_singleton.mp hb]
        refine stored_put (h.inMemory.stored cur (by simp)) (fun a ha => ?_) ?_
        · exact Or.inl (fillCell_mem hcell (by omega))
        · have hread := @copyFromVm_copyToVm d.mem (payload cell) (d.rxDmaTable i).cbAddr.toNat
          rw [length_payload hcell] at hread
          rw [← hpos]
          exact hread
    · intro b hb c hc
      rcases List.mem_append.mp hb with hb | hb
      · exact h.inMemory.whole b (List.mem_append_left _ hb) c hc
      · rw [List.mem_singleton.mp hb] at hc
        rcases List.mem_append.mp hc with hc | hc
        · exact h.inMemory.whole cur (by simp) c hc
        · rw [List.mem_singleton.mp hc]
          exact length_payload hcell

theorem realEop_eq (h : Counted rde) : realEop rde atmHdr =
    if aalType rde = RX_DMA_AAL_CNT then decide ((rde.aal5Crc &&& 0xFFFF).toNat = 1)
    else ptiEop atmHdr := by
  rw [realEop]
  split
  · rename_i htype
    rw [h htype, decide_eq_decide]
    generalize rde.aal5Crc &&& 0xFFFF = count
    bv_omega
  · rfl

/-! The end of a packet. -/

/-- The entry of a completion ring names a packet of the guest, which owns it now. -/
structure Posted (d d' : PaA1Rx) (rde : RxDmaEntry) (cell : List Byte)
    (full : List (Buf (List Byte))) (cur : Buf (List Byte)) : Prop where
  hdr : physmemCopyU32FromVm d'.mem (d.rcrAddr rde).toNat = mNtoh32 cell
  error : physmemCopyU32FromVm d'.mem ((d.rcrAddr rde).toNat + 4) =
    if aalType rde = RX_DMA_AAL_AAL5 then RCR_AAL5 else 0
  packet : physmemCopyU32FromVm d'.mem ((d.rcrAddr rde).toNat + 8) =
    RCR_VALID ||| BitVec.ofNat 32 ((full.head?.getD cur).addr / 4)
  trailer : physmemCopyU32FromVm d'.mem ((d.rcrAddr rde).toNat + 12) =
    mNtoh32 (cell.drop Atm.aal5TrailerPos)
  given : hasFlag (physmemCopyU32FromVm d'.mem ((d.rcrAddr rde).toNat + 16)) RCR_OWN = false
  posWi : d'.rcrWiPos = if hasFlag rde.ctrl RX_DMA_RCR_SELECT then
    nextPos d.rcrWiPos (d.iregs REG_RX_CRING_SIZE &&& RCR_SIZE_MASK) else d.rcrWiPos
  posWoi : d'.rcrWoiPos = if hasFlag rde.ctrl RX_DMA_RCR_SELECT then d.rcrWoiPos else
    nextPos d.rcrWoiPos ((d.iregs REG_RX_CRING_SIZE >>> 16) &&& RCR_SIZE_MASK)
  inMemory : InMemory d'.mem full cur RX_BUFFER_EOP

def InRcr (d : PaA1Rx) (rde : RxDmaEntry) (a : Nat) : Prop :=
  (d.rcrAddr rde).toNat ≤ a ∧ a < (d.rcrAddr rde).toNat + rcrEntrySize

theorem length_rcrEntry (trailer : BitVec 32) :
    ((rcrEntry rde atmHdr trailer 0 true).flatMap mHton32).length = rcrEntrySize := rfl

/-- The last buffer is marked before the packet is posted. -/
def markEop (d : PaA1Rx) (i : Nat) : PaA1Rx :=
  let ptr := ctrlPtr (d.rxDmaTable i)
  { d with
    mem := physmemCopyU32ToVm d.mem ptr (physmemCopyU32FromVm d.mem ptr ||| RX_BUFFER_EOP) }

theorem putCell_eq : d.putCell i cell =
    if realEop (countCell (d.rxDmaTable i)) (mNtoh32 cell) then
      ((d.fillCell i cell).markEop i).updateRxCring i (mNtoh32 cell)
        (mNtoh32 (cell.drop Atm.aal5TrailerPos)) 0 true
    else d.fillCell i cell := by
  have hrde : (d.fillCell i cell).rxDmaTable i = countCell (d.rxDmaTable i) := setRde_self
  rw [markEop, hrde]
  rfl

theorem markEop_mem (h : Holds d.mem (d.rxDmaTable i) full cur) {a : Nat}
    (ha : a < cur.addr + 4 ∨ cur.addr + 8 ≤ a) : (d.markEop i).mem a = d.mem a := by
  have hbelow := h.below cur (by simp)
  simp only [stop, rxBufferSize] at hbelow
  have hptr := ctrlPtr_eq h.current (by omega)
  exact copyToVm_of_not_mem (by simp only [length_mHton32]; omega)

theorem markEop_inMemory (h : Holds d.mem (d.rxDmaTable i) full cur)
    (hapart : ∀ b ∈ full, BufsApart b cur) :
    InMemory (d.markEop i).mem full cur RX_BUFFER_EOP := by
  have hbelow := h.below cur (by simp)
  simp only [stop, rxBufferSize] at hbelow
  have hptr := ctrlPtr_eq h.current (by omega)
  have hkeep : ∀ b ∈ full, ∀ a, b.addr ≤ a → a < stop b → (d.markEop i).mem a = d.mem a := by
    intro b hb a ha ha'
    have := hapart b hb
    simp only [BufsApart, Apart, stop, rxBufferSize] at this ha'
    exact markEop_mem h (by omega)
  constructor
  · have hcur : physmemCopyU32FromVm (d.markEop i).mem (cur.addr + 4) =
        physmemCopyU32FromVm d.mem (cur.addr + 4) ||| RX_BUFFER_EOP := by
      simp only [markEop, hptr]
      exact u32_u32ToVm _ _
    have hlink := linked_last h.inMemory.linked
      (fun b hb a ha ha' => hkeep b hb a ha (by simp only [stop]; omega)) hcur
    exact @BitVec.zero_or 32 RX_BUFFER_EOP ▸ hlink
  · intro b hb
    refine stored_congr (h.room b hb) (fun a ha ha' => ?_) (h.inMemory.stored b hb)
    rcases List.mem_append.mp hb with hb | hb
    · exact hkeep b hb a (by omega) ha'
    · rw [List.mem_singleton.mp hb] at ha
      simp only [rxBufferSize] at ha
      exact markEop_mem h (by omega)
  · exact h.inMemory.whole

theorem advanceRcr_mem : (d.advanceRcr rde).mem = d.mem := by
  rw [advanceRcr]
  split <;> rfl

theorem advanceRcr_table : (d.advanceRcr rde).rxDmaTable = d.rxDmaTable := by
  rw [advanceRcr]
  split <;> rfl

theorem updateRxCring_posted (h : InMemory d.mem full cur RX_BUFFER_EOP)
    (hstart : (d.rxDmaTable i).spPtr = BitVec.ofNat 32 ((full.head?.getD cur).addr / 4))
    (hroom : ∀ b ∈ full ++ [cur], b.cells.length ≤ b.room)
    (hown : d.rcrOwned (d.rxDmaTable i) = true)
    (hrcr : ∀ b ∈ full ++ [cur], ∀ a, InRcr d (d.rxDmaTable i) a → a < b.addr ∨ stop b ≤ a) :
    Posted d (d.updateRxCring i (mNtoh32 cell) (mNtoh32 (cell.drop Atm.aal5TrailerPos)) 0 true)
      (d.rxDmaTable i) cell full cur := by
  rw [updateRxCring, if_neg (by simp [hown])]
  constructor
  · rw [advanceRcr_mem]
    exact @u32_words _ _ 0 _ _ rfl
  · rw [advanceRcr_mem]
    exact (@u32_words _ _ 1 _ _ rfl).trans BitVec.or_zero
  · rw [advanceRcr_mem, ← hstart]
    exact @u32_words _ _ 2 _ _ rfl
  · rw [advanceRcr_mem]
    exact @u32_words _ _ 3 _ _ rfl
  · rw [advanceRcr_mem]
    refine (congrArg (hasFlag · RCR_OWN) (@u32_words _ _ 4 _ _ rfl)).trans ?_
    simp only [ne_eq, not_true_eq_false, if_false, hasFlag_or]
    rw [hasFlag, BitVec.and_assoc]
    simp [RX_DMA_FB_PTR_MASK, RCR_OWN, hasFlag]
  · rw [advanceRcr]
    split <;> rfl
  · rw [advanceRcr]
    split <;> rfl
  · rw [advanceRcr_mem]
    refine h.congr hroom fun b hb a ha ha' => ?_
    refine copyToVm_of_not_mem ?_
    rw [length_rcrEntry]
    by_contra hin
    have := hrcr b hb a ⟨by omega, by omega⟩
    omega

theorem updateRxCring_mem {trailer : BitVec 32} {a : Nat} (ha : ¬InRcr d (d.rxDmaTable i) a) :
    (d.updateRxCring i atmHdr trailer 0 true).mem a = d.mem a := by
  rw [updateRxCring]
  split
  · rfl
  · simp only [advanceRcr_mem]
    refine copyToVm_of_not_mem ?_
    rw [length_rcrEntry]
    simp only [InRcr] at ha
    omega

theorem updateRxCring_others {trailer : BitVec 32} {j : Nat} (hj : j ≠ i) :
    (d.updateRxCring i atmHdr trailer 0 true).rxDmaTable j = d.rxDmaTable j := by
  rw [updateRxCring]
  split
  · rfl
  · simp only [advanceRcr_table]
    exact setRde_of_ne hj

theorem updateRxCring_act {trailer : BitVec 32} (hown : d.rcrOwned (d.rxDmaTable i) = true) :
    hasFlag ((d.updateRxCring i atmHdr trailer 0 true).rxDmaTable i).ctrl RX_DMA_ACT = false := by
  rw [updateRxCring, if_neg (by simp [hown])]
  simp only [advanceRcr_table, setRde_self]
  exact hasFlag_and_not _ _

/-! What does not change. -/

theorem sameSettings_or (rde : RxDmaEntry) {flag : BitVec 32}
    (hselect : flag &&& RX_DMA_RCR_SELECT = 0) (haal : flag &&& RX_DMA_AAL_TYPE_MASK = 0) :
    SameSettings rde { rde with ctrl := rde.ctrl ||| flag } where
  select := by rw [hasFlag, or_and_of_apart hselect, hasFlag]
  aal := or_and_of_apart haal
  crc := rfl
  fbrEntry := rfl

theorem kept_starve (d : PaA1Rx) (i : Nat) : Kept d (d.starve i) i where
  others := fun _ hj => setRde_of_ne hj
  settings := by
    have hrde : (d.starve i).rxDmaTable i =
        { d.rxDmaTable i with ctrl := (d.rxDmaTable i).ctrl ||| RX_DMA_WAIT_EOP } := setRde_self
    rw [hrde]
    exact sameSettings_or _ rfl rfl
  rings := rfl
  rcrWiPos := rfl
  rcrWoiPos := rfl

theorem starve_wait (d : PaA1Rx) (i : Nat) :
    hasFlag ((d.starve i).rxDmaTable i).ctrl RX_DMA_WAIT_EOP = true := by
  have hrde : (d.starve i).rxDmaTable i =
      { d.rxDmaTable i with ctrl := (d.rxDmaTable i).ctrl ||| RX_DMA_WAIT_EOP } := setRde_self
  rw [hrde, hasFlag_or]
  exact (Bool.or_eq_true _ _).mpr (Or.inr (by decide))

theorem kept_startPacket (h : Acquired d (d.rxDmaTable i) addr size d₁ rbh) :
    Kept d (d₁.startPacket i rbh) i where
  others := fun j hj => (setRde_of_ne hj).trans (congrFun h.table j)
  settings := by
    have hrde : (d₁.startPacket i rbh).rxDmaTable i =
        { insertRxFreeBuf (d.rxDmaTable i) rbh with
          spPtr := (insertRxFreeBuf (d.rxDmaTable i) rbh).sbAddr
          ctrl := (d.rxDmaTable i).ctrl ||| RX_DMA_ACT } := by
      rw [← h.table]
      exact setRde_self
    have hflag := @sameSettings_or (d.rxDmaTable i) RX_DMA_ACT rfl rfl
    rw [hrde]
    exact ⟨hflag.select, hflag.aal, rfl, rfl⟩
  rings := h.rings
  rcrWiPos := h.rcrWiPos
  rcrWoiPos := h.rcrWoiPos

theorem startPacket_wait (h : Acquired d (d.rxDmaTable i) addr size d₁ rbh)
    (hwait : hasFlag (d.rxDmaTable i).ctrl RX_DMA_WAIT_EOP = true) :
    hasFlag ((d₁.startPacket i rbh).rxDmaTable i).ctrl RX_DMA_WAIT_EOP = true := by
  simp only [startPacket, setRde_self, h.table]
  rw [hasFlag_or]
  exact (Bool.or_eq_true _ _).mpr (Or.inl hwait)

theorem startPacket_mem (h : Acquired d rde addr size d₁ rbh) (hbelow : addr + 16 < 2 ^ 32)
    {a : Nat} (hring : ¬InRing d rde a) (hnew : a < addr + 4 ∨ addr + 12 ≤ a) :
    (d₁.startPacket i rbh).mem a = d.mem a := by
  have hptr := @ctrlPtr_eq (insertRxFreeBuf (d₁.rxDmaTable i) rbh) addr h.bufAddr (by omega)
  exact (copyToVm_of_not_mem (by simp only [length_mHton32]; omega)).trans (h.mem a hring hnew)

theorem kept_chainBuffer (h : Acquired d (d.rxDmaTable i) addr size d₁ rbh) :
    Kept d (d₁.chainBuffer i (d.rxDmaTable i) rbh) i where
  others := fun j hj => (setRde_of_ne hj).trans (congrFun h.table j)
  settings := by
    have hrde : (d₁.chainBuffer i (d.rxDmaTable i) rbh).rxDmaTable i =
        insertRxFreeBuf (d.rxDmaTable i) rbh := setRde_self
    rw [hrde]
    exact ⟨rfl, rfl, rfl, rfl⟩
  rings := h.rings
  rcrWiPos := h.rcrWiPos
  rcrWoiPos := h.rcrWoiPos

theorem kept_markEop (d : PaA1Rx) (i : Nat) (cell : List Byte) :
    Kept d ((d.fillCell i cell).markEop i) i where
  others := fun _ hj => setRde_of_ne hj
  settings := by
    have hrde : ((d.fillCell i cell).markEop i).rxDmaTable i = countCell (d.rxDmaTable i) :=
      setRde_self
    rw [hrde]
    exact ⟨rfl, rfl, rfl, rfl⟩
  rings := rfl
  rcrWiPos := rfl
  rcrWoiPos := rfl

theorem Kept.rcrAddr (h : Kept d d' i) :
    d'.rcrAddr (d'.rxDmaTable i) = d.rcrAddr (d.rxDmaTable i) := by
  rw [PaA1Rx.rcrAddr, PaA1Rx.rcrAddr, h.settings.select, h.rings, h.rcrWiPos, h.rcrWoiPos]

theorem Posted.of_kept {d'' : PaA1Rx} (h : Kept d d' i)
    (hp : Posted d' d'' (d'.rxDmaTable i) cell full cur) :
    Posted d d'' (d.rxDmaTable i) cell full cur where
  hdr := by rw [← h.rcrAddr]; exact hp.hdr
  error := by rw [← h.rcrAddr, ← h.settings.aal]; exact hp.error
  packet := by rw [← h.rcrAddr]; exact hp.packet
  trailer := by rw [← h.rcrAddr]; exact hp.trailer
  given := by rw [← h.rcrAddr]; exact hp.given
  posWi := by rw [← h.settings.select, ← h.rings, ← h.rcrWiPos]; exact hp.posWi
  posWoi := by rw [← h.settings.select, ← h.rings, ← h.rcrWoiPos]; exact hp.posWoi
  inMemory := hp.inMemory

theorem putCell_last (h : Holds d.mem (d.rxDmaTable i) full cur)
    (hroom : cur.cells.length < cur.room) (hcell : cell.length = Atm.cellSize)
    (hapart : ∀ b ∈ full, BufsApart b cur)
    (hlast : realEop (countCell (d.rxDmaTable i)) (mNtoh32 cell) = true)
    (hown : d.rcrOwned (d.rxDmaTable i) = true)
    (hbelow : (d.rcrAddr (d.rxDmaTable i)).toNat + rcrEntrySize ≤ 2 ^ 32)
    (hrcr : ∀ b ∈ full ++ [cur], ∀ a, InRcr d (d.rxDmaTable i) a → a < b.addr ∨ stop b ≤ a) :
    Posted d (d.putCell i cell) (d.rxDmaTable i) cell full (cur.put (payload cell)) ∧
      hasFlag ((d.putCell i cell).rxDmaTable i).ctrl RX_DMA_ACT = false := by
  have hfill := fillCell_holds h hroom hcell hapart
  have hkept := kept_markEop d i cell
  have hinMem := markEop_inMemory hfill hapart
  have hput : ∀ b ∈ full ++ [cur.put (payload cell)], ∀ a,
      InRcr ((d.fillCell i cell).markEop i) (((d.fillCell i cell).markEop i).rxDmaTable i) a →
        a < b.addr ∨ stop b ≤ a := by
    intro b hb a ha
    simp only [InRcr, hkept.rcrAddr] at ha
    rcases List.mem_append.mp hb with hb | hb
    · exact hrcr b (List.mem_append_left _ hb) a ha
    · rw [List.mem_singleton.mp hb]
      exact hrcr cur (by simp) a ha
  have hsame : ∀ a, InRcr d (d.rxDmaTable i) a →
      ((d.fillCell i cell).markEop i).mem a = d.mem a := by
    intro a ha
    have hout := hrcr cur (by simp) a ha
    have hpos := h.pos
    have hmul : Atm.payloadSize * (cur.cells.length + 1) ≤ Atm.payloadSize * cur.room :=
      Nat.mul_le_mul_left _ hroom
    simp only [stop, rxBufferSize, Atm.payloadSize] at hout hpos hmul
    have haddr := @addr_put cur (payload cell)
    exact (markEop_mem hfill (by omega)).trans (fillCell_mem hcell (by omega))
  have hown' : ((d.fillCell i cell).markEop i).rcrOwned
      (((d.fillCell i cell).markEop i).rxDmaTable i) = true := by
    have hsixteen : (16 : BitVec 32).toNat = 16 := rfl
    rw [rcrOwned, hkept.rcrAddr, u32_congr fun a ha ha' => hsame a ?_]
    · exact hown
    · simp only [rcrEntrySize] at hbelow
      simp only [BitVec.toNat_add, hsixteen] at ha ha'
      simp only [InRcr, rcrEntrySize]
      omega
  have hroom' := hfill.room
  have hstart := hfill.start
  have hpost := @updateRxCring_posted _ i cell full _ hinMem hstart hroom' hown' hput
  rw [putCell_eq, if_pos hlast]
  exact ⟨hpost.of_kept hkept, updateRxCring_act hown'⟩

theorem putCell_mem (h : Holds d.mem (d.rxDmaTable i) full cur)
    (hroom : cur.cells.length < cur.room) (hcell : cell.length = Atm.cellSize)
    (hapart : ∀ b ∈ full, BufsApart b cur) {a : Nat} (ha : a < cur.addr ∨ stop cur ≤ a)
    (hrcr : realEop (countCell (d.rxDmaTable i)) (mNtoh32 cell) = true →
      ¬InRcr d (d.rxDmaTable i) a) : (d.putCell i cell).mem a = d.mem a := by
  have hfill := fillCell_holds h hroom hcell hapart
  have hpos := h.pos
  have hmul : Atm.payloadSize * (cur.cells.length + 1) ≤ Atm.payloadSize * cur.room :=
    Nat.mul_le_mul_left _ hroom
  simp only [stop, rxBufferSize, Atm.payloadSize] at ha hpos hmul
  have hcopy : (d.fillCell i cell).mem a = d.mem a := fillCell_mem hcell (by omega)
  have haddr := @addr_put cur (payload cell)
  rw [putCell_eq]
  split
  · rename_i hlast
    have hkept := kept_markEop d i cell
    rw [updateRxCring_mem, markEop_mem hfill (by omega), hcopy]
    simp only [InRcr, hkept.rcrAddr]
    exact hrcr hlast
  · exact hcopy

theorem putCell_others {j : Nat} (hj : j ≠ i) :
    (d.putCell i cell).rxDmaTable j = d.rxDmaTable j := by
  rw [putCell_eq]
  split
  · exact (updateRxCring_others hj).trans (setRde_of_ne hj)
  · exact setRde_of_ne hj

end PaA1Rx

end Dynamips.PaA1
