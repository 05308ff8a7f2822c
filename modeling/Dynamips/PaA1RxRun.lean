import Dynamips.PaA1RxStep
import Dynamips.Lib.Runs

/-! Every sequence of cells that the TI1570 receives. -/
set_option autoImplicit false

namespace Dynamips.PaA1

open GuestRam Reassembly Runs

namespace PaA1Rx

def rxDmaEntries : Nat := (CTRL_MEM_SIZE - RX_DMA_TABLE_OFFSET) / rxDmaEntrySize

def channel (d : PaA1Rx) (cell : List Byte) : Option Nat :=
  if cell.length = Atm.cellSize then
    (d.rxEntry (mNtoh32 cell)).filter fun i => hasFlag (d.rxDmaTable i).fbrEntry RX_DMA_ON
  else none

/-- Whether a packet ends with its `n`-th cell. -/
def isLast (rde : RxDmaEntry) (atmHdr : BitVec 32) (n : Nat) : Bool :=
  if aalType rde = RX_DMA_AAL_CNT then n = (rde.aal5Crc &&& 0xFFFF).toNat else ptiEop atmHdr

def hostStore (d d' : PaA1Rx) : PaA1Rx :=
  { d' with rcrWiPos := d.rcrWiPos, rcrWoiPos := d.rcrWoiPos, irq := d.irq }

end PaA1Rx

structure Sys where
  d : PaA1Rx
  chans : Nat → Chan (List Byte)

inductive Event where
  | cell (bytes : List Byte)
  | host (d : PaA1Rx)

namespace Sys

variable (s : Sys)

def outcome (i : Nat) (cell : List Byte) :
    Chan (List Byte) × Option (List (Buf (List Byte)) × Buf (List Byte)) :=
  (s.chans i).absorb (PaA1Rx.isLast (s.d.rxDmaTable i) (mNtoh32 cell))
    (s.d.supply (s.d.rxDmaTable i)) (PaA1Rx.payload cell)

def bufsAfter (i : Nat) (cell : List Byte) : List (Buf (List Byte)) :=
  match (s.outcome i cell).2 with
  | some packet => packet.1 ++ [packet.2]
  | none => (s.outcome i cell).1.bufs

def step : Event → Sys
  | .cell bytes =>
    { d := s.d.handleRxCell bytes
      chans := match s.d.channel bytes with
        | some i => Function.update s.chans i (s.outcome i bytes).1
        | none => s.chans }
  | .host d => { s with d := s.d.hostStore d }

/-- A cell is received as it should be on its channel: it is put in the room of a buffer
that was acquired, and a packet is posted once, when its last cell is there. -/
structure CellOk (i : Nat) (cell : List Byte) : Prop where
  room : ∀ b ∈ s.bufsAfter i cell, b.cells.length ≤ b.room
  writes : ∀ a, (s.d.handleRxCell cell).mem a ≠ s.d.mem a →
    s.d.InRing (s.d.rxDmaTable i) a ∨
      (∃ b ∈ s.d.supply (s.d.rxDmaTable i), b.1 ≤ a ∧ a < b.1 + rxBufferSize) ∨
        (∃ b ∈ s.bufsAfter i cell, b.addr ≤ a ∧ a < stop b) ∨
          ((s.outcome i cell).2.isSome ∧ s.d.InRcr (s.d.rxDmaTable i) a)
  posted : ∀ packet, (s.outcome i cell).2 = some packet →
    PaA1Rx.Posted s.d (s.d.handleRxCell cell) (s.d.rxDmaTable i) cell packet.1 packet.2 ∧
      cells (packet.1 ++ [packet.2]) = cells (s.chans i).bufs ++ [PaA1Rx.payload cell]
  silent : (s.outcome i cell).2 = none →
    (s.d.handleRxCell cell).rcrWiPos = s.d.rcrWiPos ∧
      (s.d.handleRxCell cell).rcrWoiPos = s.d.rcrWoiPos

/-- The DMA entry of a cell is in the control memory; without a channel for it nothing
changes. -/
def StepOk : Event → Prop
  | .cell bytes =>
    (∀ i, bytes.length = Atm.cellSize → s.d.rxEntry (mNtoh32 bytes) = some i →
      i < PaA1Rx.rxDmaEntries) ∧
    match s.d.channel bytes with
    | some i => s.CellOk i bytes
    | none => s.d.handleRxCell bytes = s.d
  | .host _ => True

/-! Where the chip does so. -/

/-- A buffer is acquired at the next cell of a channel, if there is one. -/
def Needs (i : Nat) : Prop :=
  hasFlag (s.d.rxDmaTable i).ctrl RX_DMA_ACT = false ∨
    hasFlag (s.d.rxDmaTable i).ctrl RX_DMA_WAIT_EOP = false ∧
      PaA1Rx.bufLen (s.d.rxDmaTable i) = 0

/-- A free buffer has room, and lies apart from the packets that are received and from
the pointer to it. -/
structure SupplyOk (i : Nat) (b : Nat × Nat) : Prop where
  below : b.1 + rxBufferSize + Atm.payloadSize * b.2 < 2 ^ 32
  room : hasFlag (s.d.rxDmaTable i).ctrl RX_DMA_WAIT_EOP = false → b.2 ≠ 0
  fresh : ∀ j, s.d.Fresh (s.d.rxDmaTable i) b.1 b.2 (s.chans j).bufs
  ring : ∀ a, s.d.InRing (s.d.rxDmaTable i) a →
    a < b.1 ∨ b.1 + rxBufferSize + Atm.payloadSize * b.2 ≤ a

/-- A packet can be posted: the next entry of the completion ring belongs to the chip and
lies apart from the packets, and a packet that ends by its count has one cell. -/
structure PostOk (i : Nat) : Prop where
  owned : s.d.rcrOwned (s.d.rxDmaTable i) = true
  count : PaA1Rx.aalType (s.d.rxDmaTable i) = RX_DMA_AAL_CNT →
    ((s.d.rxDmaTable i).aal5Crc &&& 0xFFFF).toNat = 1
  below : (s.d.rcrAddr (s.d.rxDmaTable i)).toNat + rcrEntrySize ≤ 2 ^ 32
  apart : ∀ j, ∀ b ∈ (s.chans j).bufs, ∀ a, s.d.InRcr (s.d.rxDmaTable i) a →
    a < b.addr ∨ stop b ≤ a
  supply : s.Needs i → ∀ b ∈ s.d.supply (s.d.rxDmaTable i), ∀ a,
    s.d.InRcr (s.d.rxDmaTable i) a → (a < b.1 ∨ b.1 + rxBufferSize + Atm.payloadSize * b.2 ≤ a) ∧
      ¬s.d.InRing (s.d.rxDmaTable i) a

/-- No cell of a next packet comes after a starvation, while there is a buffer for it. -/
structure CellCond (i : Nat) (cell : List Byte) : Prop where
  awake : hasFlag (s.d.rxDmaTable i).ctrl RX_DMA_WAIT_EOP = true → s.chans i = .idle →
    s.d.supply (s.d.rxDmaTable i) = none
  supply : s.Needs i → ∀ b ∈ s.d.supply (s.d.rxDmaTable i), s.SupplyOk i b
  post : (s.outcome i cell).2.isSome → s.PostOk i

structure HostCond (d : PaA1Rx) : Prop where
  idle : ∀ i < PaA1Rx.rxDmaEntries, s.chans i = .idle →
    hasFlag (d.rxDmaTable i).ctrl RX_DMA_ACT = true →
      hasFlag (d.rxDmaTable i).ctrl RX_DMA_WAIT_EOP = true
  busy : ∀ i, s.chans i ≠ .idle → d.rxDmaTable i = s.d.rxDmaTable i
  mem : ∀ i, ∀ b ∈ (s.chans i).bufs, ∀ a, b.addr ≤ a → a < stop b → d.mem a = s.d.mem a

def Cond : Event → Prop
  | .cell bytes =>
    (∀ i, bytes.length = Atm.cellSize → s.d.rxEntry (mNtoh32 bytes) = some i →
      i < PaA1Rx.rxDmaEntries) ∧
    ∀ i, s.d.channel bytes = some i → s.CellCond i bytes
  | .host d => s.HostCond d

structure Quiet : Prop where
  idle : ∀ i, s.chans i = .idle
  inactive : ∀ i < PaA1Rx.rxDmaEntries, hasFlag (s.d.rxDmaTable i).ctrl RX_DMA_ACT = false

def RepChan (m : Ram) (rde : RxDmaEntry) : Chan (List Byte) → Prop
  | .idle => hasFlag rde.ctrl RX_DMA_ACT = true → hasFlag rde.ctrl RX_DMA_WAIT_EOP = true
  | .filling full cur => Holds m rde full cur ∧
    (PaA1Rx.aalType rde = RX_DMA_AAL_CNT → (rde.aal5Crc &&& 0xFFFF).toNat ≠ 1)
  | .skipping _ => hasFlag rde.ctrl RX_DMA_WAIT_EOP = true

/-- The packets that the channels should have are in the memory of the guest. -/
structure Rep : Prop where
  chans : ∀ i < PaA1Rx.rxDmaEntries, RepChan s.d.mem (s.d.rxDmaTable i) (s.chans i)
  apart : ∀ i, (s.chans i).bufs.Pairwise BufsApart
  across : ∀ i j, i ≠ j → ∀ b ∈ (s.chans i).bufs, ∀ b' ∈ (s.chans j).bufs, BufsApart b b'

variable {s} {i : Nat} {cell : List Byte} {full : List (Buf (List Byte))} {cur : Buf (List Byte)}

theorem Quiet.rep (h : s.Quiet) : s.Rep where
  chans := by
    intro i hi
    rw [h.idle i]
    intro hact
    rw [h.inactive i hi] at hact
    cases hact
  apart := fun i => by simp [h.idle i, Chan.bufs]
  across := fun i j _ b hb => by simp [h.idle i, Chan.bufs] at hb

theorem RepChan.congr {m m' : Ram} {rde : RxDmaEntry} {ch : Chan (List Byte)}
    (h : RepChan m rde ch) (hmem : ∀ b ∈ ch.bufs, ∀ a, b.addr ≤ a → a < stop b → m' a = m a) :
    RepChan m' rde ch := by
  cases ch with
  | idle => exact h
  | filling full cur => exact ⟨h.1.congr hmem, h.2⟩
  | skipping n => exact h

/-! The buffer of a cell. -/

def Taken (s : Sys) (i : Nat) (a : Nat) : Prop :=
  s.Needs i ∧ ∃ b ∈ s.d.supply (s.d.rxDmaTable i),
    s.d.InRing (s.d.rxDmaTable i) a ∨ b.1 ≤ a ∧ a < b.1 + rxBufferSize

structure Opened (s : Sys) (i : Nat) (full : List (Buf (List Byte))) (cur : Buf (List Byte))
    (d₁ : PaA1Rx) : Prop where
  kept : PaA1Rx.Kept s.d d₁ i
  holds : Holds d₁.mem (d₁.rxDmaTable i) full cur
  room : cur.cells.length < cur.room
  mem : ∀ a, ¬s.Taken i a → (∀ b ∈ full ++ [cur], a < b.addr ∨ stop b ≤ a) →
    d₁.mem a = s.d.mem a

theorem storeRxCell_eq {d : PaA1Rx} (h : Holds d.mem (d.rxDmaTable i) full cur)
    (hroom : cur.cells.length < cur.room) : d.storeRxCell i cell = d.putCell i cell := by
  have hleft := h.left
  have hlen : PaA1Rx.bufLen (d.rxDmaTable i) ≠ 0 := by
    intro heq
    rw [heq] at hleft
    change 0 + _ = _ at hleft
    omega
  rw [PaA1Rx.storeRxCell, if_neg (by simp [h.awake]), if_neg hlen]

theorem not_taken {a addr size : Nat} (hneeds : s.Needs i)
    (hsup : s.d.supply (s.d.rxDmaTable i) = some (addr, size)) (h : ¬s.Taken i a) :
    ¬s.d.InRing (s.d.rxDmaTable i) a ∧ (a < addr ∨ addr + rxBufferSize ≤ a) := by
  simp only [Taken, hsup, Option.mem_some_iff, exists_eq_left', not_and, not_or] at h
  obtain ⟨hring, hnew⟩ := h hneeds
  exact ⟨hring, by omega⟩

theorem opened_start {addr size : Nat}
    (hact : hasFlag (s.d.rxDmaTable i).ctrl RX_DMA_ACT = false)
    (hawake : hasFlag (s.d.rxDmaTable i).ctrl RX_DMA_WAIT_EOP = false)
    (hsup : s.d.supply (s.d.rxDmaTable i) = some (addr, size))
    (hok : s.SupplyOk i (addr, size)) :
    ∃ d₁, s.d.receiveCell i cell = d₁.putCell i cell ∧
      s.Opened i [] ⟨addr, size, []⟩ d₁ := by
  have hroom := hok.room hawake
  have hbelow := hok.below
  simp only [ne_eq] at hroom hbelow
  obtain ⟨d', rbh, hacquire, hacq⟩ :=
    @PaA1Rx.acquire_some s.d (s.d.rxDmaTable i) (mNtoh32 cell) addr size hsup
  have hholds := PaA1Rx.startPacket_holds hacq hbelow hawake
  have hlt : ([] : List (List Byte)).length < size := Nat.pos_of_ne_zero hroom
  refine ⟨d'.startPacket i rbh, ?_, PaA1Rx.kept_startPacket hacq, hholds, hlt, fun a ha hb => ?_⟩
  · rw [PaA1Rx.receiveCell, if_neg (by simp [hact]), hacquire]
    exact storeRxCell_eq hholds hlt
  · obtain ⟨hring, hnew⟩ := not_taken (Or.inl hact) hsup ha
    simp only [rxBufferSize] at hbelow hnew
    exact PaA1Rx.startPacket_mem hacq (by omega) hring (by omega)

theorem opened_chain {addr size : Nat} (hch : s.chans i = .filling full cur)
    (hholds : Holds s.d.mem (s.d.rxDmaTable i) full cur)
    (hapart : (full ++ [cur]).Pairwise BufsApart)
    (hfull : ¬cur.cells.length < cur.room)
    (hsup : s.d.supply (s.d.rxDmaTable i) = some (addr, size))
    (hok : s.SupplyOk i (addr, size)) :
    ∃ d₁, s.d.receiveCell i cell = d₁.putCell i cell ∧
      s.Opened i (full ++ [cur]) ⟨addr, size, []⟩ d₁ := by
  have hroom := hok.room hholds.awake
  have hbelow := hok.below
  have hfresh := hok.fresh i
  have hleft := hholds.left
  rw [hch] at hfresh
  simp only [ne_eq] at hroom hbelow
  have hlen : PaA1Rx.bufLen (s.d.rxDmaTable i) = 0 := by
    apply BitVec.eq_of_toNat_eq
    change _ = 0
    omega
  obtain ⟨d', rbh, hacquire, hacq⟩ :=
    @PaA1Rx.acquire_some s.d (s.d.rxDmaTable i) (mNtoh32 cell) addr size hsup
  have hlt : ([] : List (List Byte)).length < size := Nat.pos_of_ne_zero hroom
  have hnew := PaA1Rx.chainBuffer_holds hholds hacq hbelow hfresh (by omega)
    (fun b hb => (List.pairwise_append.mp hapart).2.2 b hb cur (by simp))
  refine ⟨d'.chainBuffer i (s.d.rxDmaTable i) rbh, ?_, PaA1Rx.kept_chainBuffer hacq, hnew, hlt,
    fun a ha hb => ?_⟩
  · rw [PaA1Rx.receiveCell, if_pos hholds.act, PaA1Rx.storeRxCell, if_neg (by simp [hholds.awake]),
      if_pos hlen, hacquire]
  · obtain ⟨hring, hout⟩ := not_taken (Or.inr ⟨hholds.awake, hlen⟩) hsup ha
    have hcur := hb cur (by simp)
    simp only [stop, rxBufferSize] at hcur hout
    exact PaA1Rx.chainBuffer_mem hholds hacq hring (by omega) (by omega)

theorem opened (hrep : RepChan s.d.mem (s.d.rxDmaTable i) (s.chans i))
    (hapart : (s.chans i).bufs.Pairwise BufsApart) (hcond : s.CellCond i cell)
    (hplace : (s.chans i).place (s.d.supply (s.d.rxDmaTable i)) = some (full, cur)) :
    ∃ d₁, s.d.receiveCell i cell = d₁.putCell i cell ∧ s.Opened i full cur d₁ := by
  cases hch : s.chans i with
  | idle =>
    rw [hch] at hplace hrep
    obtain ⟨⟨addr, size⟩, hsup, heq⟩ := Option.map_eq_some_iff.mp hplace
    cases heq
    have hawake : hasFlag (s.d.rxDmaTable i).ctrl RX_DMA_WAIT_EOP = false := by
      by_contra hwait
      rw [hcond.awake (Bool.eq_true_of_not_eq_false hwait) hch] at hsup
      cases hsup
    have hact : hasFlag (s.d.rxDmaTable i).ctrl RX_DMA_ACT = false := by
      by_contra hact
      have := hrep (Bool.eq_true_of_not_eq_false hact)
      simp [hawake] at this
    exact opened_start hact hawake hsup (hcond.supply (Or.inl hact) _ hsup)
  | filling full' cur' =>
    rw [hch] at hplace hrep hapart
    simp only [Chan.place] at hplace
    split at hplace
    · rename_i hroom
      cases hplace
      refine ⟨s.d, ?_, ⟨fun _ _ => rfl, ⟨rfl, rfl, rfl, rfl⟩, rfl, rfl, rfl⟩, hrep.1, hroom,
        fun _ _ _ => rfl⟩
      rw [PaA1Rx.receiveCell, if_pos hrep.1.act]
      exact storeRxCell_eq hrep.1 hroom
    · rename_i hroom
      obtain ⟨⟨addr, size⟩, hsup, heq⟩ := Option.map_eq_some_iff.mp hplace
      cases heq
      have hleft := hrep.1.left
      have hlen : PaA1Rx.bufLen (s.d.rxDmaTable i) = 0 := by
        apply BitVec.eq_of_toNat_eq
        change _ = 0
        omega
      exact opened_chain hch hrep.1 hapart hroom hsup
        (hcond.supply (Or.inr ⟨hrep.1.awake, hlen⟩) _ hsup)
  | skipping n =>
    rw [hch] at hplace
    cases hplace

/-- Where a channel has none, the chip waits for the end of the packet. -/
theorem refused (hrep : RepChan s.d.mem (s.d.rxDmaTable i) (s.chans i))
    (hcond : s.CellCond i cell)
    (hplace : (s.chans i).place (s.d.supply (s.d.rxDmaTable i)) = none) :
    PaA1Rx.Kept s.d (s.d.receiveCell i cell) i ∧
      hasFlag ((s.d.receiveCell i cell).rxDmaTable i).ctrl RX_DMA_WAIT_EOP = true ∧
        ∀ a, ¬s.Taken i a → (s.d.receiveCell i cell).mem a = s.d.mem a := by
  have hkept : PaA1Rx.Kept s.d s.d i := ⟨fun _ _ => rfl, ⟨rfl, rfl, rfl, rfl⟩, rfl, rfl, rfl⟩
  cases hwait : hasFlag (s.d.rxDmaTable i).ctrl RX_DMA_WAIT_EOP with
  | true =>
    cases hact : hasFlag (s.d.rxDmaTable i).ctrl RX_DMA_ACT with
    | true =>
      rw [PaA1Rx.receiveCell, if_pos hact, PaA1Rx.storeRxCell, if_pos hwait]
      exact ⟨hkept, hwait, fun _ _ => rfl⟩
    | false =>
      rw [PaA1Rx.receiveCell, if_neg (by simp [hact])]
      cases hsup : s.d.supply (s.d.rxDmaTable i) with
      | none =>
        rw [PaA1Rx.acquire_none hsup]
        exact ⟨PaA1Rx.kept_starve _ _, PaA1Rx.starve_wait _ _, fun _ _ => rfl⟩
      | some b =>
        obtain ⟨addr, size⟩ := b
        obtain ⟨d', rbh, hacquire, hacq⟩ :=
          @PaA1Rx.acquire_some s.d (s.d.rxDmaTable i) (mNtoh32 cell) addr size hsup
        have hwait' := PaA1Rx.startPacket_wait hacq hwait
        have hbelow := (hcond.supply (Or.inl hact) _ hsup).below
        simp only [rxBufferSize] at hbelow
        rw [hacquire]
        simp only [PaA1Rx.storeRxCell, if_pos hwait']
        refine ⟨PaA1Rx.kept_startPacket hacq, hwait', fun a ha => ?_⟩
        obtain ⟨hring, hnew⟩ := not_taken (Or.inl hact) hsup ha
        simp only [rxBufferSize] at hnew
        exact PaA1Rx.startPacket_mem hacq (by omega) hring (by omega)
  | false =>
    have hstarve : s.d.receiveCell i cell = s.d.starve i := by
      cases hch : s.chans i with
      | idle =>
        rw [hch] at hplace hrep
        have hsup := Option.map_eq_none_iff.mp hplace
        have hact : hasFlag (s.d.rxDmaTable i).ctrl RX_DMA_ACT = false := by
          by_contra hact
          have := hrep (Bool.eq_true_of_not_eq_false hact)
          simp [hwait] at this
        rw [PaA1Rx.receiveCell, if_neg (by simp [hact]), PaA1Rx.acquire_none hsup]
      | filling full cur =>
        rw [hch] at hplace hrep
        simp only [Chan.place] at hplace
        split at hplace
        · cases hplace
        · rename_i hroom
          have hsup := Option.map_eq_none_iff.mp hplace
          have hleft := hrep.1.left
          have hlen : PaA1Rx.bufLen (s.d.rxDmaTable i) = 0 := by
            apply BitVec.eq_of_toNat_eq
            change _ = 0
            omega
          rw [PaA1Rx.receiveCell, if_pos hrep.1.act, PaA1Rx.storeRxCell, if_neg (by simp [hwait]),
            if_pos hlen, PaA1Rx.acquire_none hsup]
      | skipping n =>
        rw [hch] at hrep
        exact absurd (hwait.symm.trans hrep) (by simp)
    rw [hstarve]
    exact ⟨PaA1Rx.kept_starve _ _, PaA1Rx.starve_wait _ _, fun _ _ => rfl⟩

/-! A cell on its channel. -/

theorem place_cases (hrep : RepChan s.d.mem (s.d.rxDmaTable i) (s.chans i))
    (hcond : s.CellCond i cell)
    (hplace : (s.chans i).place (s.d.supply (s.d.rxDmaTable i)) = some (full, cur)) :
    full ++ [cur] = (s.chans i).bufs ∨
      s.Needs i ∧ ∃ x ∈ s.d.supply (s.d.rxDmaTable i), full = (s.chans i).bufs ∧
        cur = ⟨x.1, x.2, []⟩ := by
  cases hch : s.chans i with
  | idle =>
    rw [hch] at hplace hrep
    obtain ⟨x, hsup, heq⟩ := Option.map_eq_some_iff.mp hplace
    cases heq
    refine Or.inr ⟨?_, x, hsup, rfl, rfl⟩
    left
    by_contra hact
    have hwait := hrep (Bool.eq_true_of_not_eq_false hact)
    rw [hcond.awake hwait hch] at hsup
    cases hsup
  | filling full' cur' =>
    rw [hch] at hplace hrep
    simp only [Chan.place] at hplace
    split at hplace
    · cases hplace
      exact Or.inl rfl
    · rename_i hroom
      obtain ⟨x, hsup, heq⟩ := Option.map_eq_some_iff.mp hplace
      cases heq
      have hleft := hrep.1.left
      refine Or.inr ⟨Or.inr ⟨hrep.1.awake, ?_⟩, x, hsup, rfl, rfl⟩
      apply BitVec.eq_of_toNat_eq
      change _ = 0
      omega
  | skipping n =>
    rw [hch] at hplace
    cases hplace

theorem place_mem (hrep : RepChan s.d.mem (s.d.rxDmaTable i) (s.chans i))
    (hcond : s.CellCond i cell)
    (hplace : (s.chans i).place (s.d.supply (s.d.rxDmaTable i)) = some (full, cur))
    {b : Buf (List Byte)} (hb : b ∈ full ++ [cur]) : b ∈ (s.chans i).bufs ∨
      s.Needs i ∧ ∃ x ∈ s.d.supply (s.d.rxDmaTable i), b = ⟨x.1, x.2, []⟩ := by
  rcases place_cases hrep hcond hplace with hbufs | ⟨hneeds, x, hsup, rfl, rfl⟩
  · rw [hbufs] at hb
    exact Or.inl hb
  · cases List.mem_append.mp hb with
    | inl hold => exact Or.inl hold
    | inr hnew => exact Or.inr ⟨hneeds, x, hsup, List.mem_singleton.mp hnew⟩

theorem place_apart (hrep : s.Rep) (hcond : s.CellCond i cell) (hi : i < PaA1Rx.rxDmaEntries)
    (hplace : (s.chans i).place (s.d.supply (s.d.rxDmaTable i)) = some (full, cur)) :
    (full ++ [cur]).Pairwise BufsApart ∧
      ∀ j, j ≠ i → ∀ b ∈ full ++ [cur], ∀ b' ∈ (s.chans j).bufs, BufsApart b' b := by
  have hapart := hrep.apart i
  rcases place_cases (hrep.chans i hi) hcond hplace with hbufs | ⟨hneeds, x, hsup, rfl, rfl⟩
  · rw [hbufs]
    exact ⟨hapart, fun j hj b hb b' hb' => hrep.across j i hj b' hb' b hb⟩
  · have hnew : ∀ j, ∀ b' ∈ (s.chans j).bufs, BufsApart b' ⟨x.1, x.2, []⟩ :=
      fun j => ((hcond.supply hneeds x hsup).fresh j).room
    constructor
    · refine List.pairwise_append.mpr ⟨hapart, by simp, fun b hb b' hb' => ?_⟩
      rw [List.mem_singleton.mp hb']
      exact hnew i b hb
    · intro j hj b hb b' hb'
      cases List.mem_append.mp hb with
      | inl hold => exact hrep.across j i hj b' hb' b hold
      | inr hfree =>
        rw [List.mem_singleton.mp hfree]
        exact hnew j b' hb'

theorem realEop_isLast {d₁ : PaA1Rx} (hopen : s.Opened i full cur d₁)
    (hrep : RepChan s.d.mem (s.d.rxDmaTable i) (s.chans i))
    (hplace : (s.chans i).place (s.d.supply (s.d.rxDmaTable i)) = some (full, cur))
    (hpost : PaA1Rx.isLast (s.d.rxDmaTable i) (mNtoh32 cell) ((s.chans i).seen + 1) = true →
      s.PostOk i) :
    PaA1Rx.realEop (PaA1Rx.countCell (d₁.rxDmaTable i)) (mNtoh32 cell) =
      PaA1Rx.isLast (s.d.rxDmaTable i) (mNtoh32 cell) ((s.chans i).seen + 1) := by
  have hleft := hopen.holds.left
  have hroom := hopen.room
  have hcount := PaA1Rx.counted_countCell hopen.holds.count (by omega)
  have haal : PaA1Rx.aalType (PaA1Rx.countCell (d₁.rxDmaTable i)) =
      PaA1Rx.aalType (s.d.rxDmaTable i) := hopen.kept.settings.aal
  have hcrc : (PaA1Rx.countCell (d₁.rxDmaTable i)).aal5Crc = (s.d.rxDmaTable i).aal5Crc :=
    hopen.kept.settings.crc
  rw [PaA1Rx.realEop_eq hcount, haal, hcrc, PaA1Rx.isLast]
  split
  · rename_i htype
    rw [decide_eq_decide]
    constructor
    · intro hone
      cases hch : s.chans i with
      | idle => exact hone.symm
      | filling full' cur' =>
        rw [hch] at hrep
        exact absurd hone (hrep.2 htype)
      | skipping n =>
        rw [hch] at hplace
        cases hplace
    · intro hlast
      exact (hpost (by rw [PaA1Rx.isLast, if_pos htype, decide_eq_true_iff]; exact hlast)).count htype
  · rfl

structure Received (s : Sys) (i : Nat) (cell : List Byte) (d' : PaA1Rx) : Prop where
  others : ∀ j, j ≠ i → d'.rxDmaTable j = s.d.rxDmaTable j
  mem : ∀ a, ¬s.Taken i a → (∀ b ∈ s.bufsAfter i cell, a < b.addr ∨ stop b ≤ a) →
    ((s.outcome i cell).2.isSome → ¬s.d.InRcr (s.d.rxDmaTable i) a) → d'.mem a = s.d.mem a
  rep : RepChan d'.mem (d'.rxDmaTable i) (s.outcome i cell).1
  room : ∀ b ∈ s.bufsAfter i cell, b.cells.length ≤ b.room
  apart : (s.bufsAfter i cell).Pairwise BufsApart
  across : ∀ j, j ≠ i → ∀ b ∈ s.bufsAfter i cell, ∀ b' ∈ (s.chans j).bufs, BufsApart b' b
  posted : ∀ packet, (s.outcome i cell).2 = some packet →
    PaA1Rx.Posted s.d d' (s.d.rxDmaTable i) cell packet.1 packet.2
  silent : (s.outcome i cell).2 = none →
    d'.rcrWiPos = s.d.rcrWiPos ∧ d'.rcrWoiPos = s.d.rcrWoiPos

theorem received_refused (hrep : s.Rep) (hcond : s.CellCond i cell) (hi : i < PaA1Rx.rxDmaEntries)
    (hplace : (s.chans i).place (s.d.supply (s.d.rxDmaTable i)) = none) :
    s.Received i cell (s.d.receiveCell i cell) := by
  obtain ⟨hkept, hwait, hmem⟩ := refused (hrep.chans i hi) hcond hplace
  have hout : s.outcome i cell = (if PaA1Rx.isLast (s.d.rxDmaTable i) (mNtoh32 cell)
      ((s.chans i).seen + 1) then .idle else .skipping ((s.chans i).seen + 1), none) :=
    absorb_of_none hplace
  have hbufs : s.bufsAfter i cell = [] := by
    rw [bufsAfter, hout]
    simp only
    split <;> rfl
  constructor
  · exact hkept.others
  · exact fun a ha _ _ => hmem a ha
  · rw [hout]
    simp only
    split
    · exact fun _ => hwait
    · exact hwait
  · simp [hbufs]
  · simp [hbufs]
  · simp [hbufs]
  · intro packet hp
    rw [hout] at hp
    cases hp
  · exact fun _ => ⟨hkept.rcrWiPos, hkept.rcrWoiPos⟩

theorem rcr_apart (hrep : RepChan s.d.mem (s.d.rxDmaTable i) (s.chans i))
    (hcond : s.CellCond i cell)
    (hplace : (s.chans i).place (s.d.supply (s.d.rxDmaTable i)) = some (full, cur))
    (hpost : s.PostOk i) {a : Nat} (ha : s.d.InRcr (s.d.rxDmaTable i) a) :
    ¬s.Taken i a ∧ ∀ b ∈ full ++ [cur], a < b.addr ∨ stop b ≤ a := by
  constructor
  · rintro ⟨hneeds, b, hb, htaken⟩
    have hout := hpost.supply hneeds b hb a ha
    rcases htaken with hring | hnew
    · exact hout.2 hring
    · omega
  · intro b hb
    rcases place_mem hrep hcond hplace hb with hold | ⟨hneeds, x, hx, rfl⟩
    · exact hpost.apart i b hold a ha
    · exact (hpost.supply hneeds x hx a ha).1

theorem received_opened (hrep : s.Rep) (hcond : s.CellCond i cell) (hi : i < PaA1Rx.rxDmaEntries)
    (hcell : cell.length = Atm.cellSize)
    (hplace : (s.chans i).place (s.d.supply (s.d.rxDmaTable i)) = some (full, cur)) :
    s.Received i cell (s.d.receiveCell i cell) := by
  have hchan := hrep.chans i hi
  obtain ⟨d₁, hreceive, hopen⟩ := opened hchan (hrep.apart i) hcond hplace
  obtain ⟨hapart, hacross⟩ := place_apart hrep hcond hi hplace
  have hcur : ∀ b ∈ full, BufsApart b cur := fun b hb =>
    (List.pairwise_append.mp hapart).2.2 b hb cur (by simp)
  have hfill := PaA1Rx.fillCell_holds hopen.holds hopen.room hcell hcur
  have hput : ∀ b ∈ full ++ [cur.put (PaA1Rx.payload cell)],
      ∃ b' ∈ full ++ [cur], b.addr = b'.addr ∧ stop b = stop b' := by
    intro b hb
    rcases List.mem_append.mp hb with hb | hb
    · exact ⟨b, List.mem_append_left _ hb, rfl, rfl⟩
    · rw [List.mem_singleton.mp hb]
      exact ⟨cur, by simp, rfl, rfl⟩
  have hpairwise : (full ++ [cur.put (PaA1Rx.payload cell)]).Pairwise BufsApart :=
    List.pairwise_append.mpr ⟨(List.pairwise_append.mp hapart).1, by simp, fun x hx y hy => by
      rw [List.mem_singleton.mp hy]
      exact hcur x hx⟩
  have hothers : ∀ j, j ≠ i → ∀ b ∈ full ++ [cur.put (PaA1Rx.payload cell)],
      ∀ b' ∈ (s.chans j).bufs, BufsApart b' b := by
    intro j hj b hb b' hb'
    obtain ⟨x, hx, haddr, hstop⟩ := hput b hb
    rw [BufsApart, haddr, hstop]
    exact hacross j hj x hx b' hb'
  have hopenMem : ∀ a, ¬s.Taken i a →
      (∀ b ∈ full ++ [cur.put (PaA1Rx.payload cell)], a < b.addr ∨ stop b ≤ a) →
      d₁.mem a = s.d.mem a ∧ (a < cur.addr ∨ stop cur ≤ a) := by
    intro a ha hb
    refine ⟨hopen.mem a ha fun b hb' => ?_, hb (cur.put (PaA1Rx.payload cell)) (by simp)⟩
    rcases List.mem_append.mp hb' with hb' | hb'
    · exact hb b (List.mem_append_left _ hb')
    · rw [List.mem_singleton.mp hb']
      exact hb (cur.put (PaA1Rx.payload cell)) (by simp)
  cases hlast : PaA1Rx.isLast (s.d.rxDmaTable i) (mNtoh32 cell) ((s.chans i).seen + 1) with
  | true =>
    have hout : s.outcome i cell = (.idle, some (full, cur.put (PaA1Rx.payload cell))) :=
      absorb_of_last hplace hlast
    have hbufs : s.bufsAfter i cell = full ++ [cur.put (PaA1Rx.payload cell)] := by
      rw [bufsAfter, hout]
    have hpost := hcond.post (by rw [hout]; rfl)
    have hreal := (realEop_isLast hopen hchan hplace fun _ => hpost).trans hlast
    have hrcr : ∀ a, d₁.InRcr (d₁.rxDmaTable i) a → s.d.InRcr (s.d.rxDmaTable i) a := by
      intro a ha
      rwa [PaA1Rx.InRcr, hopen.kept.rcrAddr] at ha
    have hown : d₁.rcrOwned (d₁.rxDmaTable i) = true := by
      have hsixteen : (16 : BitVec 32).toNat = 16 := rfl
      have hbelow := hpost.below
      simp only [rcrEntrySize] at hbelow
      rw [PaA1Rx.rcrOwned, hopen.kept.rcrAddr, u32_congr fun a ha ha' => ?_]
      · exact hpost.owned
      · simp only [BitVec.toNat_add, hsixteen] at ha ha'
        have hin : s.d.InRcr (s.d.rxDmaTable i) a := by
          simp only [PaA1Rx.InRcr, rcrEntrySize]
          omega
        obtain ⟨htaken, hout'⟩ := rcr_apart hchan hcond hplace hpost hin
        exact hopen.mem a htaken hout'
    obtain ⟨hposted, hact⟩ := PaA1Rx.putCell_last hopen.holds hopen.room hcell hcur hreal hown
      (by rw [hopen.kept.rcrAddr]; exact hpost.below)
      (fun b hb a ha => (rcr_apart hchan hcond hplace hpost (hrcr a ha)).2 b hb)
    rw [hreceive]
    constructor
    · intro j hj
      rw [PaA1Rx.putCell_others hj, hopen.kept.others j hj]
    · intro a ha hb hr
      rw [hbufs] at hb
      obtain ⟨hsame, hout'⟩ := hopenMem a ha hb
      rw [PaA1Rx.putCell_mem hopen.holds hopen.room hcell hcur hout'
        (fun _ hin => hr (by rw [hout]; rfl) (hrcr a hin)), hsame]
    · rw [hout]
      intro h
      rw [hact] at h
      cases h
    · rw [hbufs]
      exact hfill.room
    · rw [hbufs]
      exact hpairwise
    · rw [hbufs]
      exact hothers
    · intro packet hp
      rw [hout] at hp
      cases hp
      exact hposted.of_kept hopen.kept
    · intro hnone
      rw [hout] at hnone
      cases hnone
  | false =>
    have hout : s.outcome i cell = (.filling full (cur.put (PaA1Rx.payload cell)), none) :=
      absorb_of_more hplace hlast
    have hbufs : s.bufsAfter i cell = full ++ [cur.put (PaA1Rx.payload cell)] := by
      rw [bufsAfter, hout]
      rfl
    have hreal := (realEop_isLast hopen hchan hplace
      fun h => absurd h (by simp [hlast])).trans hlast
    have hsettings := hopen.kept.settings
    have heq : d₁.putCell i cell = d₁.fillCell i cell := by
      rw [PaA1Rx.putCell_eq, if_neg (by simp [hreal])]
    rw [hreceive]
    constructor
    · intro j hj
      rw [PaA1Rx.putCell_others hj, hopen.kept.others j hj]
    · intro a ha hb _
      rw [hbufs] at hb
      obtain ⟨hsame, hout'⟩ := hopenMem a ha hb
      rw [PaA1Rx.putCell_mem hopen.holds hopen.room hcell hcur hout'
        (fun h => absurd h (by simp [hreal])), hsame]
    · rw [hout, heq]
      refine ⟨hfill, fun htype => ?_⟩
      have hrde : (d₁.fillCell i cell).rxDmaTable i = PaA1Rx.countCell (d₁.rxDmaTable i) :=
        PaA1Rx.setRde_self
      rw [hrde] at htype ⊢
      have htype' := hsettings.aal.symm.trans htype
      change ((d₁.rxDmaTable i).aal5Crc &&& 0xFFFF).toNat ≠ 1
      rw [hsettings.crc]
      cases hch : s.chans i with
      | idle =>
        rw [hch, PaA1Rx.isLast, if_pos htype'] at hlast
        exact fun hone => of_decide_eq_false hlast hone.symm
      | filling full' cur' =>
        rw [hch] at hchan
        exact hchan.2 htype'
      | skipping n =>
        rw [hch] at hplace
        cases hplace
    · rw [hbufs]
      exact hfill.room
    · rw [hbufs]
      exact hpairwise
    · rw [hbufs]
      exact hothers
    · intro packet hp
      rw [hout] at hp
      cases hp
    · rw [heq]
      exact fun _ => ⟨hopen.kept.rcrWiPos, hopen.kept.rcrWoiPos⟩

theorem received (hrep : s.Rep) (hcond : s.CellCond i cell) (hi : i < PaA1Rx.rxDmaEntries)
    (hcell : cell.length = Atm.cellSize) : s.Received i cell (s.d.receiveCell i cell) := by
  cases hplace : (s.chans i).place (s.d.supply (s.d.rxDmaTable i)) with
  | none => exact received_refused hrep hcond hi hplace
  | some place => exact received_opened hrep hcond hi hcell hplace

/-! Every sequence of cells. -/

theorem handleRxCell_channel (h : s.d.channel cell = some i) :
    cell.length = Atm.cellSize ∧ s.d.rxEntry (mNtoh32 cell) = some i ∧
      s.d.handleRxCell cell = s.d.receiveCell i cell := by
  rw [PaA1Rx.channel] at h
  split at h
  · rename_i hlen
    obtain ⟨hentry, hon⟩ := Option.filter_eq_some_iff.mp h
    refine ⟨hlen, hentry, ?_⟩
    rw [PaA1Rx.handleRxCell, if_neg (by simp [hlen]), hentry]
    simp only [hon, Bool.true_eq_false, if_false]
  · cases h

theorem handleRxCell_none (h : s.d.channel cell = none) : s.d.handleRxCell cell = s.d := by
  rw [PaA1Rx.handleRxCell]
  split
  · rfl
  · rename_i hlen
    rw [PaA1Rx.channel, if_pos (not_not.mp hlen)] at h
    cases hentry : s.d.rxEntry (mNtoh32 cell) with
    | none => rfl
    | some i =>
      rw [hentry, Option.filter_eq_none_iff] at h
      simp only [Bool.eq_false_of_not_eq_true (h i rfl), if_true]

theorem cellOk (hrep : s.Rep) (hcond : s.CellCond i cell) (hi : i < PaA1Rx.rxDmaEntries)
    (h : s.d.channel cell = some i) : s.CellOk i cell := by
  obtain ⟨hlen, _, hhandle⟩ := handleRxCell_channel h
  have hrec := received hrep hcond hi hlen
  rw [← hhandle] at hrec
  constructor
  · exact hrec.room
  · intro a hne
    by_contra hout
    simp only [not_or, not_exists, not_and] at hout
    obtain ⟨hring, hnew, hbufs, hrcr⟩ := hout
    refine hne (hrec.mem a ?_ (fun b hb => ?_) hrcr)
    · rintro ⟨_, b, hb, hin | hin⟩
      · exact hring hin
      · exact hnew b hb hin.1 hin.2
    · have := hbufs b hb
      omega
  · intro packet hp
    exact ⟨hrec.posted packet hp, cells_absorb hp⟩
  · exact hrec.silent

theorem rep_cell (hrep : s.Rep) (hcond : s.CellCond i cell) (hi : i < PaA1Rx.rxDmaEntries)
    (h : s.d.channel cell = some i) : (s.step (.cell cell)).Rep := by
  obtain ⟨hlen, _, hhandle⟩ := handleRxCell_channel h
  have hrec := received hrep hcond hi hlen
  rw [← hhandle] at hrec
  have hd : (s.step (.cell cell)).d = s.d.handleRxCell cell := rfl
  have hchans : (s.step (.cell cell)).chans = Function.update s.chans i (s.outcome i cell).1 := by
    simp only [step, h]
  have hself : (s.step (.cell cell)).chans i = (s.outcome i cell).1 := by
    rw [hchans, Function.update_self]
  have hother : ∀ j, j ≠ i → (s.step (.cell cell)).chans j = s.chans j := by
    intro j hj
    rw [hchans, Function.update_of_ne hj]
  -- a posted packet leaves its channel
  have hsub : ∀ b ∈ (s.outcome i cell).1.bufs, b ∈ s.bufsAfter i cell := by
    intro b hb
    rw [bufsAfter]
    split
    · rename_i packet hp
      obtain ⟨hch, _⟩ := absorb_posted hp
      rw [outcome, hch] at hb
      cases hb
    · exact hb
  have hpairwise : (s.outcome i cell).1.bufs.Pairwise BufsApart := by
    cases hp : (s.outcome i cell).2 with
    | some packet =>
      rw [outcome, (absorb_posted hp).1]
      exact List.Pairwise.nil
    | none =>
      have hapart := hrec.apart
      rw [bufsAfter, hp] at hapart
      exact hapart
  constructor
  · intro j hj
    rw [hd]
    by_cases hji : j = i
    · subst hji
      rw [hself]
      exact hrec.rep
    · rw [hother j hji, hrec.others j hji]
      refine (hrep.chans j hj).congr fun b hb a ha ha' => hrec.mem a ?_ (fun x hx => ?_) ?_
      · rintro ⟨hneeds, x, hx, htaken⟩
        have hok := hcond.supply hneeds x hx
        rcases htaken with hin | hin
        · have := (hok.fresh j).ring b hb a hin
          omega
        · have := (hok.fresh j).room b hb
          simp only [Apart, rxBufferSize] at this hin
          omega
      · have := hrec.across j hji x hx b hb
        simp only [BufsApart, Apart] at this
        omega
      · intro hp hin
        have := (hcond.post hp).apart j b hb a hin
        omega
  · intro j
    by_cases hji : j = i
    · subst hji
      rw [hself]
      exact hpairwise
    · rw [hother j hji]
      exact hrep.apart j
  · intro j k hjk b hb b' hb'
    by_cases hji : j = i
    · subst hji
      rw [hself] at hb
      rw [hother k (Ne.symm hjk)] at hb'
      exact (hrec.across k (Ne.symm hjk) b (hsub b hb) b' hb').symm
    · rw [hother j hji] at hb
      by_cases hki : k = i
      · subst hki
        rw [hself] at hb'
        exact hrec.across j hjk b' (hsub b' hb') b hb
      · rw [hother k hki] at hb'
        exact hrep.across j k hjk b hb b' hb'

theorem rep_host {d : PaA1Rx} (hrep : s.Rep) (h : s.HostCond d) : (s.step (.host d)).Rep where
  chans := by
    intro i hi
    change RepChan d.mem (d.rxDmaTable i) (s.chans i)
    by_cases hidle : s.chans i = .idle
    · rw [hidle]
      exact h.idle i hi hidle
    · rw [h.busy i hidle]
      exact (hrep.chans i hi).congr (h.mem i)
  apart := hrep.apart
  across := hrep.across

theorem step_ok (hrep : s.Rep) {e : Event} (hcond : s.Cond e) : s.StepOk e ∧ (s.step e).Rep := by
  cases e with
  | cell bytes =>
    refine ⟨⟨hcond.1, ?_⟩, ?_⟩
    · split
      · rename_i i h
        exact cellOk hrep (hcond.2 i h) (hcond.1 i (handleRxCell_channel h).1
          (handleRxCell_channel h).2.1) h
      · rename_i h
        exact handleRxCell_none h
    · cases h : s.d.channel bytes with
      | none =>
        have heq : s.step (.cell bytes) = s := by
          simp only [step, h, handleRxCell_none h]
        rw [heq]
        exact hrep
      | some i =>
        exact rep_cell hrep (hcond.2 i h) (hcond.1 i (handleRxCell_channel h).1
          (handleRxCell_channel h).2.1) h
  | host d => exact ⟨trivial, rep_host hrep hcond⟩

/-- Cells are received as they should be in every run whose steps all meet the condition. -/
theorem received_of_cond {s : Sys} (hquiet : s.Quiet) {events : List Event}
    (hcond : AllSteps Cond (history step s events)) :
    AllSteps StepOk (history step s events) := by
  have hstep : ∀ t e t', Rep t → t.Cond e → t' = step t e → Rep t' := by
    intro t e t' ht hok heq
    rw [heq]
    exact (step_ok ht hok).2
  have halways := (run_history step s events).invariant hstep hquiet.rep hcond
  intro x hx
  exact (step_ok (halways.2 x hx) (hcond x hx)).1

/-! One channel, for VCI 5, with buffers of four cells. -/

/-- A cell of the channel, with the payload type bits of its header. -/
def vciCell (pti : Byte) : List Byte := [0, 0, 0, 0x50 ||| pti, 0] ++ List.replicate 48 7

def oneChannel (ctrl crc : BitVec 32) : Sys where
  d :=
    { mem := physmemCopyU32ToVm (physmemCopyU32ToVm (fun _ => 0) 0x1000 0x80000800) 0x4010
        0x80000000
      iregs := fun r => if r = REG_RCR_WOI_ADDR then 0x4000 else
        if r = REG_RX_CRING_SIZE then 0x00010000 else 0
      rxVpiVciDmaTable := fun _ => 0x880000FF
      rxDmaTable := fun i => if i = 5 then ⟨ctrl, 0, 0, 0, 0, crc, 0x80000000⟩
        else ⟨0, 0, 0, 0, 0, 0, 0⟩
      rxFbrTable := fun _ => ⟨0x1000, 0x00040000⟩
      rcrWiPos := 0
      rcrWoiPos := 0
      irq := false }
  chans := fun _ => .idle

theorem oneChannel_quiet {ctrl : BitVec 32} (crc : BitVec 32)
    (h : hasFlag ctrl RX_DMA_ACT = false) : (oneChannel ctrl crc).Quiet where
  idle := fun _ => rfl
  inactive := by
    intro i _
    simp only [oneChannel]
    split
    · exact h
    · rfl

/-- A packet of two cells that ends by its count is not posted. -/
theorem not_received : ¬∀ (s : Sys) (events : List Event), s.Quiet →
    AllSteps StepOk (history step s events) := by
  intro h
  have hall := h (oneChannel RX_DMA_AAL_CNT 2) [.cell (vciCell 0), .cell (vciCell 0)]
    (oneChannel_quiet 2 (by decide))
  have hstep := (allSteps_cons.mp (allSteps_cons.mp hall).2).1.2
  have hchan : ((oneChannel RX_DMA_AAL_CNT 2).step (.cell (vciCell 0))).d.channel (vciCell 0) =
      some 5 := by decide
  rw [hchan] at hstep
  have hsome : (((oneChannel RX_DMA_AAL_CNT 2).step (.cell (vciCell 0))).outcome 5
      (vciCell 0)).2.isSome = true := by decide
  obtain ⟨packet, hp⟩ := Option.isSome_iff_exists.mp hsome
  have hpos := (hstep.posted packet hp).1.posWoi
  revert hpos
  decide

/-- A packet of one cell with the end of an AAL5 packet is posted. -/
theorem received_of_cond_aal5 : AllSteps StepOk
    (history step (oneChannel RX_DMA_AAL_AAL5 0) [.cell (vciCell 2)]) := by
  have hchan : (oneChannel RX_DMA_AAL_AAL5 0).d.channel (vciCell 2) = some 5 := by decide
  have hentry : (oneChannel RX_DMA_AAL_AAL5 0).d.rxEntry (mNtoh32 (vciCell 2)) = some 5 := by
    decide
  have hsupply : (oneChannel RX_DMA_AAL_AAL5 0).d.supply
      ((oneChannel RX_DMA_AAL_AAL5 0).d.rxDmaTable 5) = some (0x2000, 4) := by decide
  have hring : ∀ a, (oneChannel RX_DMA_AAL_AAL5 0).d.InRing
      ((oneChannel RX_DMA_AAL_AAL5 0).d.rxDmaTable 5) a → 0x1000 ≤ a ∧ a < 0x1004 :=
    fun a ha => ha.2
  have hrcr : ∀ a, (oneChannel RX_DMA_AAL_AAL5 0).d.InRcr
      ((oneChannel RX_DMA_AAL_AAL5 0).d.rxDmaTable 5) a → 0x4000 ≤ a ∧ a < 0x4020 :=
    fun a ha => ha
  refine received_of_cond (oneChannel_quiet 0 (by decide)) ?_
  rw [history, history, allSteps_cons]
  refine ⟨⟨fun i _ hi => ?_, fun i hi => ?_⟩, by simp [AllSteps]⟩
  · rw [hentry] at hi
    cases hi
    decide
  · rw [hchan] at hi
    cases hi
    constructor
    · intro hwait
      exact absurd hwait (by decide)
    · intro _ b hb
      rw [hsupply] at hb
      cases hb
      constructor
      · decide
      · exact fun _ => by decide
      · intro j
        exact ⟨fun b hb => absurd hb List.not_mem_nil, fun b hb => absurd hb List.not_mem_nil⟩
      · intro a ha
        have := hring a ha
        omega
    · intro _
      constructor
      · decide
      · intro h
        revert h
        decide
      · decide
      · intro j b hb
        cases hb
      · intro _ b hb a ha
        have := hrcr a ha
        rw [hsupply] at hb
        cases hb
        refine ⟨by simp only [rxBufferSize, Atm.payloadSize]; omega, fun hin => ?_⟩
        have := hring a hin
        omega

end Sys

end Dynamips.PaA1
