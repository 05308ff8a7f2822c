import Dynamips.AtmVsar
import Dynamips.Lib.Runs

/-! The AAL5 packets that an ATM bridge puts together from whatever cells come in.
Each cell is known by the packet that it was sent for. -/
set_option autoImplicit false

namespace Dynamips.AtmVsar
open Atm Runs

structure SentCell where
  packet : Nat
  cell : AtmCell

def SentCell.payload (c : SentCell) : List Byte := (c.cell.bytes.drop hdrSize).take payloadSize

def SentCell.labelled (c : SentCell) : List (Nat × Byte) := c.payload.map (c.packet, ·)

def SentCell.header (c : SentCell) : BitVec 32 := mNtoh32 c.cell.bytes

def SentCell.lengthField (c : SentCell) : Nat :=
  (mNtoh16 (c.cell.bytes.drop (aal5TrailerPos + 2))).toNat

/-- What `atm_bridge_recv_cell` does with the status of a cell; the packet is the
one that was reported. -/
def atmBridgeReassemble (arc : AtmReasContext) (cell : AtmCell) :
    AtmReasContext × Option (List Byte) :=
  let (arc, status) := atmAal5Recv arc cell
  if status = 1 then (atmAal5RecvReset arc, some (arc.buffer.take arc.len))
  else if status < 0 then (atmAal5RecvReset arc, none)
  else (arc, none)

/-- A context, and the cells that it has taken since it was last reset. -/
structure Reas where
  arc : AtmReasContext
  cells : List SentCell

def Reas.init (arc : AtmReasContext) : Reas := ⟨atmAal5RecvReset arc, []⟩

def Reas.recv (s : Reas) (c : SentCell) : Reas × Option (List Byte) :=
  let status := (atmAal5Recv s.arc c.cell).2
  let cells := if status = 0 then s.cells ++ [c] else if status = 2 then s.cells else []
  (⟨(atmBridgeReassemble s.arc c.cell).1, cells⟩, (atmBridgeReassemble s.arc c.cell).2)

def Reas.Step (s : Reas) (c : SentCell) (s' : Reas) : Prop := (s.recv c).1 = s'

/-- A packet that is reported ends before the trailer, and all its bytes are of
the packet whose last cell came in. -/
def PacketOk (s : Reas) (c : SentCell) : Prop :=
  ∀ data, (s.recv c).2 = some data →
    data.length + aal5TrailerSize ≤ payloadSize * (s.cells.length + 1) ∧
      data = (((s.cells ++ [c]).flatMap SentCell.labelled).take data.length).map Prod.snd ∧
      ∀ x ∈ ((s.cells ++ [c]).flatMap SentCell.labelled).take data.length, x.1 = c.packet

/-- A last cell whose length field the received payload has room for leaves its
trailer out, and the cells that came first until that length are of its packet. -/
def EndOk (s : Reas) (c : SentCell) : Prop :=
  s.arc.bufPos + payloadSize ≤ atmReasMaxSize → c.header &&& ptiNetwork = 0 →
    c.header &&& ptiEop ≠ 0 → c.lengthField ≤ s.arc.bufPos + payloadSize →
    c.lengthField + aal5TrailerSize ≤ s.arc.bufPos + payloadSize ∧
      ∀ i first, s.cells[i]? = some first → payloadSize * i < c.lengthField →
        first.packet = c.packet

structure Holds (s : Reas) : Prop where
  pos : s.arc.bufPos = payloadSize * s.cells.length
  room : s.arc.bufPos ≤ atmReasMaxSize
  buffer : s.arc.buffer.take s.arc.bufPos = s.cells.flatMap SentCell.payload

@[simp] theorem SentCell.length_payload (c : SentCell) : c.payload.length = payloadSize := by
  rw [payload, List.length_take, List.length_drop, c.cell.bytes_length]
  rfl

@[simp] theorem SentCell.length_labelled (c : SentCell) : c.labelled.length = payloadSize := by
  rw [labelled, List.length_map, length_payload]

theorem length_labelled (cells : List SentCell) :
    (cells.flatMap SentCell.labelled).length = payloadSize * cells.length := by
  induction cells with
  | nil => rfl
  | cons c cells ih =>
    rw [List.flatMap_cons, List.length_append, c.length_labelled, ih, List.length_cons,
      Nat.mul_add, Nat.mul_one, Nat.add_comm]

theorem map_labelled (cells : List SentCell) :
    (cells.flatMap SentCell.labelled).map Prod.snd = cells.flatMap SentCell.payload := by
  induction cells with
  | nil => rfl
  | cons c cells ih =>
    rw [List.flatMap_cons, List.map_append, ih, List.flatMap_cons, SentCell.labelled, List.map_map]
    congr 1
    exact List.map_id _

theorem SentCell.labels_take (c : SentCell) (n packet : Nat) :
    (∀ x ∈ c.labelled.take n, x.1 = packet) ↔ (0 < n → c.packet = packet) := by
  constructor
  · intro h hn
    have hpos : 0 < (c.labelled.take n).length := by
      rw [List.length_take, c.length_labelled, payloadSize]
      omega
    have hmem := List.getElem_mem hpos
    obtain ⟨b, -, hb⟩ := List.mem_map.mp (List.mem_of_mem_take hmem)
    have hlabel := h _ hmem
    rwa [← hb] at hlabel
  · intro h x hx
    have hn : 0 < n := by
      cases n with
      | zero => cases hx
      | succ n => omega
    obtain ⟨b, -, rfl⟩ := List.mem_map.mp (List.mem_of_mem_take hx)
    exact h hn

theorem labels_take (cells : List SentCell) (n packet : Nat) :
    (∀ x ∈ (cells.flatMap SentCell.labelled).take n, x.1 = packet) ↔
      ∀ i c, cells[i]? = some c → payloadSize * i < n → c.packet = packet := by
  induction cells generalizing n with
  | nil => simp
  | cons c cells ih =>
    rw [List.flatMap_cons, List.take_append, c.length_labelled]
    simp only [List.mem_append, or_imp, forall_and, c.labels_take, ih]
    constructor
    · intro h i c' hc' hi
      cases i with
      | zero =>
        rw [List.getElem?_cons_zero, Option.some.injEq] at hc'
        rw [← hc']
        exact h.1 hi
      | succ i => exact h.2 i c' hc' (by simp only [payloadSize] at hi ⊢; omega)
    · intro h
      refine ⟨fun hn => h 0 c rfl hn, fun i c' hc' hi => h (i + 1) c' hc' ?_⟩
      simp only [payloadSize] at hi ⊢
      omega

theorem labels_snoc (cells : List SentCell) (c : SentCell) (n : Nat) :
    (∀ x ∈ ((cells ++ [c]).flatMap SentCell.labelled).take n, x.1 = c.packet) ↔
      ∀ i first, cells[i]? = some first → payloadSize * i < n → first.packet = c.packet := by
  rw [labels_take]
  constructor
  · intro h i first hi hlt
    have hin := (List.getElem?_eq_some_iff.mp hi).1
    exact h i first (by rw [List.getElem?_append_left hin, hi]) hlt
  · intro h i c' hi hlt
    by_cases hin : i < cells.length
    · rw [List.getElem?_append_left hin] at hi
      exact h i c' hi hlt
    · rw [List.getElem?_append_right (by omega)] at hi
      have hmem := List.mem_of_getElem? hi
      rw [List.mem_singleton.mp hmem]

/-! A cell comes in. -/

section Recv

variable {s : Reas} {c : SentCell}

theorem recv_overflow (h : atmReasMaxSize < s.arc.bufPos + payloadSize) :
    s.recv c = (.init s.arc, none) := by
  have hrecv : atmAal5Recv s.arc c.cell = (atmAal5RecvReset s.arc, -1) := by
    rw [atmAal5Recv, dif_pos h]
  simp only [Reas.recv, atmBridgeReassemble, hrecv]
  rfl

theorem recv_network (h : s.arc.bufPos + payloadSize ≤ atmReasMaxSize)
    (hnet : c.header &&& ptiNetwork ≠ 0) : s.recv c = (s, none) := by
  have hrecv : atmAal5Recv s.arc c.cell = (s.arc, 2) := by
    rw [atmAal5Recv, dif_neg (by omega)]
    exact if_pos hnet
  simp only [Reas.recv, atmBridgeReassemble, hrecv]
  rfl

theorem recv_part (h : s.arc.bufPos + payloadSize ≤ atmReasMaxSize)
    (hnet : c.header &&& ptiNetwork = 0) (heop : c.header &&& ptiEop = 0) :
    s.recv c = (⟨atmCopyPayload s.arc c.cell h, s.cells ++ [c]⟩, none) := by
  have hrecv : atmAal5Recv s.arc c.cell = (atmCopyPayload s.arc c.cell h, 0) := by
    rw [SentCell.header] at hnet heop
    rw [atmAal5Recv, dif_neg (by omega)]
    simp [hnet, heop]
  simp only [Reas.recv, atmBridgeReassemble, hrecv]
  rfl

def Reas.ended (s : Reas) (c : SentCell) (h : s.arc.bufPos + payloadSize ≤ atmReasMaxSize) :
    AtmReasContext :=
  { atmCopyPayload s.arc c.cell h with len := c.lengthField }

theorem recv_end (h : s.arc.bufPos + payloadSize ≤ atmReasMaxSize)
    (hnet : c.header &&& ptiNetwork = 0) (heop : c.header &&& ptiEop ≠ 0) :
    s.recv c = (.init (s.ended c h),
      if c.lengthField ≤ s.arc.bufPos + payloadSize then
        some ((s.ended c h).buffer.take c.lengthField)
      else none) := by
  have hrecv : atmAal5Recv s.arc c.cell = (s.ended c h,
      if c.lengthField ≤ s.arc.bufPos + payloadSize then 1 else -2) := by
    rw [SentCell.header] at hnet heop
    rw [atmAal5Recv, dif_neg (by omega)]
    simp only [hnet, ne_eq, not_true_eq_false, if_false]
    rw [if_pos heop]
    rfl
  simp only [Reas.recv, atmBridgeReassemble, hrecv]
  split <;> rfl

theorem Holds.copied (hs : Holds s) (h : s.arc.bufPos + payloadSize ≤ atmReasMaxSize) :
    Holds ⟨atmCopyPayload s.arc c.cell h, s.cells ++ [c]⟩ where
  pos := by
    simp only [atmCopyPayload, hs.pos, List.length_append, List.length_singleton, Nat.mul_add,
      Nat.mul_one]
  room := h
  buffer := by
    have hlen : (s.arc.buffer.take s.arc.bufPos ++ c.payload).length =
        s.arc.bufPos + payloadSize := by
      have hbuf := s.arc.buffer_length
      have hroom := hs.room
      rw [List.length_append, c.length_payload, List.length_take]
      omega
    have htake : (memcpy s.arc.buffer s.arc.bufPos c.payload).take (s.arc.bufPos + payloadSize) =
        s.arc.buffer.take s.arc.bufPos ++ c.payload := List.take_left' hlen
    rw [List.flatMap_append, ← hs.buffer, List.flatMap_singleton]
    exact htake

theorem holds_init (arc : AtmReasContext) : Holds (.init arc) :=
  ⟨rfl, Nat.zero_le _, List.take_zero⟩

theorem Holds.recv (hs : Holds s) (c : SentCell) : Holds (s.recv c).1 := by
  by_cases h : s.arc.bufPos + payloadSize ≤ atmReasMaxSize
  · by_cases hnet : c.header &&& ptiNetwork = 0
    · by_cases heop : c.header &&& ptiEop = 0
      · rw [recv_part h hnet heop]
        exact hs.copied h
      · rw [recv_end h hnet heop]
        exact holds_init _
    · rw [recv_network h hnet]
      exact hs
  · rw [recv_overflow (by omega)]
    exact holds_init _

theorem Holds.data (hs : Holds s) (h : s.arc.bufPos + payloadSize ≤ atmReasMaxSize)
    (hlen : c.lengthField ≤ s.arc.bufPos + payloadSize) :
    (s.ended c h).buffer.take c.lengthField =
      (((s.cells ++ [c]).flatMap SentCell.labelled).take c.lengthField).map Prod.snd := by
  have hcopied := (@Holds.copied s c hs h).buffer
  have hmin : min c.lengthField (s.arc.bufPos + payloadSize) = c.lengthField := by omega
  rw [List.map_take, map_labelled, ← hcopied, List.take_take]
  exact congrArg (List.take · _) hmin.symm

theorem length_data (h : s.arc.bufPos + payloadSize ≤ atmReasMaxSize)
    (hlen : c.lengthField ≤ s.arc.bufPos + payloadSize) :
    ((s.ended c h).buffer.take c.lengthField).length = c.lengthField := by
  rw [List.length_take, (s.ended c h).buffer_length]
  omega

theorem Holds.packetOk_iff (hs : Holds s) : PacketOk s c ↔ EndOk s c := by
  by_cases h : s.arc.bufPos + payloadSize ≤ atmReasMaxSize
  · by_cases hnet : c.header &&& ptiNetwork = 0
    · by_cases heop : c.header &&& ptiEop = 0
      · refine iff_of_true (fun data hd => ?_) fun _ _ he => absurd heop he
        rw [recv_part h hnet heop] at hd
        cases hd
      · by_cases hlen : c.lengthField ≤ s.arc.bufPos + payloadSize
        · have hpos : payloadSize * (s.cells.length + 1) = s.arc.bufPos + payloadSize := by
            rw [hs.pos, Nat.mul_add, Nat.mul_one]
          have hrecv : (s.recv c).2 = some ((s.ended c h).buffer.take c.lengthField) := by
            rw [recv_end h hnet heop, if_pos hlen]
          constructor
          · intro hok _ _ _ _
            obtain ⟨hend, -, hlabels⟩ := hok _ hrecv
            rw [length_data h hlen] at hend hlabels
            rw [hpos] at hend
            exact ⟨hend, (labels_snoc s.cells c _).mp hlabels⟩
          · intro hok data hd
            rw [hrecv, Option.some.injEq] at hd
            obtain ⟨hend, hfirst⟩ := hok h hnet heop hlen
            rw [← hd, length_data h hlen, hpos]
            exact ⟨hend, hs.data h hlen, (labels_snoc s.cells c _).mpr hfirst⟩
        · refine iff_of_true (fun data hd => ?_) fun _ _ _ he => absurd he hlen
          rw [recv_end h hnet heop, if_neg hlen] at hd
          cases hd
    · refine iff_of_true (fun data hd => ?_) fun _ he => absurd he hnet
      rw [recv_network h hnet] at hd
      cases hd
  · refine iff_of_true (fun data hd => ?_) fun he => absurd he h
    rw [recv_overflow (by omega)] at hd
    cases hd

end Recv

/-- Whatever cells come in, the position stays within the buffer; the packets that
are reported are right exactly if the last cells are. -/
theorem reassembly_iff {arc : AtmReasContext} {trace : List (Reas × SentCell)} {s : Reas}
    (hrun : Run Reas.Step (.init arc) trace s) :
    Always (fun s => s.arc.bufPos ≤ atmReasMaxSize) trace s ∧
      (AllSteps PacketOk trace ↔ AllSteps EndOk trace) := by
  have hholds : Always Holds trace s :=
    hrun.always (fun _ c _ h hs => by cases hs; exact h.recv c) (holds_init arc)
  refine ⟨⟨hholds.1.room, fun x hx => (hholds.2 x hx).room⟩, ?_⟩
  exact forall₂_congr fun x hx => (hholds.2 x hx).packetOk_iff

/-- A cell of VPI 0 and VCI 0 with some bits in its header, whose length field has
a low byte -/
def cellWith (packet : Nat) (pti len : Byte) : SentCell where
  packet := packet
  cell :=
    { bytes := [0, 0, 0, pti, 0] ++ List.replicate 42 0xa5 ++ [0, len] ++ List.replicate 4 0
      bytes_length := rfl }

theorem zeros_length : (List.replicate atmReasMaxSize (0 : Byte)).length = atmReasMaxSize :=
  List.length_replicate

def emptyReas : AtmReasContext where
  buffer := List.replicate atmReasMaxSize 0
  bufPos := 0
  len := 0
  buffer_length := zeros_length

theorem run_two {s : Reas} (a b : SentCell) :
    Run Reas.Step s [(s, a), ((s.recv a).1, b)] (((s.recv a).1).recv b).1 :=
  Run.cons rfl (Run.cons rfl Run.start)

theorem holds_first (packet : Nat) : ∃ s : Reas,
    ((Reas.init emptyReas).recv (cellWith packet 0 0)).1 = s ∧ Holds s ∧
      s.cells = [cellWith packet 0 0] ∧ s.arc.bufPos = payloadSize := by
  have hroom : (Reas.init emptyReas).arc.bufPos + payloadSize ≤ atmReasMaxSize := by decide
  have hheader : (cellWith packet 0 0).header = 0 := by simp [cellWith, SentCell.header, mNtoh32]
  have hrecv := recv_part hroom (by rw [hheader]; rfl) (by rw [hheader]; rfl)
  exact ⟨_, rfl, (holds_init _).recv _, by rw [hrecv]; rfl, by rw [hrecv]; rfl⟩

/-- A packet of 88 bytes in two cells -/
theorem reassembly_two : AllSteps PacketOk
    [(Reas.init emptyReas, cellWith 0 0 0),
      (((Reas.init emptyReas).recv (cellWith 0 0 0)).1, cellWith 0 2 88)] := by
  refine ((reassembly_iff (run_two (cellWith 0 0 0) (cellWith 0 2 88))).2).mpr ?_
  obtain ⟨s, hs, -, hcells, hpos⟩ := holds_first 0
  rw [hs]
  simp only [AllSteps, List.forall_mem_cons]
  refine ⟨fun _ _ he => absurd rfl he, fun _ _ _ _ => ?_, by simp⟩
  rw [hcells, hpos]
  refine ⟨by decide, fun i first hi _ => ?_⟩
  rw [List.mem_singleton.mp (List.mem_of_getElem? hi)]
  rfl

/-- The last cell of packet 0 is lost, and its first bytes come as those of packet 1. -/
theorem not_reassembly : ¬ ∀ (arc : AtmReasContext) (trace : List (Reas × SentCell)) (s : Reas),
    Run Reas.Step (.init arc) trace s → AllSteps PacketOk trace := by
  intro h
  have hpackets := h _ _ _ (run_two (s := .init emptyReas) (cellWith 0 0 0) (cellWith 1 2 40))
  obtain ⟨s, hs, hholds, hcells, hpos⟩ := holds_first 0
  rw [hs] at hpackets
  simp only [AllSteps, List.forall_mem_cons] at hpackets
  have hend := hholds.packetOk_iff.mp hpackets.2.1
  rw [EndOk, hpos, hcells] at hend
  have hfirst := (hend (by decide) rfl (by decide) (by decide)).2 0 (cellWith 0 0 0) rfl (by decide)
  cases hfirst

end Dynamips.AtmVsar
