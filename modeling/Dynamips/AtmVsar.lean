import Dynamips.Utils
import Dynamips.Lib.Loop
set_option autoImplicit false

namespace Dynamips.Atm
open Loop

def hdrSize : Nat := 5
def payloadSize : Nat := 48
def cellSize : Nat := hdrSize + payloadSize
def aal5TrailerSize : Nat := 8
def aal5TrailerPos : Nat := cellSize - aal5TrailerSize

def hdrVpiShift : Nat := 20
def hdrVciShift : Nat := 4

def ptiEop : BitVec 32 := 0x00000002
def ptiNetwork : BitVec 32 := 0x00000008

def hecGenerator : BitVec 32 := 0x107
def cosetLeader : BitVec 8 := 0x055

/-- An entry of `hec_syndrome_table`, as `gen_syndrome_table` fills it. -/
def hecSyndrome (i : BitVec 8) : BitVec 8 :=
  (loop (fun _ (syndrome : BitVec 32) =>
    if syndrome &&& 0x80 ≠ 0 then (syndrome <<< 1) ^^^ hecGenerator else syndrome <<< 1)
    8 (i.setWidth 32)).setWidth 8

def atmComputeHec (cellHeader : List Byte) : BitVec 8 :=
  ((cellHeader.take 4).foldl (fun hecAccum b => hecSyndrome (hecAccum ^^^ b)) 0) ^^^ cosetLeader

def atmInsertHec (cellHeader : List Byte) : List Byte :=
  memcpy cellHeader 4 [atmComputeHec cellHeader]

end Dynamips.Atm

namespace Dynamips.AtmVsar
open Atm

/-- `crc32_compute` of crc.cpp over a `crc32_z` that is not part of the source. -/
def crc32Compute (crc32Z : BitVec 32 → List Byte → BitVec 32) (accumulator : BitVec 32)
    (data : List Byte) : BitVec 32 :=
  if data.length ≤ 0 then ~~~accumulator else crc32Z (~~~accumulator) data

/-- `sent` is what `netio_send` was given so far, in order. -/
structure AtmSegContext where
  txfifoCell : List Byte
  txfifoPos : Nat
  txfifoAvail : Nat
  aal5Len : Nat
  aal5Crc : BitVec 32
  atmHdr : BitVec 32
  sent : List (List Byte)

section Send

variable (crc32Z : BitVec 32 → List Byte → BitVec 32)

def atmSendCell (asc : AtmSegContext) : AtmSegContext :=
  let cell := atmInsertHec (memcpy asc.txfifoCell 0 (mHton32 asc.atmHdr))
  { asc with txfifoCell := cell, sent := asc.sent ++ [cell] }

def atmClearTxFifo (asc : AtmSegContext) : AtmSegContext :=
  { asc with
    txfifoAvail := payloadSize
    txfifoPos := hdrSize
    txfifoCell := List.replicate cellSize 0 }

def atmAddTxPadding (asc : AtmSegContext) (len : Nat) : AtmSegContext :=
  let len := if len > asc.txfifoAvail then asc.txfifoAvail else len
  { asc with
    txfifoCell := memset asc.txfifoCell asc.txfifoPos 0 len
    txfifoPos := asc.txfifoPos + len
    txfifoAvail := asc.txfifoAvail - len }

def atmSendFifo (asc : AtmSegContext) : AtmSegContext :=
  if asc.txfifoAvail = 0 then
    let crc := crc32Compute crc32Z (~~~asc.aal5Crc) ((asc.txfifoCell.drop hdrSize).take payloadSize)
    atmClearTxFifo (atmSendCell { asc with aal5Crc := crc })
  else asc

def atmStoreFifo (asc : AtmSegContext) (buffer : List Byte) : AtmSegContext × List Byte :=
  let len := min buffer.length asc.txfifoAvail
  let asc := { asc with
    txfifoCell := memcpy asc.txfifoCell asc.txfifoPos (buffer.take len)
    txfifoPos := asc.txfifoPos + len
    txfifoAvail := asc.txfifoAvail - len }
  (if asc.txfifoAvail = 0 then atmSendFifo crc32Z asc else asc, buffer.drop len)

/-- `while (asc.buf_len > 0) atm_store_fifo(&asc)`, cut off after `fuel` turns. -/
def atmStoreBuffer : Nat → AtmSegContext → List Byte → Option AtmSegContext
  | _, asc, [] => some asc
  | 0, _, _ :: _ => none
  | fuel + 1, asc, b :: buffer =>
    atmStoreBuffer fuel (atmStoreFifo crc32Z asc (b :: buffer)).1
      (atmStoreFifo crc32Z asc (b :: buffer)).2

def atmAal5AddTrailer (asc : AtmSegContext) : AtmSegContext :=
  let cell := memcpy asc.txfifoCell aal5TrailerPos (mHton32 (BitVec.ofNat 32 asc.aal5Len))
  let crc := crc32Compute crc32Z (~~~asc.aal5Crc) ((cell.drop hdrSize).take (payloadSize - 4))
  { asc with
    txfifoCell := memcpy cell (aal5TrailerPos + 4) (mHton32 crc)
    aal5Crc := crc
    txfifoAvail := 0 }

def atmSendFragment (asc : AtmSegContext) (iov : List Byte) : Option AtmSegContext :=
  atmStoreBuffer crc32Z iov.length { asc with aal5Len := asc.aal5Len + iov.length } iov

def atmSendStart (vpi vci : BitVec 32) : AtmSegContext :=
  atmClearTxFifo {
    txfifoCell := []
    txfifoPos := 0
    txfifoAvail := 0
    aal5Len := 0
    aal5Crc := 0
    atmHdr := (vpi <<< hdrVpiShift) ||| (vci <<< hdrVciShift)
    sent := [] }

/-- If there is not enough room for the trailer, a new cell is created for it. -/
def atmTrailerRoom (asc : AtmSegContext) : AtmSegContext :=
  if asc.txfifoAvail < aal5TrailerSize then
    atmSendFifo crc32Z (atmAddTxPadding asc asc.txfifoAvail)
  else asc

def atmSendEnd (asc : AtmSegContext) : AtmSegContext :=
  let asc := atmTrailerRoom crc32Z asc
  let asc := { asc with atmHdr := asc.atmHdr ||| ptiEop }
  atmSendCell (atmAal5AddTrailer crc32Z
    (atmAddTxPadding asc (asc.txfifoAvail - aal5TrailerSize)))

/-- The cells that `atm_aal5_send` emits. -/
def atmAal5Send (vpi vci : BitVec 32) (iov : List (List Byte)) : Option (List (List Byte)) := do
  let asc ← iov.foldlM (atmSendFragment crc32Z) (atmSendStart vpi vci)
  some (atmSendEnd crc32Z asc).sent

end Send

def atmReasMaxSize : Nat := 16384

structure AtmReasContext where
  buffer : List Byte
  bufPos : Nat
  len : Nat
  buffer_length : buffer.length = atmReasMaxSize

def atmAal5RecvReset (arc : AtmReasContext) : AtmReasContext :=
  { arc with bufPos := 0, len := 0 }

structure AtmCell where
  bytes : List Byte
  bytes_length : bytes.length = cellSize

def atmCopyPayload (arc : AtmReasContext) (cell : AtmCell)
    (h : arc.bufPos + payloadSize ≤ atmReasMaxSize) : AtmReasContext where
  buffer := memcpy arc.buffer arc.bufPos ((cell.bytes.drop hdrSize).take payloadSize)
  bufPos := arc.bufPos + payloadSize
  len := arc.len
  buffer_length := by
    have hb := arc.buffer_length
    have hc := cell.bytes_length
    simp only [cellSize] at hc
    rw [length_memcpy, hb]
    simp [hc, hb, h]

def atmAal5Recv (arc : AtmReasContext) (cell : AtmCell) : AtmReasContext × Int :=
  if h : arc.bufPos + payloadSize > atmReasMaxSize then (atmAal5RecvReset arc, -1)
  else
    let atmHdr := mNtoh32 cell.bytes
    if atmHdr &&& ptiNetwork ≠ 0 then (arc, 2)
    else
      let arc := atmCopyPayload arc cell (Nat.le_of_not_lt h)
      if atmHdr &&& ptiEop ≠ 0 then
        let len := (mNtoh16 (cell.bytes.drop (aal5TrailerPos + 2))).toNat
        ({ arc with len := len }, if len ≤ arc.bufPos then 1 else -2)
      else (arc, 0)

/-- What the segmentation relies on: a checksum may be computed piecewise. -/
structure Incremental (crc32Z : BitVec 32 → List Byte → BitVec 32) : Prop where
  nil : ∀ c, crc32Z c [] = c
  append : ∀ c a b, crc32Z (crc32Z c a) b = crc32Z c (a ++ b)

variable {crc32Z : BitVec 32 → List Byte → BitVec 32}

theorem crc32Compute_not {c : BitVec 32} {data : List Byte} (h : 0 < data.length) :
    crc32Compute crc32Z (~~~c) data = crc32Z c data := by
  rw [crc32Compute, if_neg (by omega), BitVec.not_not]

/-- A cell as it leaves: header, its check byte, 48 bytes of payload. -/
def cellOf (hdr : BitVec 32) (payload : List Byte) : List Byte :=
  mHton32 hdr ++ atmComputeHec (mHton32 hdr) :: payload

theorem length_cellOf {hdr : BitVec 32} {p : List Byte} (h : p.length = payloadSize) :
    (cellOf hdr p).length = cellSize := by
  simp [cellOf, h, payloadSize, cellSize, hdrSize]

@[simp] theorem drop_cellOf (hdr : BitVec 32) (p : List Byte) : (cellOf hdr p).drop hdrSize = p := rfl

theorem atmInsertHec_mHton32 (hdr : BitVec 32) (b : Byte) (p : List Byte) :
    atmInsertHec (mHton32 hdr ++ b :: p) = cellOf hdr p := by
  have hhec : atmComputeHec (mHton32 hdr ++ b :: p) = atmComputeHec (mHton32 hdr) := by
    simp [atmComputeHec, mHton32]
  have hcopy := @memcpy_middle _ (mHton32 hdr) [b] p [atmComputeHec (mHton32 hdr)] 4 rfl rfl
  rw [List.append_assoc, List.append_assoc] at hcopy
  rw [atmInsertHec, hhec]
  exact hcopy

theorem sent_atmSendCell {asc : AtmSegContext} {p : List Byte}
    (h : asc.txfifoCell = List.replicate hdrSize 0 ++ p) :
    (atmSendCell asc).sent = asc.sent ++ [cellOf asc.atmHdr p] := by
  have hcopy : memcpy asc.txfifoCell 0 (mHton32 asc.atmHdr) = mHton32 asc.atmHdr ++ 0 :: p := by
    rw [h]
    exact memcpy_start (b := List.replicate 4 0) (c := 0 :: p) rfl
  simp only [atmSendCell, hcopy, atmInsertHec_mHton32]

/-- The FIFO between two turns: `done` are the payloads of the cells that left,
`pending` is what the current cell holds. -/
structure Fifo (crc32Z : BitVec 32 → List Byte → BitVec 32) (hdr : BitVec 32)
    (asc : AtmSegContext) (done : List (List Byte)) (pending : List Byte) : Prop where
  cell : asc.txfifoCell = List.replicate hdrSize 0 ++ pending ++ List.replicate asc.txfifoAvail 0
  room : pending.length + asc.txfifoAvail = payloadSize
  pos : asc.txfifoPos = hdrSize + pending.length
  hdr_eq : asc.atmHdr = hdr
  sent : asc.sent = done.map (cellOf hdr)
  full : ∀ p ∈ done, p.length = payloadSize
  crc : asc.aal5Crc = crc32Z 0 done.flatten

theorem fifo_start (hcrc : Incremental crc32Z) (vpi vci : BitVec 32) :
    Fifo crc32Z (atmSendStart vpi vci).atmHdr (atmSendStart vpi vci) [] [] where
  cell := rfl
  room := rfl
  pos := rfl
  hdr_eq := rfl
  sent := rfl
  full := by simp
  crc := (hcrc.nil 0).symm

theorem fifo_copy {hdr : BitVec 32} {asc : AtmSegContext} {done : List (List Byte)}
    {pending src : List Byte} (h : Fifo crc32Z hdr asc done pending)
    (hfit : src.length ≤ asc.txfifoAvail) :
    Fifo crc32Z hdr { asc with
      txfifoCell := memcpy asc.txfifoCell asc.txfifoPos src
      txfifoPos := asc.txfifoPos + src.length
      txfifoAvail := asc.txfifoAvail - src.length } done (pending ++ src) where
  cell := by
    have hpos : asc.txfifoPos = (List.replicate hdrSize (0 : Byte) ++ pending).length := by
      simp [h.pos]
    rw [h.cell, memcpy_replicate 0 hpos hfit, ← List.append_assoc]
  room := by
    have hroom := h.room
    simp only [List.length_append]
    omega
  pos := by simp [h.pos, Nat.add_assoc]
  hdr_eq := h.hdr_eq
  sent := h.sent
  full := h.full
  crc := h.crc

theorem fifo_padding {hdr : BitVec 32} {asc : AtmSegContext} {done : List (List Byte)}
    {pending : List Byte} {len : Nat} (h : Fifo crc32Z hdr asc done pending)
    (hfit : len ≤ asc.txfifoAvail) :
    Fifo crc32Z hdr (atmAddTxPadding asc len) done (pending ++ List.replicate len 0) := by
  have hcopy := @fifo_copy _ _ _ _ _ (List.replicate len 0) h (by simpa using hfit)
  simpa [atmAddTxPadding, memset, Nat.not_lt.mpr hfit] using hcopy

theorem fifo_sendFifo (hcrc : Incremental crc32Z) {hdr : BitVec 32} {asc : AtmSegContext}
    {done : List (List Byte)} {pending : List Byte} (h : Fifo crc32Z hdr asc done pending)
    (hfull : asc.txfifoAvail = 0) :
    Fifo crc32Z hdr (atmSendFifo crc32Z asc) (done ++ [pending]) [] := by
  have hlen : pending.length = payloadSize := by simpa [hfull] using h.room
  have hcell : asc.txfifoCell = List.replicate hdrSize 0 ++ pending := by
    simpa [hfull] using h.cell
  have hpayload : (asc.txfifoCell.drop hdrSize).take payloadSize = pending := by
    rw [hcell, List.drop_left' (by simp), ← hlen, List.take_length]
  have hcompute : crc32Compute crc32Z (~~~asc.aal5Crc) pending =
      crc32Z 0 (done ++ [pending]).flatten := by
    rw [crc32Compute_not (by rw [hlen]; decide), h.crc, hcrc.append]
    simp
  rw [atmSendFifo, if_pos hfull, hpayload, hcompute]
  refine ⟨rfl, rfl, rfl, h.hdr_eq, ?_, ?_, rfl⟩
  · have hsent := @sent_atmSendCell
      { asc with aal5Crc := crc32Z 0 (done ++ [pending]).flatten } _ hcell
    simpa [atmClearTxFifo, h.sent, h.hdr_eq] using hsent
  · intro p hp
    rcases List.mem_append.mp hp with hp | hp
    · exact h.full p hp
    · rw [List.mem_singleton.mp hp, hlen]

theorem aal5Len_atmSendFifo (asc : AtmSegContext) :
    (atmSendFifo crc32Z asc).aal5Len = asc.aal5Len := by
  rw [atmSendFifo]
  split <;> rfl

theorem atmStoreFifo_spec (hcrc : Incremental crc32Z) {hdr : BitVec 32} {asc : AtmSegContext}
    {done : List (List Byte)} {pending buffer : List Byte}
    (h : Fifo crc32Z hdr asc done pending) :
    ∃ done' pending', Fifo crc32Z hdr (atmStoreFifo crc32Z asc buffer).1 done' pending' ∧
      0 < (atmStoreFifo crc32Z asc buffer).1.txfifoAvail ∧
      done'.flatten ++ pending' ++ (atmStoreFifo crc32Z asc buffer).2 =
        done.flatten ++ pending ++ buffer ∧
      (atmStoreFifo crc32Z asc buffer).1.aal5Len = asc.aal5Len := by
  have hlen : (buffer.take (min buffer.length asc.txfifoAvail)).length =
      min buffer.length asc.txfifoAvail := by simp
  have hcopy := @fifo_copy _ _ _ _ _ (buffer.take (min buffer.length asc.txfifoAvail)) h
    (by rw [hlen]; exact Nat.min_le_right _ _)
  rw [hlen] at hcopy
  simp only [atmStoreFifo]
  split
  · rename_i hzero
    have hsend := fifo_sendFifo hcrc hcopy hzero
    have hroom := hsend.room
    rw [List.length_nil, Nat.zero_add] at hroom
    exact ⟨_, _, hsend, by rw [hroom]; decide, by simp, aal5Len_atmSendFifo _⟩
  · rename_i hpos
    exact ⟨_, _, hcopy, Nat.pos_of_ne_zero hpos, by simp, rfl⟩

theorem length_atmStoreFifo {asc : AtmSegContext} (b : Byte) (buffer : List Byte)
    (havail : 0 < asc.txfifoAvail) :
    (atmStoreFifo crc32Z asc (b :: buffer)).2.length ≤ buffer.length := by
  simp [atmStoreFifo]
  omega

theorem atmStoreBuffer_spec (hcrc : Incremental crc32Z) {hdr : BitVec 32} {fuel : Nat}
    {asc : AtmSegContext} {done : List (List Byte)} {pending buffer : List Byte}
    (h : Fifo crc32Z hdr asc done pending) (havail : 0 < asc.txfifoAvail)
    (hfuel : buffer.length ≤ fuel) :
    ∃ asc' done' pending', atmStoreBuffer crc32Z fuel asc buffer = some asc' ∧
      Fifo crc32Z hdr asc' done' pending' ∧ 0 < asc'.txfifoAvail ∧
      done'.flatten ++ pending' = done.flatten ++ pending ++ buffer ∧
      asc'.aal5Len = asc.aal5Len := by
  induction fuel generalizing asc done pending buffer with
  | zero =>
    have hnil := List.length_eq_zero_iff.mp (Nat.le_zero.mp hfuel)
    exact ⟨asc, done, pending, by rw [hnil, atmStoreBuffer], h, havail, by simp [hnil], rfl⟩
  | succ fuel ih =>
    cases buffer with
    | nil => exact ⟨asc, done, pending, by rw [atmStoreBuffer], h, havail, by simp, rfl⟩
    | cons b buffer =>
      obtain ⟨done1, pending1, hfifo, havail1, hbytes, hlen⟩ :=
        @atmStoreFifo_spec _ hcrc _ _ _ _ (b :: buffer) h
      have hshort := @length_atmStoreFifo crc32Z _ b buffer havail
      obtain ⟨asc', done', pending', hrun, hfifo', havail', hbytes', hlen'⟩ :=
        ih hfifo havail1 (Nat.le_trans hshort (Nat.le_of_succ_le_succ hfuel))
      exact ⟨asc', done', pending', hrun, hfifo', havail', hbytes'.trans hbytes, hlen'.trans hlen⟩

theorem fifo_aal5Len {hdr : BitVec 32} {asc : AtmSegContext} {done : List (List Byte)}
    {pending : List Byte} (h : Fifo crc32Z hdr asc done pending) (len : Nat) :
    Fifo crc32Z hdr { asc with aal5Len := len } done pending :=
  ⟨h.cell, h.room, h.pos, h.hdr_eq, h.sent, h.full, h.crc⟩

theorem atmSendFragments_spec (hcrc : Incremental crc32Z) {hdr : BitVec 32}
    (iov : List (List Byte)) {asc : AtmSegContext} {done : List (List Byte)} {pending : List Byte}
    (h : Fifo crc32Z hdr asc done pending) (havail : 0 < asc.txfifoAvail) :
    ∃ asc' done' pending', iov.foldlM (atmSendFragment crc32Z) asc = some asc' ∧
      Fifo crc32Z hdr asc' done' pending' ∧ 0 < asc'.txfifoAvail ∧
      done'.flatten ++ pending' = done.flatten ++ pending ++ iov.flatten ∧
      asc'.aal5Len = asc.aal5Len + iov.flatten.length := by
  induction iov generalizing asc done pending with
  | nil => exact ⟨asc, done, pending, rfl, h, havail, by simp, by simp⟩
  | cons frag iov ih =>
    obtain ⟨asc1, done1, pending1, hrun1, hfifo1, havail1, hbytes1, hlen1⟩ :=
      @atmStoreBuffer_spec _ hcrc _ _ _ _ _ frag (fifo_aal5Len h (asc.aal5Len + frag.length)) havail
        (Nat.le_refl frag.length)
    obtain ⟨asc', done', pending', hrun, hfifo, havail', hbytes, hlen⟩ := ih hfifo1 havail1
    refine ⟨asc', done', pending', ?_, hfifo, havail', ?_, ?_⟩
    · rw [List.foldlM_cons]
      exact Loop.bind_of_some hrun1 hrun
    · rw [hbytes, hbytes1]
      simp
    · rw [hlen, hlen1]
      simp [Nat.add_assoc]

theorem atmAal5AddTrailer_spec (hcrc : Incremental crc32Z) {hdr : BitVec 32} {asc : AtmSegContext}
    {done : List (List Byte)} {pending : List Byte} (h : Fifo crc32Z hdr asc done pending)
    (hroom : asc.txfifoAvail = aal5TrailerSize) (hdr' : BitVec 32) :
    ∃ body, body = pending ++ mHton32 (BitVec.ofNat 32 asc.aal5Len) ∧
      (atmSendCell (atmAal5AddTrailer crc32Z { asc with atmHdr := hdr' })).sent =
        done.map (cellOf hdr) ++
          [cellOf hdr' (body ++ mHton32 (crc32Z 0 (done.flatten ++ body)))] := by
  have hlen : pending.length = 40 := by
    have hfit := h.room
    rw [hroom] at hfit
    simp only [aal5TrailerSize, payloadSize] at hfit
    omega
  refine ⟨_, rfl, ?_⟩
  let len := mHton32 (BitVec.ofNat 32 asc.aal5Len)
  have hcell : memcpy asc.txfifoCell aal5TrailerPos len =
      List.replicate hdrSize 0 ++ (pending ++ len) ++ List.replicate 4 0 := by
    rw [h.cell, memcpy_replicate 0 (by simp [hlen, aal5TrailerPos, cellSize, hdrSize, payloadSize,
      aal5TrailerSize]) (by simp [len, hroom, aal5TrailerSize])]
    simp [len, hroom, aal5TrailerSize]
  have hbody : ((memcpy asc.txfifoCell aal5TrailerPos len).drop hdrSize).take (payloadSize - 4) =
      pending ++ len := by
    rw [hcell, List.append_assoc, List.drop_left' (by simp), List.take_left' (by
      simp [len, hlen, payloadSize])]
  have hcompute : crc32Compute crc32Z (~~~asc.aal5Crc) (pending ++ len) =
      crc32Z 0 (done.flatten ++ (pending ++ len)) := by
    rw [crc32Compute_not (by simp [hlen, len]), h.crc, hcrc.append]
  have hlast : (atmAal5AddTrailer crc32Z { asc with atmHdr := hdr' }).txfifoCell =
      List.replicate hdrSize 0 ++
        (pending ++ len ++ mHton32 (crc32Z 0 (done.flatten ++ (pending ++ len)))) := by
    simp only [atmAal5AddTrailer, len] at *
    rw [hbody, hcompute, hcell, memcpy_replicate 0 (by simp [hlen, aal5TrailerPos, cellSize,
      hdrSize, payloadSize, aal5TrailerSize]) (by simp)]
    simp
  rw [sent_atmSendCell hlast]
  simp [atmAal5AddTrailer, h.sent, len]

theorem atmTrailerRoom_spec (hcrc : Incremental crc32Z) {hdr : BitVec 32} {asc : AtmSegContext}
    {done : List (List Byte)} {pending : List Byte} (h : Fifo crc32Z hdr asc done pending) :
    ∃ done' pending' pad, Fifo crc32Z hdr (atmTrailerRoom crc32Z asc) done' pending' ∧
      aal5TrailerSize ≤ (atmTrailerRoom crc32Z asc).txfifoAvail ∧ pad < aal5TrailerSize ∧
      done'.flatten ++ pending' = done.flatten ++ pending ++ List.replicate pad 0 ∧
      (atmTrailerRoom crc32Z asc).aal5Len = asc.aal5Len := by
  rw [atmTrailerRoom]
  split
  · rename_i hlt
    have hpad := fifo_padding h (Nat.le_refl asc.txfifoAvail)
    have hzero : (atmAddTxPadding asc asc.txfifoAvail).txfifoAvail = 0 := by simp [atmAddTxPadding]
    have hsend := fifo_sendFifo hcrc hpad hzero
    have hroom := hsend.room
    rw [List.length_nil, Nat.zero_add] at hroom
    exact ⟨_, _, asc.txfifoAvail, hsend, by rw [hroom]; decide, hlt, by simp, aal5Len_atmSendFifo _⟩
  · rename_i hge
    exact ⟨done, pending, 0, h, Nat.le_of_not_lt hge, by decide, by simp, rfl⟩

theorem txfifoAvail_atmAddTxPadding {asc : AtmSegContext}
    (h : aal5TrailerSize ≤ asc.txfifoAvail) :
    (atmAddTxPadding asc (asc.txfifoAvail - aal5TrailerSize)).txfifoAvail = aal5TrailerSize := by
  have hle := Nat.sub_le asc.txfifoAvail aal5TrailerSize
  simp only [atmAddTxPadding, if_neg (Nat.not_lt.mpr hle)]
  omega

theorem atmSendEnd_spec (hcrc : Incremental crc32Z) {hdr : BitVec 32} {asc : AtmSegContext}
    {done : List (List Byte)} {pending : List Byte} (h : Fifo crc32Z hdr asc done pending) :
    ∃ (done' : List (List Byte)) (last : List Byte) (pad : Nat) (body : List Byte),
      (atmSendEnd crc32Z asc).sent =
        done'.map (cellOf hdr) ++ [cellOf (hdr ||| ptiEop) last] ∧
      (∀ p ∈ done', p.length = payloadSize) ∧ last.length = payloadSize ∧ pad < payloadSize ∧
      body = done.flatten ++ pending ++ List.replicate pad 0 ++
        mHton32 (BitVec.ofNat 32 asc.aal5Len) ∧
      done'.flatten ++ last = body ++ mHton32 (crc32Z 0 body) := by
  obtain ⟨done', pending', pad, hfifo, hge, hsmall, hbytes, hlen⟩ := atmTrailerRoom_spec hcrc h
  have hpad := fifo_padding hfifo (Nat.sub_le _ aal5TrailerSize)
  have hroom := txfifoAvail_atmAddTxPadding hge
  obtain ⟨tail, htail, hsent⟩ := atmAal5AddTrailer_spec hcrc hpad hroom
    ((atmTrailerRoom crc32Z asc).atmHdr ||| ptiEop)
  rw [hfifo.hdr_eq] at hsent
  have hlast : (tail ++ mHton32 (crc32Z 0 (done'.flatten ++ tail))).length = payloadSize := by
    have hfit := hpad.room
    rw [hroom] at hfit
    rw [htail]
    simp only [List.length_append, length_mHton32] at hfit ⊢
    have htrailer : aal5TrailerSize = 4 + 4 := rfl
    omega
  have hpadlt : pad + ((atmTrailerRoom crc32Z asc).txfifoAvail - aal5TrailerSize) < payloadSize := by
    have hfit := hfifo.room
    omega
  have haal5 : (atmAddTxPadding (atmTrailerRoom crc32Z asc)
      ((atmTrailerRoom crc32Z asc).txfifoAvail - aal5TrailerSize)).aal5Len = asc.aal5Len := hlen
  have hend : (atmSendEnd crc32Z asc).sent = done'.map (cellOf hdr) ++
      [cellOf (hdr ||| ptiEop) (tail ++ mHton32 (crc32Z 0 (done'.flatten ++ tail)))] := by
    rw [← hsent, ← hfifo.hdr_eq]
    rfl
  refine ⟨done', _, pad + ((atmTrailerRoom crc32Z asc).txfifoAvail - aal5TrailerSize), _, hend,
    hfifo.full, hlast, hpadlt, ?_, (List.append_assoc _ _ _).symm⟩
  rw [htail, haal5, ← List.append_assoc, ← List.append_assoc, hbytes,
    ← List.replicate_append_replicate]
  simp only [List.append_assoc]

theorem and_ptiEop (v : BitVec 32) : v &&& ptiEop ≠ 0 ↔ v.getLsbD 1 = true := by
  rw [show ptiEop = BitVec.twoPow 32 1 from rfl, BitVec.and_twoPow]
  cases v.getLsbD 1 with
  | false => simp
  | true => decide

theorem and_ptiNetwork (v : BitVec 32) : v &&& ptiNetwork ≠ 0 ↔ v.getLsbD 3 = true := by
  rw [show ptiNetwork = BitVec.twoPow 32 3 from rfl, BitVec.and_twoPow]
  cases v.getLsbD 3 with
  | false => simp
  | true => decide

theorem atmSendStart_pti (vpi vci : BitVec 32) {i : Nat} (h : i < 4) :
    (atmSendStart vpi vci).atmHdr.getLsbD i = false := by
  simp [atmSendStart, atmClearTxFifo, hdrVpiShift, hdrVciShift, h, show i < 20 by omega]

/-- The bytes `got` are in the buffer and the next ones go behind them. -/
def Received (arc : AtmReasContext) (got : List Byte) : Prop :=
  arc.bufPos = got.length ∧ ∃ rest, arc.buffer = got ++ rest

theorem received_copy {arc : AtmReasContext} {got p : List Byte} {hdr : BitVec 32} {cell : AtmCell}
    (h : Received arc got) (hcell : cell.bytes = cellOf hdr p) (hp : p.length = payloadSize)
    (hfit : arc.bufPos + payloadSize ≤ atmReasMaxSize) :
    Received (atmCopyPayload arc cell hfit) (got ++ p) := by
  obtain ⟨hpos, rest, hbuf⟩ := h
  have hpayload : (cell.bytes.drop hdrSize).take payloadSize = p := by
    rw [hcell, drop_cellOf, ← hp, List.take_length]
  have hroom : p.length ≤ rest.length := by
    have hlen := arc.buffer_length
    rw [hbuf, List.length_append] at hlen
    omega
  refine ⟨by simp [atmCopyPayload, hpos, hp], rest.drop p.length, ?_⟩
  simp only [atmCopyPayload, hpayload, hbuf]
  exact memcpy_after hpos hroom

theorem atmAal5Recv_data {arc : AtmReasContext} {got p : List Byte} {hdr : BitVec 32}
    {cell : AtmCell} (h : Received arc got) (hcell : cell.bytes = cellOf hdr p)
    (hp : p.length = payloadSize) (hfit : got.length + payloadSize ≤ atmReasMaxSize)
    (hnet : hdr.getLsbD 3 = false) (heop : hdr.getLsbD 1 = false) :
    (atmAal5Recv arc cell).2 = 0 ∧ Received (atmAal5Recv arc cell).1 (got ++ p) := by
  have hhdr : mNtoh32 cell.bytes = hdr := by rw [hcell]; exact mNtoh32_mHton32 hdr _
  have hpos : ¬ arc.bufPos + payloadSize > atmReasMaxSize := by rw [h.1]; omega
  have hnet' : ¬ hdr &&& ptiNetwork ≠ 0 := by rw [and_ptiNetwork, hnet]; decide
  have heop' : ¬ hdr &&& ptiEop ≠ 0 := by rw [and_ptiEop, heop]; decide
  simp only [atmAal5Recv, dif_neg hpos, hhdr, if_neg hnet', if_neg heop']
  exact ⟨trivial, received_copy h hcell hp (Nat.le_of_not_lt hpos)⟩

theorem atmAal5Recv_last {arc : AtmReasContext} {got p front tail : List Byte} {hdr len : BitVec 32}
    {cell : AtmCell} (h : Received arc got) (hcell : cell.bytes = cellOf hdr p)
    (hp : p.length = payloadSize) (hfit : got.length + payloadSize ≤ atmReasMaxSize)
    (hnet : hdr.getLsbD 3 = false) (heop : hdr.getLsbD 1 = true)
    (hsplit : p = front ++ mHton32 len ++ tail) (hfront : front.length = 40)
    (hlen : (len.setWidth 16).toNat ≤ got.length + payloadSize) :
    (atmAal5Recv arc cell).2 = 1 ∧ Received (atmAal5Recv arc cell).1 (got ++ p) ∧
      (atmAal5Recv arc cell).1.len = (len.setWidth 16).toNat := by
  have hhdr : mNtoh32 cell.bytes = hdr := by rw [hcell]; exact mNtoh32_mHton32 hdr _
  have hpos : ¬ arc.bufPos + payloadSize > atmReasMaxSize := by rw [h.1]; omega
  have hnet' : ¬ hdr &&& ptiNetwork ≠ 0 := by rw [and_ptiNetwork, hnet]; decide
  have heop' : hdr &&& ptiEop ≠ 0 := by rw [and_ptiEop, heop]
  have hread : mNtoh16 (cell.bytes.drop (aal5TrailerPos + 2)) = len.setWidth 16 := by
    have hdrop : cell.bytes.drop (aal5TrailerPos + 2) = (mHton32 len).drop 2 ++ tail := by
      rw [hcell, show aal5TrailerPos + 2 = hdrSize + (front.length + 2) by
        rw [hfront]; rfl, ← List.drop_drop, drop_cellOf, hsplit, List.append_assoc,
        List.drop_length_add_append]
      rfl
    rw [hdrop, mNtoh16_mHton32]
  have hcopy := received_copy h hcell hp (Nat.le_of_not_lt hpos)
  have hle : (len.setWidth 16).toNat ≤ (atmCopyPayload arc cell (Nat.le_of_not_lt hpos)).bufPos := by
    rw [hcopy.1, List.length_append, hp]
    exact hlen
  simp only [atmAal5Recv, dif_neg hpos, hhdr, if_neg hnet', if_pos heop', hread, if_pos hle]
  exact ⟨trivial, hcopy, trivial⟩

def atmAal5RecvAll (arc : AtmReasContext) : List AtmCell → AtmReasContext × List Int
  | [] => (arc, [])
  | cell :: cells =>
    let r := atmAal5Recv arc cell
    let rs := atmAal5RecvAll r.1 cells
    (rs.1, r.2 :: rs.2)

theorem atmAal5RecvAll_append (arc : AtmReasContext) (cells cells' : List AtmCell) :
    atmAal5RecvAll arc (cells ++ cells') =
      ((atmAal5RecvAll (atmAal5RecvAll arc cells).1 cells').1,
        (atmAal5RecvAll arc cells).2 ++ (atmAal5RecvAll (atmAal5RecvAll arc cells).1 cells').2) := by
  induction cells generalizing arc with
  | nil => rfl
  | cons cell cells ih => simp [atmAal5RecvAll, ih]

theorem atmAal5RecvAll_data {hdr : BitVec 32} (hnet : hdr.getLsbD 3 = false)
    (heop : hdr.getLsbD 1 = false) {arc : AtmReasContext} {got : List Byte}
    {done : List (List Byte)} {cells : List AtmCell} (h : Received arc got)
    (hcells : cells.map AtmCell.bytes = done.map (cellOf hdr))
    (hdone : ∀ p ∈ done, p.length = payloadSize)
    (hfit : got.length + done.flatten.length ≤ atmReasMaxSize) :
    (atmAal5RecvAll arc cells).2 = List.replicate cells.length 0 ∧
      Received (atmAal5RecvAll arc cells).1 (got ++ done.flatten) := by
  induction cells generalizing arc got done with
  | nil =>
    cases done with
    | nil => exact ⟨rfl, by simpa [atmAal5RecvAll] using h⟩
    | cons p done => simp at hcells
  | cons cell cells ih =>
    cases done with
    | nil => simp at hcells
    | cons p done =>
      simp only [List.map_cons, List.cons.injEq] at hcells
      have hp := hdone p List.mem_cons_self
      simp only [List.flatten_cons, List.length_append, hp] at hfit
      obtain ⟨hret, hrecv⟩ := atmAal5Recv_data h hcells.1 hp (by omega) hnet heop
      have hlen : (got ++ p).length + done.flatten.length ≤ atmReasMaxSize := by
        simp only [List.length_append, hp]
        omega
      obtain ⟨hrets, hrecv'⟩ := ih hrecv hcells.2
        (fun q hq => hdone q (List.mem_cons_of_mem p hq)) hlen
      refine ⟨by simp [atmAal5RecvAll, hret, hrets, List.replicate_succ], ?_⟩
      rw [List.flatten_cons, ← List.append_assoc]
      exact hrecv'

theorem exists_cells {payloads : List (List Byte)} {hdr : BitVec 32}
    (h : ∀ p ∈ payloads, p.length = payloadSize) :
    ∃ cells : List AtmCell, cells.map AtmCell.bytes = payloads.map (cellOf hdr) := by
  induction payloads with
  | nil => exact ⟨[], rfl⟩
  | cons p payloads ih =>
    obtain ⟨cells, hcells⟩ := ih fun q hq => h q (List.mem_cons_of_mem p hq)
    exact ⟨⟨cellOf hdr p, length_cellOf (h p List.mem_cons_self)⟩ :: cells, by simp [hcells]⟩

def AtmCell.payload (cell : AtmCell) : List Byte := cell.bytes.drop hdrSize

theorem payload_cells {payloads : List (List Byte)} {hdr : BitVec 32} {cells : List AtmCell}
    (h : cells.map AtmCell.bytes = payloads.map (cellOf hdr)) :
    cells.flatMap AtmCell.payload = payloads.flatten := by
  have hdrop := congrArg (List.map (List.drop hdrSize)) h
  simp only [List.map_map, Function.comp_def, drop_cellOf, List.map_id'] at hdrop
  rw [List.flatMap_def, ← hdrop]
  rfl

theorem atmAal5Send_spec (hcrc : Incremental crc32Z) (vpi vci : BitVec 32)
    (iov : List (List Byte)) :
    ∃ (done : List (List Byte)) (last : List Byte) (pad : Nat) (body : List Byte),
      atmAal5Send crc32Z vpi vci iov = some (done.map (cellOf (atmSendStart vpi vci).atmHdr) ++
        [cellOf ((atmSendStart vpi vci).atmHdr ||| ptiEop) last]) ∧
      (∀ p ∈ done, p.length = payloadSize) ∧ last.length = payloadSize ∧ pad < payloadSize ∧
      body = iov.flatten ++ List.replicate pad 0 ++
        mHton32 (BitVec.ofNat 32 iov.flatten.length) ∧
      done.flatten ++ last = body ++ mHton32 (crc32Z 0 body) := by
  obtain ⟨asc, done, pending, hrun, hfifo, -, hbytes, hlen⟩ :=
    atmSendFragments_spec hcrc iov (fifo_start hcrc vpi vci) (Nat.succ_pos 47)
  obtain ⟨done', last, pad, body, hsent, hdone, hlast, hpad, hbody, hpdu⟩ := atmSendEnd_spec hcrc hfifo
  have hstart : (atmSendStart vpi vci).aal5Len = 0 := rfl
  rw [hlen, hstart, Nat.zero_add, hbytes] at hbody
  exact ⟨done', last, pad, body, Loop.bind_of_some hrun (congrArg some hsent), hdone, hlast,
    hpad, by simpa using hbody, hpdu⟩

theorem length_flatten_full {payloads : List (List Byte)}
    (h : ∀ p ∈ payloads, p.length = payloadSize) :
    payloads.flatten.length = payloads.length * payloadSize := by
  induction payloads with
  | nil => simp
  | cons p payloads ih =>
    have hp := h p List.mem_cons_self
    have htail := ih fun q hq => h q (List.mem_cons_of_mem p hq)
    rw [List.flatten_cons, List.length_append, hp, htail, List.length_cons, Nat.succ_mul,
      Nat.add_comm]

theorem pdu_split {front p body : List Byte} {len crc : BitVec 32}
    (hp : p.length = payloadSize) (h : front ++ p = body ++ mHton32 len ++ mHton32 crc) :
    ∃ start, p = start ++ mHton32 len ++ mHton32 crc ∧ start.length = 40 := by
  have hlen := congrArg List.length h
  simp only [List.length_append, length_mHton32, hp, payloadSize] at hlen
  have hdrop := congrArg (List.drop front.length) h
  rw [List.drop_left, List.append_assoc, List.drop_append_of_le_length (by omega)] at hdrop
  refine ⟨body.drop front.length, by rw [hdrop, List.append_assoc], ?_⟩
  rw [List.length_drop]
  omega

/-- The cells of a packet, received in order by a reset context, give back the
packet; the last four bytes of the PDU are the checksum of all the others. -/
theorem atmAal5_roundtrip (hcrc : Incremental crc32Z) (vpi vci : BitVec 32)
    (iov : List (List Byte)) (hlen : iov.flatten.length ≤ 16360) (arc : AtmReasContext) :
    ∃ cells : List AtmCell,
      atmAal5Send crc32Z vpi vci iov = some (cells.map AtmCell.bytes) ∧
      (atmAal5RecvAll (atmAal5RecvReset arc) cells).2 =
        List.replicate (cells.length - 1) 0 ++ [1] ∧
      (atmAal5RecvAll (atmAal5RecvReset arc) cells).1.len = iov.flatten.length ∧
      (atmAal5RecvAll (atmAal5RecvReset arc) cells).1.buffer.take iov.flatten.length =
        iov.flatten ∧
      ∃ body, cells.flatMap AtmCell.payload = body ++ mHton32 (crc32Z 0 body) := by
  obtain ⟨done, last, pad, body, hsend, hdone, hlast, hpad, hbody, hpdu⟩ :=
    atmAal5Send_spec hcrc vpi vci iov
  let hdr := (atmSendStart vpi vci).atmHdr
  obtain ⟨cells, hcells⟩ := @exists_cells _ hdr hdone
  let cell : AtmCell := ⟨cellOf (hdr ||| ptiEop) last, length_cellOf hlast⟩
  have hsplit : done.flatten ++ last = iov.flatten ++ List.replicate pad 0 ++
      mHton32 (BitVec.ofNat 32 iov.flatten.length) ++ mHton32 (crc32Z 0 body) := by
    rw [hpdu, hbody]
  obtain ⟨start, hstart, hstartlen⟩ := pdu_split hlast hsplit
  have hfit : done.flatten.length + payloadSize ≤ atmReasMaxSize := by
    have hcount := length_flatten_full hdone
    have htotal := congrArg List.length hsplit
    simp only [List.length_append, length_mHton32, hlast, List.length_replicate] at htotal
    simp only [payloadSize, atmReasMaxSize] at *
    omega
  have hnet := atmSendStart_pti vpi vci (show 3 < 4 by decide)
  have heop := atmSendStart_pti vpi vci (show 1 < 4 by decide)
  obtain ⟨hrets, hrecv⟩ := @atmAal5RecvAll_data _ hnet heop
    (atmAal5RecvReset arc) [] _ _ ⟨rfl, arc.buffer, rfl⟩ hcells hdone (by
      rw [List.length_nil, Nat.zero_add]
      exact Nat.le_trans (Nat.le_add_right _ _) hfit)
  rw [List.nil_append] at hrecv
  have hsize : (BitVec.ofNat 32 iov.flatten.length).setWidth 16 =
      BitVec.ofNat 16 iov.flatten.length := by simp
  have hvalue : ((BitVec.ofNat 32 iov.flatten.length).setWidth 16).toNat = iov.flatten.length := by
    rw [hsize, BitVec.toNat_ofNat]
    omega
  have hpdulen := congrArg List.length hsplit
  simp only [List.length_append, hlast] at hpdulen
  obtain ⟨hret, hall, hlen'⟩ := @atmAal5Recv_last _ _ _ _ _ _ _ cell hrecv rfl hlast hfit
    (by rw [BitVec.getLsbD_or, hnet]; rfl) (by rw [BitVec.getLsbD_or, heop]; rfl) hstart hstartlen
    (by rw [hvalue]; omega)
  refine ⟨cells ++ [cell], by rw [hsend, List.map_append, hcells]; rfl, ?_, ?_, ?_, body, ?_⟩
  · rw [atmAal5RecvAll_append, hrets]
    simp [atmAal5RecvAll, hret]
  · rw [atmAal5RecvAll_append]
    exact hlen'.trans hvalue
  · obtain ⟨-, rest, hbuf⟩ := hall
    rw [atmAal5RecvAll_append]
    change ((atmAal5Recv _ cell).1.buffer).take _ = _
    rw [hbuf, hsplit]
    simp only [List.append_assoc, List.take_left']
  · rw [List.flatMap_append, payload_cells hcells, ← hpdu]
    simp [AtmCell.payload, cell]

/-- CRC-32 bit by bit, with the polynomial of `crc32_init` and zlib's conditioning. -/
def crc32Bitwise (c : BitVec 32) (data : List Byte) : BitVec 32 :=
  ~~~(data.foldl (fun c b => Loop.loop (fun _ (c : BitVec 32) =>
    if c &&& 1 ≠ 0 then 0xedb88320 ^^^ (c >>> 1) else c >>> 1) 8 (c ^^^ b.setWidth 32)) (~~~c))

theorem incremental_crc32Bitwise : Incremental crc32Bitwise where
  nil := by simp [crc32Bitwise]
  append := by simp [crc32Bitwise, List.foldl_append]

def emptyReasContext : AtmReasContext := ⟨List.replicate atmReasMaxSize 0, 0, 0, by simp⟩

theorem atmAal5_roundtrip_two_fragments :
    Incremental crc32Bitwise ∧ ∃ cells : List AtmCell,
      atmAal5Send crc32Bitwise 5 32 [[1, 2, 3], [4, 5]] = some (cells.map AtmCell.bytes) ∧
      (atmAal5RecvAll (atmAal5RecvReset emptyReasContext) cells).2 =
        List.replicate (cells.length - 1) 0 ++ [1] ∧
      (atmAal5RecvAll (atmAal5RecvReset emptyReasContext) cells).1.len = 5 ∧
      (atmAal5RecvAll (atmAal5RecvReset emptyReasContext) cells).1.buffer.take 5 =
        [1, 2, 3, 4, 5] ∧
      ∃ body, cells.flatMap AtmCell.payload = body ++ mHton32 (crc32Bitwise 0 body) :=
  ⟨incremental_crc32Bitwise,
    atmAal5_roundtrip incremental_crc32Bitwise 5 32 [[1, 2, 3], [4, 5]] (by decide) emptyReasContext⟩

end Dynamips.AtmVsar
