import Dynamips.AtmReassembly
import Dynamips.AtmSwitchHeader
import Dynamips.Lib.Filters

/-! Ethernet over ATM (atm_bridge.c): the frames that a bridge sends over a virtual
circuit, through any number of ATM switches, to the bridge at its other end. -/
set_option autoImplicit false

namespace Dynamips.AtmBridge
open Atm AtmVsar Atmsw Filters Runs
open Rxl (NioPtr)

def ATM_RFC1483B_HLEN : Nat := 10

def atmRfc1483bHeader : List Byte :=
  [0xaa, 0xaa, 0x03, 0x00, 0x80, 0xc2, 0x00, 0x07, 0x00, 0x00]

/-- `atm_bridge_t`, with the NIOs left out. -/
structure Bridge where
  vpi : BitVec 32
  vci : BitVec 32
  arc : AtmReasContext

def atmAal5SendRfc1483b (crc32Z : BitVec 32 → List Byte → BitVec 32) (vpi vci : BitVec 32)
    (pkt : List Byte) : Option (List (List Byte)) :=
  atmAal5Send crc32Z vpi vci [atmRfc1483bHeader, pkt]

/-- The cells that a frame is sent in. -/
def atmBridgeRecvPkt (crc32Z : BitVec 32 → List Byte → BitVec 32) (t : Bridge)
    (pkt : List Byte) : Option (List (List Byte)) :=
  atmAal5SendRfc1483b crc32Z t.vpi t.vci pkt

/-- What a bridge makes of the status of a cell. -/
def recvStatus (t : Bridge) (arc : AtmReasContext) (status : Int) :
    Bridge × Int × List (List Byte) :=
  if status = 1 then
    ({ t with arc := atmAal5RecvReset arc }, 0,
      if ATM_RFC1483B_HLEN < arc.len ∧ arc.buffer.take ATM_RFC1483B_HLEN = atmRfc1483bHeader then
        [(arc.buffer.drop ATM_RFC1483B_HLEN).take (arc.len - ATM_RFC1483B_HLEN)]
      else [])
  else if status < 0 then ({ t with arc := atmAal5RecvReset arc }, -1, [])
  else ({ t with arc := arc }, 0, [])

/-- The result is what `atm_bridge_recv_cell` returns and the frames that it sends. -/
def atmBridgeRecvCell (t : Bridge) (atmCell : List Byte) : Bridge × Int × List (List Byte) :=
  if h : atmCell.length = cellSize then
    if t.vpi ≠ cellVpi atmCell ∨ t.vci ≠ cellVci atmCell then (t, 0, [])
    else recvStatus t (atmAal5Recv t.arc ⟨atmCell, h⟩).1 (atmAal5Recv t.arc ⟨atmCell, h⟩).2
  else (t, -1, [])

/-- The frames that come out for each cell. -/
def recvFilter : Filter (List Byte) (List Byte) Bridge := fun t cell =>
  ((atmBridgeRecvCell t cell).1, (atmBridgeRecvCell t cell).2.2)

/-- The VPI and the VCI of a cell. -/
abbrev Label := BitVec 32 × BitVec 32

def label (cell : List Byte) : Label := (cellVpi cell, cellVci cell)

/-- A switch on the way, with the connection that the cells are to take. -/
structure Hop where
  switch : State
  input : NioPtr
  conn : Conn
  reached : ∃ n trace, Run Step (.init n) trace switch

/-- A cell goes out where the connection leads to. -/
def Hop.forward (h : Hop) (cell : List Byte) : Option (List Byte) :=
  match atmswRecvCell h.switch.table h.input cell with
  | some (some output, cell') => if output = h.conn.output then some cell' else none
  | _ => none

def forward (hops : List Hop) (cell : List Byte) : Option (List Byte) :=
  hops.foldlM (fun cell h => h.forward cell) cell

def relabel (l : Label) : Conn → Label
  | .vp vpc => (vpc.vpiOut, l.2)
  | .vc vcc => (vcc.vpiOut, vcc.vciOut)

/-- The connections of the switches lead from one virtual circuit to the other. -/
def Route : List Hop → Label → Label → Prop
  | [], l, l' => l = l'
  | h :: hops, l, l' =>
    (∀ cell, label cell = l → h.conn.Matches h.switch.table h.input cell) ∧ h.conn.FitsHeader ∧
      Route hops (relabel l h.conn) l'

/-- The cell is one for this virtual circuit. -/
def accepts (l : Label) (cell : List Byte) : Bool :=
  decide (cell.length = cellSize) && decide (label cell = l)

variable {crc32Z : BitVec 32 → List Byte → BitVec 32} {t a b : Bridge} {l l' : Label}
  {cell cell' : List Byte} {hops : List Hop}

/-- What the reassembly reads of a cell is the same for the other cell. -/
structure Same (cell cell' : List Byte) : Prop where
  length : cell.length = cellSize
  length' : cell'.length = cellSize
  ptiClp : cellPtiClp cell' = cellPtiClp cell
  payload : cell'.drop hdrSize = cell.drop hdrSize

theorem Same.trans {cell'' : List Byte} (h : Same cell cell') (h' : Same cell' cell'') :
    Same cell cell'' :=
  ⟨h.length, h'.length', h'.ptiClp.trans h.ptiClp, h'.payload.trans h.payload⟩

theorem Same.flag (h : Same cell cell') {i : Nat} (hi : i < 4) :
    (mNtoh32 cell').getLsbD i = (mNtoh32 cell).getLsbD i := by
  have hbit := congrArg (BitVec.getLsbD · i) h.ptiClp
  have hmask : (0xf : BitVec 32).getLsbD i = true := by
    have hlow : (0xf : BitVec 32).getLsbD i = decide (i < 4) := @lowMask_getLsbD 4 (by decide) i
    rw [hlow, decide_eq_true hi]
  simpa only [cellPtiClp, BitVec.getLsbD_and, hmask, Bool.and_true] using hbit

theorem Same.recv (h : Same cell cell') (arc : AtmReasContext) :
    atmAal5Recv arc ⟨cell', h.length'⟩ = atmAal5Recv arc ⟨cell, h.length⟩ := by
  have hnet : (mNtoh32 cell' &&& ptiNetwork ≠ 0) = (mNtoh32 cell &&& ptiNetwork ≠ 0) := by
    rw [and_ptiNetwork, and_ptiNetwork, h.flag (by decide)]
  have heop : (mNtoh32 cell' &&& ptiEop ≠ 0) = (mNtoh32 cell &&& ptiEop ≠ 0) := by
    rw [and_ptiEop, and_ptiEop, h.flag (by decide)]
  have htrailer : cell'.drop (aal5TrailerPos + 2) = cell.drop (aal5TrailerPos + 2) := by
    rw [show aal5TrailerPos + 2 = hdrSize + 42 from rfl, ← List.drop_drop, h.payload,
      List.drop_drop]
  have hcopy : ∀ hfit, atmCopyPayload arc ⟨cell', h.length'⟩ hfit =
      atmCopyPayload arc ⟨cell, h.length⟩ hfit := by
    intro hfit
    simp only [atmCopyPayload, h.payload]
  simp only [atmAal5Recv, hnet, heop, htrailer, hcopy]

theorem label_eq (hop : Hop) (hlen : cell.length = cellSize)
    (h : Switched hop.conn cell cell') : label cell' = relabel (label cell) hop.conn ∧
      Same cell cell' := by
  refine ⟨?_, hlen, h.length, h.ptiClp, h.payload⟩
  rw [label, h.label]
  cases hop.conn <;> rfl

theorem Hop.placed (h : Hop) : Placed h.switch.table := by
  obtain ⟨n, trace, hrun⟩ := h.reached
  exact (hrun.always (fun _ _ _ h hs => placed_step h hs) (placed_init n)).1

theorem forward_hop (hop : Hop) (hlen : cell.length = cellSize)
    (hmatch : hop.conn.Matches hop.switch.table hop.input cell) (hfits : hop.conn.FitsHeader) :
    hop.forward cell = some (hop.conn.switch cell) ∧
      label (hop.conn.switch cell) = relabel (label cell) hop.conn ∧
      Same cell (hop.conn.switch cell) := by
  have hswitched : Switched hop.conn cell (hop.conn.switch cell) := by
    cases hconn : hop.conn with
    | vp vpc => exact (vpSwitched_iff hlen vpc).mpr (by rwa [hconn] at hfits)
    | vc vcc => exact (vcSwitched_iff hlen vcc).mpr (by rwa [hconn] at hfits)
  refine ⟨?_, label_eq hop hlen hswitched⟩
  rw [Hop.forward, recvCell_matches hop.placed hlen hmatch]
  exact if_pos rfl

/-- A cell of the first circuit comes out on the second one. -/
theorem forward_route (hroute : Route hops l l') (hlen : cell.length = cellSize)
    (hlabel : label cell = l) :
    ∃ cell', forward hops cell = some cell' ∧ label cell' = l' ∧ Same cell cell' := by
  induction hops generalizing cell l with
  | nil => exact ⟨cell, rfl, hlabel.trans hroute, hlen, hlen, rfl, rfl⟩
  | cons hop hops ih =>
    obtain ⟨hmatch, hfits, hrest⟩ := hroute
    obtain ⟨hforward, hout, hsame⟩ := forward_hop hop hlen (hmatch cell hlabel) hfits
    rw [hlabel] at hout
    obtain ⟨cell', hrun, hlabel', hsame'⟩ := ih hrest hsame.length' hout
    refine ⟨cell', ?_, hlabel', hsame.trans hsame'⟩
    rw [forward, List.foldlM_cons, hforward]
    exact hrun

/-- A cell as it arrives on a circuit, and as it was sent. -/
def Arrives (l : Label) (cell cell' : List Byte) : Prop := Same cell cell' ∧ label cell' = l

theorem recvFilter_other (h : accepts (t.vpi, t.vci) cell = false) :
    recvFilter t cell = (t, []) := by
  have hnot : ¬ (cell.length = cellSize ∧ t.vpi = cellVpi cell ∧ t.vci = cellVci cell) := by
    rintro ⟨hlen, hvpi, hvci⟩
    rw [accepts, decide_eq_true hlen, hvpi, hvci, label, decide_eq_true rfl] at h
    cases h
  rw [recvFilter, atmBridgeRecvCell]
  split
  · rename_i hlen
    rw [if_pos]
    by_cases hvpi : t.vpi = cellVpi cell
    · exact Or.inr fun hvci => hnot ⟨hlen, hvpi, hvci⟩
    · exact Or.inl hvpi
  · rfl

theorem recvFilter_vc (t : Bridge) (cell : List Byte) :
    ((recvFilter t cell).1.vpi, (recvFilter t cell).1.vci) = (t.vpi, t.vci) := by
  simp only [recvFilter, atmBridgeRecvCell, recvStatus]
  split
  · split
    · rfl
    · split
      · rfl
      · split <;> rfl
  · rfl

theorem recvFilter_mine (h : Arrives (t.vpi, t.vci) cell cell') :
    recvFilter t cell' =
      ((recvStatus t (atmAal5Recv t.arc ⟨cell, h.1.length⟩).1
          (atmAal5Recv t.arc ⟨cell, h.1.length⟩).2).1,
        (recvStatus t (atmAal5Recv t.arc ⟨cell, h.1.length⟩).1
          (atmAal5Recv t.arc ⟨cell, h.1.length⟩).2).2.2) := by
  have hlabel := Prod.mk.inj h.2
  rw [recvFilter, atmBridgeRecvCell, dif_pos h.1.length', if_neg, h.1.recv]
  rw [hlabel.1, hlabel.2]
  simp

theorem recv_data {hdr : BitVec 32} (hnet : hdr.getLsbD 3 = false) (heop : hdr.getLsbD 1 = false)
    {g : List Byte → List Byte} {got : List Byte} {done : List (List Byte)}
    (h : Received t.arc got) (hdone : ∀ p ∈ done, p.length = payloadSize)
    (hcells : ∀ p ∈ done, Arrives (t.vpi, t.vci) (cellOf hdr p) (g (cellOf hdr p)))
    (hfit : got.length + done.flatten.length ≤ atmReasMaxSize) :
    ∃ arc, run recvFilter t (done.map fun p => g (cellOf hdr p)) = ({ t with arc := arc }, []) ∧
      Received arc (got ++ done.flatten) := by
  induction done generalizing t got with
  | nil => exact ⟨t.arc, rfl, by rwa [List.flatten_nil, List.append_nil]⟩
  | cons p done ih =>
    have hp := hdone p List.mem_cons_self
    rw [List.flatten_cons, List.length_append, hp] at hfit
    have hcell := hcells p List.mem_cons_self
    obtain ⟨hstatus, hrecv⟩ :=
      @atmAal5Recv_data _ _ _ _ ⟨cellOf hdr p, hcell.1.length⟩ h rfl hp (by omega) hnet heop
    obtain ⟨arc, hrun, hall⟩ := @ih { t with arc := (atmAal5Recv t.arc ⟨_, hcell.1.length⟩).1 }
      _ hrecv (fun q hq => hdone q (List.mem_cons_of_mem p hq))
      (fun q hq => hcells q (List.mem_cons_of_mem p hq))
      (by rw [List.length_append, hp]; omega)
    refine ⟨arc, ?_, by rwa [List.flatten_cons, ← List.append_assoc]⟩
    rw [List.map_cons, run, recvFilter_mine hcell, hstatus]
    simp only [recvStatus]
    exact hrun

theorem label_sent {vpi vci : BitVec 32} (hvpi : vpi.toNat < 2 ^ 12) (hvci : vci.toNat < 2 ^ 16)
    {flags : BitVec 32} (hflags : flags &&& ~~~(hdrVpiMask ||| hdrVciMask) = flags)
    {p : List Byte} (hp : p.length = payloadSize) :
    label (cellOf ((atmSendStart vpi vci).atmHdr ||| flags) p) = (vpi, vci) := by
  let vcc : AtmswVcConn := ⟨0, 0, 0, 0, vpi, vci⟩
  have hswitch : atmswVcSwitch vcc (cellOf flags p) =
      cellOf ((atmSendStart vpi vci).atmHdr ||| flags) p := by
    have hhdr : flags &&& ~~~(hdrVpiMask ||| hdrVciMask) ||| vpi <<< hdrVpiShift |||
        vci <<< hdrVciShift = (atmSendStart vpi vci).atmHdr ||| flags := by
      rw [hflags, BitVec.or_assoc, BitVec.or_comm]
      rfl
    rw [atmswVcSwitch, cellOf, mNtoh32_mHton32]
    simp only [vcc, hhdr]
    rw [memcpy, List.take_zero, List.nil_append, length_mHton32,
      List.drop_left' (length_mHton32 flags), atmInsertHec_mHton32]
  have hswitched :=
    (@vcSwitched_iff (cellOf flags p) (length_cellOf hp) vcc).mpr ⟨hvpi, hvci⟩
  rw [hswitch] at hswitched
  exact hswitched.label

theorem cells_sent {vpi vci : BitVec 32} (hvpi : vpi.toNat < 2 ^ 12) (hvci : vci.toNat < 2 ^ 16)
    {done : List (List Byte)} {last : List Byte} (hdone : ∀ p ∈ done, p.length = payloadSize)
    (hlast : last.length = payloadSize) :
    ∀ cell ∈ done.map (cellOf (atmSendStart vpi vci).atmHdr) ++
        [cellOf ((atmSendStart vpi vci).atmHdr ||| ptiEop) last],
      cell.length = cellSize ∧ label cell = (vpi, vci) := by
  intro cell hmem
  simp only [List.mem_append, List.mem_map, List.mem_singleton] at hmem
  obtain ⟨p, hp, rfl⟩ | rfl := hmem
  · have hlabel := label_sent hvpi hvci
      (show 0#32 &&& ~~~(hdrVpiMask ||| hdrVciMask) = 0#32 by decide) (hdone p hp)
    rw [BitVec.or_zero] at hlabel
    exact ⟨length_cellOf (hdone p hp), hlabel⟩
  · exact ⟨length_cellOf hlast, label_sent hvpi hvci
      (show ptiEop &&& ~~~(hdrVpiMask ||| hdrVciMask) = ptiEop by decide) hlast⟩

theorem recvStatus_packet {arc : AtmReasContext} {pkt rest : List Byte}
    (hlen : arc.len = 10 + pkt.length) (hbuf : arc.buffer = atmRfc1483bHeader ++ (pkt ++ rest)) :
    recvStatus t arc 1 =
      ({ t with arc := atmAal5RecvReset arc }, 0, if pkt = [] then [] else [pkt]) := by
  have htake : arc.buffer.take ATM_RFC1483B_HLEN = atmRfc1483bHeader := by
    rw [hbuf]
    exact List.take_left' rfl
  have hdrop : (arc.buffer.drop ATM_RFC1483B_HLEN).take (10 + pkt.length - ATM_RFC1483B_HLEN) =
      pkt := by
    rw [hbuf, List.drop_left' (show atmRfc1483bHeader.length = ATM_RFC1483B_HLEN from rfl),
      ATM_RFC1483B_HLEN, Nat.add_sub_cancel_left]
    exact List.take_left' rfl
  simp only [recvStatus, if_true, htake, and_true, hlen, hdrop]
  cases pkt with
  | nil => rfl
  | cons x pkt => simp [ATM_RFC1483B_HLEN]

/-- The cells of a frame that a bridge sends, and one frame at the other end. -/
theorem recv_frame (hcrc : Incremental crc32Z) (hvpi : a.vpi.toNat < 2 ^ 12)
    (hvci : a.vci.toNat < 2 ^ 16) {pkt : List Byte} (hlen : pkt.length ≤ 16350)
    (hidle : t.arc.bufPos = 0) {g : List Byte → List Byte}
    (hg : ∀ cell, cell.length = cellSize → label cell = (a.vpi, a.vci) →
      Arrives (t.vpi, t.vci) cell (g cell)) :
    ∃ cells, atmBridgeRecvPkt crc32Z a pkt = some cells ∧
      (∀ cell ∈ cells, cell.length = cellSize ∧ label cell = (a.vpi, a.vci)) ∧
      ∃ arc, arc.bufPos = 0 ∧ run recvFilter t (cells.map g) =
        ({ t with arc := arc }, if pkt = [] then [] else [pkt]) := by
  obtain ⟨done, last, pad, body, hsend, hdone, hlast, hpad, hbody, hpdu⟩ :=
    atmAal5Send_spec hcrc a.vpi a.vci [atmRfc1483bHeader, pkt]
  have hdata : [atmRfc1483bHeader, pkt].flatten = atmRfc1483bHeader ++ pkt := by simp
  have hsize : (atmRfc1483bHeader ++ pkt).length = 10 + pkt.length := List.length_append
  rw [hdata, hsize] at hbody
  have hsplit : done.flatten ++ last = atmRfc1483bHeader ++ pkt ++ List.replicate pad 0 ++
      mHton32 (BitVec.ofNat 32 (10 + pkt.length)) ++ mHton32 (crc32Z 0 body) := by
    rw [hpdu, hbody]
  obtain ⟨start, hstart, hstartlen⟩ := pdu_split hlast hsplit
  have htotal := congrArg List.length hsplit
  simp only [List.length_append, length_mHton32, hlast, List.length_replicate] at htotal
  have hheader : atmRfc1483bHeader.length = 10 := rfl
  have hfit : done.flatten.length + payloadSize ≤ atmReasMaxSize := by
    have hcount := length_flatten_full hdone
    simp only [payloadSize, atmReasMaxSize] at *
    omega
  have hnet := atmSendStart_pti a.vpi a.vci (show 3 < 4 by decide)
  have heop := atmSendStart_pti a.vpi a.vci (show 1 < 4 by decide)
  have hcells := cells_sent hvpi hvci hdone hlast
  have harrive := fun cell hmem => hg cell (hcells cell hmem).1 (hcells cell hmem).2
  have hempty : Received t.arc [] := ⟨hidle, t.arc.buffer, rfl⟩
  obtain ⟨arc, hrun, hgot⟩ := recv_data hnet heop (g := g) hempty hdone
    (fun p hp => harrive _ (List.mem_append_left _ (List.mem_map_of_mem hp)))
    (by rw [List.length_nil]; omega)
  rw [List.nil_append] at hgot
  have hvalue : ((BitVec.ofNat 32 (10 + pkt.length)).setWidth 16).toNat = 10 + pkt.length := by
    rw [BitVec.toNat_setWidth, BitVec.toNat_ofNat]
    omega
  have hcell := harrive _ (List.mem_append_right _ (List.mem_singleton_self _))
  obtain ⟨hstatus, hall, hlen'⟩ :=
    @atmAal5Recv_last _ _ _ _ _ _ _ ⟨_, hcell.1.length⟩ hgot rfl hlast hfit
    (by rw [BitVec.getLsbD_or, hnet]; rfl) (by rw [BitVec.getLsbD_or, heop]; rfl) hstart
    hstartlen (by rw [hvalue]; omega)
  rw [hvalue] at hlen'
  obtain ⟨-, rest, hbuf⟩ := hall
  rw [hsplit] at hbuf
  simp only [List.append_assoc] at hbuf
  have hpacket := @recvStatus_packet { t with arc := arc }
    (atmAal5Recv arc ⟨_, hcell.1.length⟩).1 pkt _ hlen' hbuf
  refine ⟨_, hsend, hcells, atmAal5RecvReset (atmAal5Recv arc ⟨_, hcell.1.length⟩).1, rfl, ?_⟩
  rw [List.map_append, List.map_map, List.map_singleton, run_append]
  have hdoneRun : run recvFilter t (done.map (g ∘ cellOf (atmSendStart a.vpi a.vci).atmHdr)) =
    ({ t with arc := arc }, []) := hrun
  rw [hdoneRun, run_singleton, recvFilter_mine (t := { t with arc := arc }) hcell, hstatus,
    hpacket]
  rfl

theorem recv_frames (hcrc : Incremental crc32Z) (hvpi : a.vpi.toNat < 2 ^ 12)
    (hvci : a.vci.toNat < 2 ^ 16) (hidle : t.arc.bufPos = 0) {frames : List (List Byte)}
    (hlen : ∀ f ∈ frames, f.length ≤ 16350) {g : List Byte → List Byte}
    (hg : ∀ cell, cell.length = cellSize → label cell = (a.vpi, a.vci) →
      Arrives (t.vpi, t.vci) cell (g cell)) :
    ∃ sent, frames.mapM (atmBridgeRecvPkt crc32Z a) = some sent ∧
      (∀ cell ∈ sent.flatten, cell.length = cellSize ∧ label cell = (a.vpi, a.vci)) ∧
      (run recvFilter t (sent.flatten.map g)).2 = frames.filter (· ≠ []) := by
  induction frames generalizing t with
  | nil => exact ⟨[], rfl, by simp, rfl⟩
  | cons pkt frames ih =>
    obtain ⟨cells, hcells, hmine, arc, harc, hrun⟩ :=
      recv_frame hcrc hvpi hvci (hlen pkt List.mem_cons_self) hidle hg
    obtain ⟨sent, hsent, hall, hrest⟩ := @ih { t with arc := arc } harc
      (fun f hf => hlen f (List.mem_cons_of_mem pkt hf)) hg
    refine ⟨cells :: sent, by simp [List.mapM_cons, hcells, hsent], ?_, ?_⟩
    · intro cell hmem
      rw [List.flatten_cons, List.mem_append] at hmem
      exact hmem.elim (hmine cell) (hall cell)
    · rw [List.flatten_cons, List.map_append, run_append, hrun, hrest]
      by_cases hpkt : pkt = [] <;> simp [hpkt]

/-- Frames that a bridge sends come out of the bridge at the other end of the
circuit, one by one and in order, whatever else arrives there in between. -/
theorem frames_tunnelled (hcrc : Incremental crc32Z) (hvpi : a.vpi.toNat < 2 ^ 12)
    (hvci : a.vci.toNat < 2 ^ 16) (hroute : Route hops (a.vpi, a.vci) (b.vpi, b.vci))
    (hidle : b.arc.bufPos = 0) {frames : List (List Byte)}
    (hlen : ∀ f ∈ frames, f.length ≤ 16350) :
    ∃ sent, frames.mapM (atmBridgeRecvPkt crc32Z a) = some sent ∧
      (∀ cell ∈ sent.flatten, (forward hops cell).isSome) ∧
      ∀ stream, stream.filter (accepts (b.vpi, b.vci)) =
          sent.flatten.filterMap (forward hops) →
        (run recvFilter b stream).2 = frames.filter (· ≠ []) := by
  let g : List Byte → List Byte := fun cell => (forward hops cell).getD cell
  have hg : ∀ cell, cell.length = cellSize → label cell = (a.vpi, a.vci) →
      forward hops cell = some (g cell) ∧ Arrives (b.vpi, b.vci) cell (g cell) := by
    intro cell hcell hlabel
    obtain ⟨cell', hforward, hout, hsame⟩ := forward_route hroute hcell hlabel
    simp only [g, hforward, Option.getD_some]
    exact ⟨trivial, hsame, hout⟩
  obtain ⟨sent, hsent, hmine, hrun⟩ := recv_frames hcrc hvpi hvci hidle hlen
    fun cell hcell hlabel => (hg cell hcell hlabel).2
  have hforward : ∀ cell ∈ sent.flatten, forward hops cell = some (g cell) :=
    fun cell hmem => (hg cell (hmine cell hmem).1 (hmine cell hmem).2).1
  refine ⟨sent, hsent, fun cell hmem => by rw [hforward cell hmem]; rfl, fun stream hstream => ?_⟩
  have harrived : sent.flatten.filterMap (forward hops) = sent.flatten.map g := by
    rw [List.filterMap_congr hforward]
    exact congrFun List.filterMap_eq_map' _
  have hmoved : ∀ (s : Bridge) (cell : List Byte), (s.vpi, s.vci) = (b.vpi, b.vci) →
      ((recvFilter s cell).1.vpi, (recvFilter s cell).1.vci) = (b.vpi, b.vci) := by
    intro s cell hs
    exact (recvFilter_vc s cell).trans hs
  rw [Filters.run_filter recvFilter b hmoved (fun s cell hs hp => recvFilter_other (by rwa [hs]))
    rfl, hstream, harrived, hrun]

def oneHop : Hop := ⟨vccTo 9, 0, .vc ⟨0, 1, 1, 7, 2, 9⟩, ⟨_, _, vccTo_run 9⟩⟩

theorem oneHop_route : Route [oneHop] (1, 7) (2, 9) := by
  refine ⟨fun cell hlabel => ?_, ⟨by decide, by decide⟩, rfl⟩
  obtain ⟨hin, -, hfirst⟩ := vccTo_matches 9
  obtain ⟨hvpi, hvci⟩ := Prod.mk.inj hlabel
  refine ⟨hin, ?_, ?_⟩
  · rw [hvpi, hvci]
    exact ⟨rfl, rfl, rfl⟩
  · rw [hvpi]
    exact hfirst

theorem frames_tunnelled_hop : ∃ sent, ([[1, 2, 3], [4]] : List (List Byte)).mapM
    (atmBridgeRecvPkt crc32Bitwise ⟨1, 7, emptyReasContext⟩) = some sent ∧
    (∀ cell ∈ sent.flatten, (forward [oneHop] cell).isSome) ∧
    ∀ stream, stream.filter (accepts (2, 9)) = sent.flatten.filterMap (forward [oneHop]) →
      (run recvFilter ⟨2, 9, emptyReasContext⟩ stream).2 = [[1, 2, 3], [4]] :=
  @frames_tunnelled crc32Bitwise ⟨1, 7, emptyReasContext⟩ ⟨2, 9, emptyReasContext⟩ [oneHop]
    incremental_crc32Bitwise (by decide) (by decide) oneHop_route rfl _ (by decide)

end Dynamips.AtmBridge
