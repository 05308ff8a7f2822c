import Dynamips.FrameRelayRun

/-! The LMI of the Frame Relay switches: the elements of a status enquiry, and the
response that lists the DLCIs of the NIO. -/
set_option autoImplicit false

namespace Dynamips.Frsw
open BackLinks Buckets Rxl Nio Runs

def lmiAnsiHdr : List Byte := [0x00, 0x01, 0x03, 0x08, 0x00, 0x75, 0x95]

def frLmiAnsiStatusOffset : Nat := 5

def frLmiAnsiStatus : Byte := 0x7d

def frMaxPktSize : Nat := 2048

/-- The locals of `frsw_handle_lmi_ansi_pkt` with `fr_lmi_seq` of the NIO. `resp` holds
the bytes in front of `pres`, `reads` the offsets of the packet that were read. -/
structure LmiLoop where
  lmiSeq : Byte
  msgType : Int
  seqOk : Bool
  resp : List Byte
  reads : List Nat

/-- `fr_lmi_seq` after a sequence element with the received number. -/
def lmiNextSeq (lmiSeq rcvd : Byte) : Byte :=
  let lmiSeq := if lmiSeq ≠ rcvd then rcvd else lmiSeq
  let lmiSeq := lmiSeq + 1
  if lmiSeq = 0 then lmiSeq + 1 else lmiSeq

/-- The report element. The flag is false where the function returns -1. -/
def lmiReport (pkt : List Byte) (preq isize : Nat) (st : LmiLoop) : Bool × LmiLoop :=
  if isize ≠ 1 then (false, st)
  else
    let msgType := (pkt.getD (preq + 2) 0).toNat
    let st := { st with msgType, reads := st.reads ++ [preq + 2] }
    if msgType > 1 then (false, st)
    else (true, { st with resp := st.resp ++ [0x01, 0x01, BitVec.ofNat 8 msgType] })

def lmiSequences (pkt : List Byte) (preq isize : Nat) (st : LmiLoop) : Bool × LmiLoop :=
  if isize ≠ 2 then (false, st)
  else
    let lmiSeq := lmiNextSeq st.lmiSeq (pkt.getD (preq + 3) 0)
    (true, { st with
      lmiSeq
      seqOk := true
      resp := st.resp ++ [0x03, 0x02, lmiSeq, pkt.getD (preq + 2) 0]
      reads := st.reads ++ [preq + 3, preq + 2] })

/-- The loop over the elements, with the label `done`. No result when it has not ended. -/
def lmiItems (pkt : List Byte) : Nat → Nat → LmiLoop → Option (Bool × LmiLoop)
  | 0, _, _ => none
  | fuel + 1, preq, st =>
    if preq + 2 < pkt.length then
      let itype := pkt.getD preq 0
      let isize := (pkt.getD (preq + 1) 0).toNat
      let st := { st with reads := st.reads ++ [preq, preq + 1] }
      if preq + isize + 2 > pkt.length then some (false, st)
      else if itype = 0x01 then
        let r := lmiReport pkt preq isize st
        if r.1 then lmiItems pkt fuel (preq + isize + 2) r.2 else some r
      else if itype = 0x03 then
        let r := lmiSequences pkt preq isize st
        if r.1 then lmiItems pkt fuel (preq + isize + 2) r.2 else some r
      else some (true, st)
    else some (true, st)

def lmiDlci (dlci : BitVec 32) : List Byte :=
  [0x07, 0x03, (dlci >>> 4).setWidth 8, (0x80 ||| ((dlci &&& 0x0f) <<< 3)).setWidth 8, 0x82]

/-- The loop over `fr_conn_list`, from a cell of it. -/
def lmiAdvertise (s : FrState) : Nat → Cell NioPtr VcPtr → List Byte → Option (List Byte)
  | 0, _, _ => none
  | fuel + 1, c, resp =>
    match s.links.read c with
    | none => some resp
    | some sc => lmiAdvertise s fuel (.next sc) (resp ++ lmiDlci (s.conns sc).dlciIn)

/-- A call of the handler: what it returns and sends, the offsets of the packet that
it read and how many bytes of `resp` it wrote. -/
structure LmiCall where
  ret : Int
  lmiSeq : Byte
  sent : Option (List Byte)
  reads : List Nat
  written : Nat

def LmiLoop.start (lmiSeq : Byte) : LmiLoop where
  lmiSeq := lmiSeq
  msgType := -1
  seqOk := false
  resp := lmiAnsiHdr.set frLmiAnsiStatusOffset frLmiAnsiStatus
  reads := List.range lmiAnsiHdr.length

def lmiRespond (fuel : Nat) (s : FrState) (input : NioPtr) (ok : Bool) (st : LmiLoop) :
    Option LmiCall :=
  if !ok || decide (st.msgType = -1) || !st.seqOk then
    some ⟨-1, st.lmiSeq, none, st.reads, st.resp.length⟩
  else if st.msgType = 0 then
    (lmiAdvertise s fuel (.head input) st.resp).map fun resp =>
      ⟨0, st.lmiSeq, some resp, st.reads, resp.length⟩
  else
    some ⟨0, st.lmiSeq, some st.resp, st.reads, st.resp.length⟩

def frswHandleLmiAnsiPkt (fuel : Nat) (s : FrState) (input : NioPtr) (lmiSeq : Byte)
    (pkt : List Byte) : Option LmiCall :=
  if pkt.length ≤ lmiAnsiHdr.length then some ⟨-1, lmiSeq, none, [], 0⟩
  else if pkt.take lmiAnsiHdr.length ≠ lmiAnsiHdr then
    some ⟨-1, lmiSeq, none, List.range lmiAnsiHdr.length, 0⟩
  else
    (lmiItems pkt fuel lmiAnsiHdr.length (LmiLoop.start lmiSeq)).bind fun r =>
      lmiRespond fuel s input r.1 r.2

/-! What the handler is for. -/

inductive LmiItem where
  | report (full : Bool)
  | sequences (send rcvd : Byte)

def LmiItem.bytes : LmiItem → List Byte
  | .report full => [0x01, 0x01, if full then 0 else 1]
  | .sequences send rcvd => [0x03, 0x02, send, rcvd]

def LmiItem.full? : LmiItem → Option Bool
  | .report full => some full
  | .sequences _ _ => none

/-- The end of the elements: too few bytes for one, or one of a type that is not known. -/
def Stops : List Byte → Bool
  | ty :: size :: _ :: rest =>
    decide (size.toNat ≤ rest.length + 1) && decide (ty ≠ 0x01) && decide (ty ≠ 0x03)
  | _ => true

def AsksFull (pkt : List Byte) (items : List LmiItem) : Prop :=
  (∃ rest, pkt = lmiAnsiHdr ++ (items.flatMap LmiItem.bytes ++ rest) ∧ Stops rest) ∧
    (items.filterMap LmiItem.full?).getLast? = some true ∧
    ∃ send rcvd, LmiItem.sequences send rcvd ∈ items

def lmiElements : Nat → List Byte → List (Byte × List Byte)
  | fuel + 1, ty :: size :: rest =>
    (ty, rest.take size.toNat) :: lmiElements fuel (rest.drop size.toNat)
  | _, _ => []

def elementDlci (v : List Byte) : BitVec 32 :=
  ((v.getD 0 0 &&& 0x3f).setWidth 32 <<< 4) ||| ((v.getD 1 0 &&& 0x78) >>> 3).setWidth 32

def announced (out : List Byte) : List (BitVec 32) :=
  ((lmiElements out.length (out.drop lmiAnsiHdr.length)).filter fun e => e.1 == 0x07).map
    fun e => elementDlci e.2

def OfNio (s : FrState) (nio : NioPtr) (vc : VcPtr) : Prop := Live s vc ∧ (s.conns vc).input = nio

/-- These are the DLCIs of the connections of the NIO, in ascending order. -/
def ListsDlcis (s : FrState) (nio : NioPtr) (dlcis : List (BitVec 32)) : Prop :=
  ∃ l : List VcPtr, l.Nodup ∧ (∀ vc, vc ∈ l ↔ OfNio s nio vc) ∧
    dlcis = l.map (fun vc => (s.conns vc).dlciIn) ∧ dlcis.Pairwise (· ≤ ·)

/-- The handler comes back, reads inside the packet, writes inside `resp`, and
answers a full status enquiry with the DLCIs of the NIO. -/
def LmiOk (s : FrState) (nio : NioPtr) (lmiSeq : Byte) (pkt : List Byte) : Prop :=
  ∃ fuel r, frswHandleLmiAnsiPkt fuel s nio lmiSeq pkt = some r ∧
    (∀ o ∈ r.reads, o < pkt.length) ∧ r.written ≤ frMaxPktSize ∧
    ∀ items, AsksFull pkt items → ∃ out, r.sent = some out ∧ ListsDlcis s nio (announced out)

/-- The elements of the packet fit in `resp`, and where they ask for a full status so
do five bytes for each connection of the NIO, whose DLCIs have ten bits. -/
structure LmiFits (s : FrState) (nio : NioPtr) (pkt : List Byte) : Prop where
  front : ∀ (items : List LmiItem) rest, pkt = lmiAnsiHdr ++ (items.flatMap LmiItem.bytes ++ rest) →
    lmiAnsiHdr.length + (items.flatMap LmiItem.bytes).length ≤ frMaxPktSize
  full : ∀ items, AsksFull pkt items → ∀ l : List VcPtr, l.Nodup → (∀ vc ∈ l, OfNio s nio vc) →
    lmiAnsiHdr.length + (items.flatMap LmiItem.bytes).length + 5 * l.length ≤ frMaxPktSize
  dlcis : ∀ items, AsksFull pkt items → ∀ vc, OfNio s nio vc → (s.conns vc).dlciIn.toNat < 1024

variable {s : FrState} {nio : NioPtr} {lmiSeq : Byte} {pkt rest : List Byte} {fuel preq : Nat}
  {st st' : LmiLoop} {ok : Bool} {items : List LmiItem} {item : LmiItem}

/-! The loop over the elements. -/

def LmiLoop.step (preq : Nat) (st : LmiLoop) : LmiItem → LmiLoop
  | .report full =>
    { st with
      msgType := if full then 0 else 1
      resp := st.resp ++ [0x01, 0x01, if full then 0 else 1]
      reads := st.reads ++ [preq, preq + 1] ++ [preq + 2] }
  | .sequences send rcvd =>
    { st with
      lmiSeq := lmiNextSeq st.lmiSeq rcvd
      seqOk := true
      resp := st.resp ++ [0x03, 0x02, lmiNextSeq st.lmiSeq rcvd, send]
      reads := st.reads ++ [preq, preq + 1] ++ [preq + 3, preq + 2] }

def LmiLoop.steps : Nat → LmiLoop → List LmiItem → LmiLoop
  | _, st, [] => st
  | preq, st, item :: l => (st.step preq item).steps (preq + item.bytes.length) l

theorem getD_of_drop {d : List Byte} (h : pkt.drop preq = d) (k : Nat) :
    pkt.getD (preq + k) 0 = d.getD k 0 := by
  rw [← h, List.getD_eq_getElem?_getD, List.getD_eq_getElem?_getD, List.getElem?_drop]

theorem length_of_drop {d : List Byte} (h : pkt.drop preq = d) (hd : d ≠ []) :
    pkt.length = preq + d.length := by
  have hlen := congrArg List.length h
  have hpos := List.length_pos_of_ne_nil hd
  rw [List.length_drop] at hlen
  omega

theorem lmiItems_item (h : pkt.drop preq = item.bytes ++ rest) :
    lmiItems pkt (fuel + 1) preq st =
      lmiItems pkt fuel (preq + item.bytes.length) (st.step preq item) := by
  have h0 := getD_of_drop h 0
  have h1 := getD_of_drop h 1
  have h2 := getD_of_drop h 2
  have h3 := getD_of_drop h 3
  rw [Nat.add_zero] at h0
  have hne : item.bytes ++ rest ≠ [] := by cases item <;> simp [LmiItem.bytes]
  have hlen := length_of_drop h hne
  have hone : (1 : Byte).toNat = 1 := rfl
  have htwo : (2 : Byte).toNat = 2 := rfl
  cases item with
  | report full =>
    simp only [LmiItem.bytes, List.cons_append, List.nil_append, List.length_cons,
      List.getD_cons_zero, List.getD_cons_succ] at h0 h1 h2 hlen
    have hfull : (if full then (0 : Byte) else 1).toNat ≤ 1 := by cases full <;> decide
    have hback : BitVec.ofNat 8 (if full then (0 : Byte) else 1).toNat = if full then 0 else 1 := by
      cases full <;> rfl
    have htype : ((if full then (0 : Byte) else 1).toNat : Int) = if full then 0 else 1 := by
      cases full <;> rfl
    rw [lmiItems, if_pos (by omega)]
    simp only [h0, h1, hone]
    rw [if_neg (by omega)]
    simp only [lmiReport, h2, if_true, ne_eq, not_true_eq_false, if_false, if_neg (by omega :
      ¬ (if full then (0 : Byte) else 1).toNat > 1), hback, htype]
    rfl
  | sequences send rcvd =>
    simp only [LmiItem.bytes, List.cons_append, List.nil_append, List.length_cons,
      List.getD_cons_zero, List.getD_cons_succ] at h0 h1 h2 h3 hlen
    rw [lmiItems, if_pos (by omega)]
    simp only [h0, h1, htwo]
    rw [if_neg (by omega), if_neg (by decide)]
    simp only [lmiSequences, h2, h3, if_true, ne_eq, not_true_eq_false, if_false]
    rfl

theorem drop_item (h : pkt.drop preq = item.bytes ++ rest) :
    pkt.drop (preq + item.bytes.length) = rest := by
  rw [← List.drop_drop, h, List.drop_left]

theorem lmiItems_steps (h : pkt.drop preq = items.flatMap LmiItem.bytes ++ rest) :
    lmiItems pkt (items.length + fuel) preq st =
      lmiItems pkt fuel (preq + (items.flatMap LmiItem.bytes).length) (st.steps preq items) := by
  induction items generalizing preq st with
  | nil => simp [LmiLoop.steps]
  | cons item items ih =>
    rw [List.flatMap_cons, List.append_assoc] at h
    rw [List.length_cons, Nat.add_right_comm, lmiItems_item h, ih (drop_item h), List.flatMap_cons,
      List.length_append, ← Nat.add_assoc, LmiLoop.steps]

theorem lmiItems_some {r : Bool × LmiLoop} (h : pkt.drop preq = items.flatMap LmiItem.bytes ++ rest)
    (hr : lmiItems pkt fuel preq st = some r) :
    ∃ fuel', lmiItems pkt fuel' (preq + (items.flatMap LmiItem.bytes).length)
      (st.steps preq items) = some r := by
  induction items generalizing preq st fuel with
  | nil => exact ⟨fuel, by simpa [LmiLoop.steps] using hr⟩
  | cons item items ih =>
    cases fuel with
    | zero => cases hr
    | succ fuel =>
      rw [List.flatMap_cons, List.append_assoc] at h
      rw [lmiItems_item h] at hr
      obtain ⟨fuel', hr'⟩ := ih (drop_item h) hr
      refine ⟨fuel', ?_⟩
      rwa [List.flatMap_cons, List.length_append, ← Nat.add_assoc]

theorem length_step (preq : Nat) (st : LmiLoop) (item : LmiItem) :
    (st.step preq item).resp.length = st.resp.length + item.bytes.length := by
  cases item <;> simp [LmiLoop.step, LmiItem.bytes]

theorem length_steps (preq : Nat) (st : LmiLoop) (items : List LmiItem) :
    (st.steps preq items).resp.length =
      st.resp.length + (items.flatMap LmiItem.bytes).length := by
  induction items generalizing preq st with
  | nil => rfl
  | cons item items ih =>
    rw [LmiLoop.steps, ih, length_step, List.flatMap_cons, List.length_append, Nat.add_assoc]

theorem msgType_steps (preq : Nat) (st : LmiLoop) (items : List LmiItem) :
    (st.steps preq items).msgType =
      ((items.filterMap LmiItem.full?).getLast?.map fun full => if full then 0 else 1).getD
        st.msgType := by
  induction items generalizing preq st with
  | nil => rfl
  | cons item items ih =>
    rw [LmiLoop.steps, ih]
    cases item with
    | report full =>
      simp only [LmiItem.full?, List.filterMap_cons, List.getLast?_cons, LmiLoop.step,
        Option.map_some, Option.getD_some]
      cases (items.filterMap LmiItem.full?).getLast? <;> rfl
    | sequences send rcvd => rfl

theorem seqOk_steps (preq : Nat) (st : LmiLoop) (items : List LmiItem) :
    (st.steps preq items).seqOk ↔ st.seqOk ∨ ∃ send rcvd, LmiItem.sequences send rcvd ∈ items := by
  induction items generalizing preq st with
  | nil => simp [LmiLoop.steps]
  | cons item items ih =>
    rw [LmiLoop.steps, ih]
    cases item with
    | report full => simp [LmiLoop.step]
    | sequences send rcvd =>
      refine iff_of_true (Or.inl rfl) (Or.inr ⟨send, rcvd, List.mem_cons_self⟩)

def LmiLoop.ReadsOk (st : LmiLoop) (pkt : List Byte) : Prop := ∀ o ∈ st.reads, o < pkt.length

theorem LmiLoop.ReadsOk.add {l : List Nat} (h : st.ReadsOk pkt) (hl : ∀ o ∈ l, o < pkt.length) :
    ∀ o ∈ st.reads ++ l, o < pkt.length :=
  List.forall_mem_append.mpr ⟨h, hl⟩

theorem reads_steps (h : pkt.drop preq = items.flatMap LmiItem.bytes ++ rest)
    (hst : st.ReadsOk pkt) : (st.steps preq items).ReadsOk pkt := by
  induction items generalizing preq st with
  | nil => exact hst
  | cons item items ih =>
    rw [List.flatMap_cons, List.append_assoc] at h
    refine ih (drop_item h) ?_
    have hne : item.bytes ++ (items.flatMap LmiItem.bytes ++ rest) ≠ [] := by
      cases item <;> simp [LmiItem.bytes]
    have hlen := length_of_drop h hne
    rw [List.length_append] at hlen
    have htwo : 2 < item.bytes.length := by cases item <;> simp [LmiItem.bytes]
    have hfirst : ({ st with reads := st.reads ++ [preq, preq + 1] } : LmiLoop).ReadsOk pkt := by
      refine hst.add ?_
      simp
      omega
    cases item with
    | report full =>
      refine hfirst.add ?_
      simp
      omega
    | sequences send rcvd =>
      simp only [LmiItem.bytes, List.length_cons, List.length_nil] at hlen
      refine hfirst.add ?_
      simp
      omega

def NoItem (d : List Byte) : Prop := ∀ (item : LmiItem) rest, d ≠ item.bytes ++ rest

theorem noItem_of_stops {d : List Byte} (h : Stops d) : NoItem d := by
  rintro item rest rfl
  cases item <;> simp [LmiItem.bytes, Stops] at h

structure LmiEnd (pkt d : List Byte) (st : LmiLoop) (r : Bool × LmiLoop) : Prop where
  done : r.1 = Stops d
  resp : r.2.resp = st.resp
  reads : r.2.ReadsOk pkt
  kept : Stops d → r.2.msgType = st.msgType ∧ r.2.seqOk = st.seqOk

theorem report_fails {ty size b : Byte} {d : List Byte} (h : pkt.drop preq = ty :: size :: b :: d)
    (hno : NoItem (ty :: size :: b :: d)) (hty : ty = 0x01) (hst : st.ReadsOk pkt) :
    (lmiReport pkt preq size.toNat st).1 = false ∧
      (lmiReport pkt preq size.toNat st).2.resp = st.resp ∧
        (lmiReport pkt preq size.toNat st).2.ReadsOk pkt := by
  have hb : pkt.getD (preq + 2) 0 = b := getD_of_drop h 2
  have hlen := length_of_drop h (List.cons_ne_nil _ _)
  simp only [List.length_cons] at hlen
  simp only [lmiReport, hb]
  split
  · exact ⟨rfl, rfl, hst⟩
  · rename_i hsize
    rw [not_not] at hsize
    have hreads : ∀ o ∈ st.reads ++ [preq + 2], o < pkt.length := by
      refine hst.add ?_
      simp
      omega
    split
    · exact ⟨rfl, rfl, hreads⟩
    · rename_i hle
      exfalso
      have hsize1 : size = 1 := BitVec.eq_of_toNat_eq hsize
      rcases (by omega : b.toNat = 0 ∨ b.toNat = 1) with hb0 | hb1
      · have hb : b = 0 := BitVec.eq_of_toNat_eq hb0
        exact hno (.report true) d (by rw [hty, hsize1, hb]; rfl)
      · have hb : b = 1 := BitVec.eq_of_toNat_eq hb1
        exact hno (.report false) d (by rw [hty, hsize1, hb]; rfl)

theorem sequences_fails {ty size b : Byte} {d : List Byte} (hsize : size.toNat ≤ d.length + 1)
    (hno : NoItem (ty :: size :: b :: d)) (hty : ty = 0x03) (hst : st.ReadsOk pkt) :
    (lmiSequences pkt preq size.toNat st).1 = false ∧
      (lmiSequences pkt preq size.toNat st).2.resp = st.resp ∧
        (lmiSequences pkt preq size.toNat st).2.ReadsOk pkt := by
  have hne : size.toNat ≠ 2 := by
    intro h2
    have hsize2 : size = 2 := BitVec.eq_of_toNat_eq h2
    cases d with
    | nil => simp [h2] at hsize
    | cons c d => exact hno (.sequences b c) d (by rw [hty, hsize2]; rfl)
  simp [lmiSequences, hne, hst]

theorem stops_short {d : List Byte} (h : d.length ≤ 2) : Stops d = true := by
  rcases d with _ | ⟨a, _ | ⟨b, _ | ⟨c, d⟩⟩⟩
  · rfl
  · rfl
  · rfl
  · simp at h

theorem lmiItems_end {d : List Byte} (h : pkt.drop preq = d) (hno : NoItem d)
    (hst : st.ReadsOk pkt) :
    ∃ r, lmiItems pkt (fuel + 1) preq st = some r ∧ LmiEnd pkt d st r := by
  rw [lmiItems]
  by_cases hlong : preq + 2 < pkt.length
  · rw [if_pos hlong]
    have hlength := congrArg List.length h
    rw [List.length_drop] at hlength
    obtain ⟨ty, size, b, d, rfl⟩ : ∃ ty size b d', d = ty :: size :: b :: d' := by
      rcases d with _ | ⟨a, _ | ⟨b, _ | ⟨c, d⟩⟩⟩
      all_goals first
        | (simp at hlength; omega)
        | exact ⟨_, _, _, _, rfl⟩
    simp only [List.length_cons] at hlength
    have hty : pkt.getD preq 0 = ty := getD_of_drop h 0
    have hsize : pkt.getD (preq + 1) 0 = size := getD_of_drop h 1
    have hreads : ({ st with reads := st.reads ++ [preq, preq + 1] } : LmiLoop).ReadsOk pkt := by
      refine hst.add ?_
      simp
      omega
    simp only [hty, hsize]
    by_cases hin : preq + size.toNat + 2 > pkt.length
    · rw [if_pos hin]
      have hstops : Stops (ty :: size :: b :: d) = false := by
        simp only [Stops, decide_eq_false (by omega : ¬ size.toNat ≤ d.length + 1), Bool.false_and]
      exact ⟨_, rfl, hstops.symm, rfl, hreads, by simp [hstops]⟩
    · rw [if_neg hin]
      by_cases hone : ty = 0x01
      · have hfail := @report_fails _ _
          { st with reads := st.reads ++ [preq, preq + 1] } _ _ _ _ h hno hone hreads
        have hstops : Stops (ty :: size :: b :: d) = false := by simp [Stops, hone]
        rw [if_pos hone, hfail.1]
        exact ⟨_, rfl, by rw [hfail.1, hstops], hfail.2.1, hfail.2.2, by simp [hstops]⟩
      · rw [if_neg hone]
        by_cases hthree : ty = 0x03
        · have hfail := @sequences_fails _ preq
            { st with reads := st.reads ++ [preq, preq + 1] } _ _ _ _ (by omega) hno hthree hreads
          have hstops : Stops (ty :: size :: b :: d) = false := by simp [Stops, hthree]
          rw [if_pos hthree, hfail.1]
          exact ⟨_, rfl, by rw [hfail.1, hstops], hfail.2.1, hfail.2.2, by simp [hstops]⟩
        · rw [if_neg hthree]
          have hstops : Stops (ty :: size :: b :: d) = true := by
            simp only [Stops, hone, hthree, ne_eq, not_false_eq_true, decide_true, Bool.and_true,
              decide_eq_true_eq]
            omega
          exact ⟨_, rfl, hstops.symm, rfl, hreads, fun _ => ⟨rfl, rfl⟩⟩
  · rw [if_neg hlong]
    have hlength := congrArg List.length h
    rw [List.length_drop] at hlength
    have hstops : Stops d = true := stops_short (by omega)
    exact ⟨_, rfl, hstops.symm, rfl, hst, fun _ => ⟨rfl, rfl⟩⟩

theorem exists_items (d : List Byte) :
    ∃ (items : List LmiItem) (rest : List Byte),
      d = items.flatMap LmiItem.bytes ++ rest ∧ NoItem rest := by
  induction hn : d.length using Nat.strong_induction_on generalizing d with
  | _ n ih =>
    by_cases hno : NoItem d
    · exact ⟨[], d, rfl, hno⟩
    · simp only [NoItem, ne_eq, not_forall, not_not] at hno
      obtain ⟨item, d', rfl⟩ := hno
      have hpos : 0 < item.bytes.length := by cases item <;> simp [LmiItem.bytes]
      rw [List.length_append] at hn
      obtain ⟨items, rest, rfl, hrest⟩ := ih d'.length (by omega) d' rfl
      exact ⟨item :: items, rest, by rw [List.flatMap_cons, List.append_assoc], hrest⟩

/-! The connections and the elements of the response. -/

def connBytes (s : FrState) (l : List VcPtr) : List Byte :=
  l.flatMap fun vc => lmiDlci (s.conns vc).dlciIn

theorem length_connBytes (s : FrState) (l : List VcPtr) :
    (connBytes s l).length = 5 * l.length := by
  induction l with
  | nil => rfl
  | cons vc l ih =>
    rw [connBytes, List.flatMap_cons, List.length_append, List.length_cons, ← connBytes, ih]
    simp only [lmiDlci, List.length_cons, List.length_nil]
    omega

theorem lmiAdvertise_eq {c : Cell NioPtr VcPtr} {l : List VcPtr} (hs : Segment s.links c l)
    (resp : List Byte) (hf : l.length < fuel) :
    lmiAdvertise s fuel c resp = some (resp ++ connBytes s l) := by
  induction l generalizing c resp fuel with
  | nil =>
    obtain ⟨fuel, rfl⟩ : ∃ k, fuel = k + 1 := ⟨fuel - 1, by simp at hf; omega⟩
    have hnone : s.links.read c = none := hs
    simp [lmiAdvertise, hnone, connBytes]
  | cons vc l ih =>
    obtain ⟨fuel, rfl⟩ : ∃ k, fuel = k + 1 := ⟨fuel - 1, by omega⟩
    rw [List.length_cons] at hf
    simp only [lmiAdvertise, hs.1]
    rw [ih hs.2.2 _ (by omega)]
    simp [connBytes]

theorem lmiAdvertise_some {c : Cell NioPtr VcPtr} {l : List VcPtr} (hs : Segment s.links c l)
    {resp out : List Byte} (h : lmiAdvertise s fuel c resp = some out) :
    out = resp ++ connBytes s l := by
  induction l generalizing c resp fuel with
  | nil =>
    cases fuel with
    | zero => cases h
    | succ fuel =>
      have hnone : s.links.read c = none := hs
      simp only [lmiAdvertise, hnone, Option.some.injEq] at h
      simp [connBytes, h]
  | cons vc l ih =>
    cases fuel with
    | zero => cases h
    | succ fuel =>
      simp only [lmiAdvertise, hs.1] at h
      rw [ih hs.2.2 h]
      simp [connBytes]

def encode (e : Byte × List Byte) : List Byte := e.1 :: BitVec.ofNat 8 e.2.length :: e.2

theorem lmiElements_encode {els : List (Byte × List Byte)} (h : ∀ e ∈ els, e.2.length < 256)
    (hf : els.length ≤ fuel) : lmiElements fuel (els.flatMap encode) = els := by
  induction els generalizing fuel with
  | nil => cases fuel <;> rfl
  | cons e els ih =>
    obtain ⟨fuel, rfl⟩ : ∃ k, fuel = k + 1 := ⟨fuel - 1, by simp at hf; omega⟩
    rw [List.length_cons] at hf
    have hsize : (BitVec.ofNat 8 e.2.length).toNat = e.2.length :=
      Nat.mod_eq_of_lt (h e List.mem_cons_self)
    simp only [List.flatMap_cons, encode, List.cons_append, lmiElements, hsize, List.take_left,
      List.drop_left]
    rw [ih (fun e he => h e (List.mem_cons_of_mem _ he)) (by omega)]

theorem resp_steps (preq : Nat) (st : LmiLoop) (items : List LmiItem) :
    ∃ els : List (Byte × List Byte), (st.steps preq items).resp = st.resp ++ els.flatMap encode ∧
      ∀ e ∈ els, (e.1 == 0x07) = false ∧ e.2.length < 256 := by
  induction items generalizing preq st with
  | nil => exact ⟨[], by simp [LmiLoop.steps], by simp⟩
  | cons item items ih =>
    obtain ⟨els, hels, hall⟩ := ih (preq + item.bytes.length) (st.step preq item)
    cases item with
    | report full =>
      refine ⟨(0x01, [if full then 0 else 1]) :: els, ?_, ?_⟩
      · rw [LmiLoop.steps, hels]
        simp [LmiLoop.step, encode]
      · simpa using hall
    | sequences send rcvd =>
      refine ⟨(0x03, [lmiNextSeq st.lmiSeq rcvd, send]) :: els, ?_, ?_⟩
      · rw [LmiLoop.steps, hels]
        simp [LmiLoop.step, encode]
      · simpa using hall

theorem getLsbD_elementDlci (a b c : Byte) {i : Nat} (hi : i < 32) :
    (elementDlci [a, b, c]).getLsbD i =
      if i < 4 then b.getLsbD (i + 3) else (decide (i < 10) && a.getLsbD (i - 4)) := by
  interval_cases i <;> simp [elementDlci]

theorem elementDlci_lmiDlci (dlci : BitVec 32) :
    elementDlci ((lmiDlci dlci).drop 2) = dlci &&& 0x3ff := by
  apply BitVec.eq_of_getLsbD_eq
  intro i hi
  rw [lmiDlci, List.drop_succ_cons, List.drop_succ_cons, List.drop_zero,
    getLsbD_elementDlci _ _ _ hi, getLsbD_and_dlci _ hi]
  interval_cases i <;> simp

def connElement (s : FrState) (vc : VcPtr) : Byte × List Byte :=
  (0x07, (lmiDlci (s.conns vc).dlciIn).drop 2)

theorem connBytes_eq (s : FrState) (l : List VcPtr) :
    connBytes s l = (l.map (connElement s)).flatMap encode := by
  rw [List.flatMap_map]
  rfl

theorem announced_eq {front : List Byte} {els : List (Byte × List Byte)} {l : List VcPtr}
    (hfront : front.length = lmiAnsiHdr.length)
    (hels : ∀ e ∈ els, (e.1 == 0x07) = false ∧ e.2.length < 256) :
    announced (front ++ els.flatMap encode ++ connBytes s l) =
      l.map fun vc => (s.conns vc).dlciIn &&& 0x3ff := by
  have hall : ∀ e ∈ els ++ l.map (connElement s), e.2.length < 256 := by
    rw [List.forall_mem_append, List.forall_mem_map]
    exact ⟨fun e he => (hels e he).2, fun vc _ => by simp [connElement, lmiDlci]⟩
  have hpos : ∀ l : List (Byte × List Byte), l.length ≤ (l.flatMap encode).length := by
    intro l
    induction l with
    | nil => simp
    | cons e l ih =>
      rw [List.flatMap_cons, List.length_append, List.length_cons]
      simp only [encode, List.length_cons] at ih ⊢
      omega
  have hnone : els.filter (fun e => e.1 == 0x07) = [] := by
    rw [List.filter_eq_nil_iff]
    intro e he
    simpa using (hels e he).1
  have hconns : (l.map (connElement s)).filter (fun e => e.1 == 0x07) = l.map (connElement s) := by
    rw [List.filter_eq_self, List.forall_mem_map]
    exact fun vc _ => rfl
  rw [announced, List.append_assoc, List.drop_left' hfront, connBytes_eq, ← List.flatMap_append,
    lmiElements_encode hall, List.filter_append, hnone, hconns, List.nil_append, List.map_map]
  · refine List.map_congr_left fun vc _ => ?_
    exact elementDlci_lmiDlci _
  · exact (hpos _).trans (List.sublist_append_right _ _).length_le

/-! The handler. -/

theorem lmiItems_grows {r : Bool × LmiLoop} (h : lmiItems pkt fuel preq st = some r) :
    st.resp.length ≤ r.2.resp.length := by
  induction fuel generalizing preq st with
  | zero => cases h
  | succ fuel ih =>
    have hreport : ∀ preq isize (st : LmiLoop),
        st.resp.length ≤ (lmiReport pkt preq isize st).2.resp.length := by
      intro preq isize st
      simp only [lmiReport]
      split_ifs <;> simp
    have hseq : ∀ preq isize (st : LmiLoop),
        st.resp.length ≤ (lmiSequences pkt preq isize st).2.resp.length := by
      intro preq isize st
      simp only [lmiSequences]
      split_ifs <;> simp
    simp only [lmiItems] at h
    split_ifs at h
    · cases h
      exact Nat.le_refl _
    · exact (hreport _ _ { st with reads := st.reads ++ [preq, preq + 1] }).trans (ih h)
    · cases h
      exact hreport _ _ { st with reads := st.reads ++ [preq, preq + 1] }
    · exact (hseq _ _ { st with reads := st.reads ++ [preq, preq + 1] }).trans (ih h)
    · cases h
      exact hseq _ _ { st with reads := st.reads ++ [preq, preq + 1] }
    · cases h
      exact Nat.le_refl _
    · cases h
      exact Nat.le_refl _

theorem handle_header (hlen : lmiAnsiHdr.length < pkt.length)
    (hhdr : pkt.take lmiAnsiHdr.length = lmiAnsiHdr) :
    frswHandleLmiAnsiPkt fuel s nio lmiSeq pkt =
      (lmiItems pkt fuel lmiAnsiHdr.length (LmiLoop.start lmiSeq)).bind fun r =>
        lmiRespond fuel s nio r.1 r.2 := by
  rw [frswHandleLmiAnsiPkt, if_neg (Nat.not_le.mpr hlen), if_neg (not_not.mpr hhdr)]

theorem header_of_items (h : pkt = lmiAnsiHdr ++ (items.flatMap LmiItem.bytes ++ rest))
    (hne : items ≠ []) : lmiAnsiHdr.length < pkt.length ∧
      pkt.take lmiAnsiHdr.length = lmiAnsiHdr ∧
        pkt.drop lmiAnsiHdr.length = items.flatMap LmiItem.bytes ++ rest := by
  subst h
  refine ⟨?_, List.take_left, List.drop_left⟩
  obtain ⟨item, items, rfl⟩ := List.exists_cons_of_ne_nil hne
  have hpos : 0 < item.bytes.length := by cases item <;> simp [LmiItem.bytes]
  simp only [List.flatMap_cons, List.length_append]
  omega

theorem start_readsOk (lmiSeq : Byte) (hlen : lmiAnsiHdr.length < pkt.length) :
    (LmiLoop.start lmiSeq).ReadsOk pkt := by
  intro o ho
  have hlt : o < lmiAnsiHdr.length := List.mem_range.mp ho
  omega

theorem drop_items (h : pkt.drop preq = items.flatMap LmiItem.bytes ++ rest) :
    pkt.drop (preq + (items.flatMap LmiItem.bytes).length) = rest := by
  rw [← List.drop_drop, h, List.drop_left]

theorem AsksFull.ne_nil (h : AsksFull pkt items) : items ≠ [] := by
  obtain ⟨-, -, send, rcvd, hmem⟩ := h
  exact List.ne_nil_of_mem hmem

theorem asks_result {r : Bool × LmiLoop} (h : AsksFull pkt items)
    (hr : lmiItems pkt fuel lmiAnsiHdr.length (LmiLoop.start lmiSeq) = some r) :
    r.1 = true ∧ r.2.msgType = 0 ∧ r.2.seqOk = true ∧
      r.2.resp = ((LmiLoop.start lmiSeq).steps lmiAnsiHdr.length items).resp := by
  have hne := h.ne_nil
  obtain ⟨⟨rest, hpkt, hstops⟩, hlast, hseq⟩ := h
  obtain ⟨hlen, -, hdrop⟩ := header_of_items hpkt hne
  obtain ⟨fuel', hr'⟩ := lmiItems_some hdrop hr
  cases fuel' with
  | zero => cases hr'
  | succ fuel' =>
    obtain ⟨q, hq, hend⟩ := @lmiItems_end pkt fuel' _
      ((LmiLoop.start lmiSeq).steps lmiAnsiHdr.length items) rest (drop_items hdrop)
      (noItem_of_stops hstops) (reads_steps hdrop (start_readsOk lmiSeq hlen))
    obtain rfl : r = q := Option.some.inj (hr'.symm.trans hq)
    obtain ⟨hmsg, hok⟩ := hend.kept hstops
    refine ⟨hend.done.trans hstops, ?_, ?_, hend.resp⟩
    · rw [hmsg, msgType_steps, hlast]
      rfl
    · rw [hok]
      exact (seqOk_steps _ _ _).mpr (Or.inr hseq)

theorem lmiRespond_full (hok : ok = true) (hmsg : st.msgType = 0) (hseq : st.seqOk = true) :
    lmiRespond fuel s nio ok st = (lmiAdvertise s fuel (.head nio) st.resp).map fun resp =>
      ⟨0, st.lmiSeq, some resp, st.reads, resp.length⟩ := by
  have hneg : ¬ (0 : Int) = -1 := by decide
  simp [lmiRespond, hok, hmsg, hseq, hneg]

theorem lmiRespond_other (h : ¬ (ok = true ∧ st.msgType = 0 ∧ st.seqOk = true)) :
    ∃ r, lmiRespond fuel s nio ok st = some r ∧ r.reads = st.reads ∧
      r.written = st.resp.length := by
  simp only [lmiRespond]
  split
  · exact ⟨_, rfl, rfl, rfl⟩
  · rename_i hcond
    rw [if_neg]
    · exact ⟨_, rfl, rfl, rfl⟩
    · intro hmsg
      refine h ⟨?_, hmsg, ?_⟩
      · cases ok <;> simp at hcond ⊢
      · cases hseq : st.seqOk <;> simp [hseq] at hcond ⊢

theorem written_le {r : LmiCall} (h : lmiRespond fuel s nio ok st = some r) {l : List VcPtr}
    (hs : Segment s.links (.head nio) l) : st.resp.length ≤ r.written := by
  by_cases hfull : ok = true ∧ st.msgType = 0 ∧ st.seqOk = true
  · obtain ⟨hok, hmsg, hseq⟩ := hfull
    rw [lmiRespond_full hok hmsg hseq, Option.map_eq_some_iff] at h
    obtain ⟨resp, hadv, rfl⟩ := h
    rw [lmiAdvertise_some hs hadv]
    simp
  · obtain ⟨q, hq, -, hwritten⟩ := @lmiRespond_other s nio fuel st ok hfull
    cases hq.symm.trans h
    exact hwritten.ge

theorem announced_full (l : List VcPtr)
    (hst : st.resp = ((LmiLoop.start lmiSeq).steps lmiAnsiHdr.length items).resp) :
    announced (st.resp ++ connBytes s l) = l.map (fun vc => (s.conns vc).dlciIn &&& 0x3ff) := by
  obtain ⟨els, hels, hall⟩ := resp_steps lmiAnsiHdr.length (LmiLoop.start lmiSeq) items
  rw [hst, hels]
  exact announced_eq rfl hall

theorem length_full (l : List VcPtr)
    (hst : st.resp = ((LmiLoop.start lmiSeq).steps lmiAnsiHdr.length items).resp) :
    (st.resp ++ connBytes s l).length =
      lmiAnsiHdr.length + (items.flatMap LmiItem.bytes).length + 5 * l.length := by
  rw [List.length_append, hst, length_steps, length_connBytes]
  rfl

theorem and_tenBits {x : BitVec 32} (h : x.toNat < 1024) : x &&& 0x3ff = x := by
  apply BitVec.eq_of_toNat_eq
  rw [BitVec.toNat_and]
  exact Nat.and_two_pow_sub_one_of_lt_two_pow (n := 10) h

theorem toNat_and_tenBits (x : BitVec 32) : (x &&& 0x3ff).toNat < 1024 := by
  rw [BitVec.toNat_and]
  exact Nat.lt_of_le_of_lt Nat.and_le_right (by decide)

section Handler

variable {l : List VcPtr} (hs : Segment s.links (.head nio) l)
  (hsorted : l.Pairwise fun a b => (s.conns a).dlciIn ≤ (s.conns b).dlciIn)
  (hmem : ∀ vc, vc ∈ l ↔ OfNio s nio vc)

include hs hmem in
theorem lmiFits_of_ok (h : LmiOk s nio lmiSeq pkt) : LmiFits s nio pkt := by
  obtain ⟨fuel, r, hr, -, hwritten, hlisted⟩ := h
  have hloop : ∀ items rest, pkt = lmiAnsiHdr ++ (items.flatMap LmiItem.bytes ++ rest) →
      items ≠ [] → ∃ q, lmiItems pkt fuel lmiAnsiHdr.length (LmiLoop.start lmiSeq) = some q ∧
        lmiRespond fuel s nio q.1 q.2 = some r := by
    intro items rest hpkt hne
    obtain ⟨hlen, hhdr, -⟩ := header_of_items hpkt hne
    rw [handle_header hlen hhdr, Option.bind_eq_some_iff] at hr
    exact hr
  have hfull : ∀ items, AsksFull pkt items → ∃ q : LmiLoop,
      q.resp = ((LmiLoop.start lmiSeq).steps lmiAnsiHdr.length items).resp ∧
        r.sent = some (q.resp ++ connBytes s l) ∧ r.written = (q.resp ++ connBytes s l).length := by
    intro items hasks
    obtain ⟨rest, hpkt, -⟩ := hasks.1
    obtain ⟨q, hq, hrespond⟩ := hloop items rest hpkt hasks.ne_nil
    obtain ⟨hok, hmsg, hseq, hresp⟩ := asks_result hasks hq
    rw [lmiRespond_full hok hmsg hseq, Option.map_eq_some_iff] at hrespond
    obtain ⟨out, hadv, rfl⟩ := hrespond
    rw [lmiAdvertise_some hs hadv]
    exact ⟨q.2, hresp, rfl, rfl⟩
  refine ⟨fun items rest hpkt => ?_, fun items hasks l' hl' hof => ?_, fun items hasks vc hvc => ?_⟩
  · by_cases hne : items = []
    · subst hne
      decide
    · obtain ⟨q, hq, hrespond⟩ := hloop items rest hpkt hne
      obtain ⟨-, -, hdrop⟩ := header_of_items hpkt hne
      obtain ⟨fuel', hq'⟩ := lmiItems_some hdrop hq
      have hgrows := lmiItems_grows hq'
      rw [length_steps] at hgrows
      exact (hgrows.trans (written_le hrespond hs)).trans hwritten
  · obtain ⟨q, hresp, -, hlength⟩ := hfull items hasks
    rw [hlength, length_full l hresp] at hwritten
    have hle := (List.subperm_of_subset hl' fun vc hvc => (hmem vc).mpr (hof vc hvc)).length_le
    omega
  · obtain ⟨q, hresp, hsent, -⟩ := hfull items hasks
    obtain ⟨out, hout, l', -, hmem', hlist, -⟩ := hlisted items hasks
    cases hsent.symm.trans hout
    rw [announced_full l hresp] at hlist
    have hin : (s.conns vc).dlciIn ∈ l'.map fun vc => (s.conns vc).dlciIn :=
      List.mem_map_of_mem ((hmem' vc).mpr hvc)
    rw [← hlist, List.mem_map] at hin
    obtain ⟨vc', -, heq⟩ := hin
    rw [← heq]
    exact toNat_and_tenBits _

include hs hsorted hmem in
theorem lmiOk_of_fits (h : LmiFits s nio pkt) : LmiOk s nio lmiSeq pkt := by
  have hnone : ∀ items, AsksFull pkt items →
      lmiAnsiHdr.length < pkt.length ∧ pkt.take lmiAnsiHdr.length = lmiAnsiHdr := by
    intro items hasks
    obtain ⟨rest, hpkt, -⟩ := hasks.1
    obtain ⟨hlen, hhdr, -⟩ := header_of_items hpkt hasks.ne_nil
    exact ⟨hlen, hhdr⟩
  by_cases hlen : pkt.length ≤ lmiAnsiHdr.length
  · refine ⟨0, _, if_pos hlen, by simp, Nat.zero_le _, fun items hasks => ?_⟩
    exact absurd hlen (Nat.not_le.mpr (hnone items hasks).1)
  rw [Nat.not_le] at hlen
  by_cases hhdr : pkt.take lmiAnsiHdr.length = lmiAnsiHdr
  · obtain ⟨items, rest, hdrop, hrest⟩ := exists_items (pkt.drop lmiAnsiHdr.length)
    have hpkt : pkt = lmiAnsiHdr ++ (items.flatMap LmiItem.bytes ++ rest) := by
      rw [← hdrop]
      conv_lhs => rw [← List.take_append_drop lmiAnsiHdr.length pkt, hhdr]
    obtain ⟨q, hq, hend⟩ := @lmiItems_end pkt l.length _
      ((LmiLoop.start lmiSeq).steps lmiAnsiHdr.length items) rest (drop_items hdrop) hrest
      (reads_steps hdrop (start_readsOk lmiSeq hlen))
    rw [← lmiItems_steps hdrop] at hq
    have hhandle : frswHandleLmiAnsiPkt (items.length + (l.length + 1)) s nio lmiSeq pkt =
        lmiRespond (items.length + (l.length + 1)) s nio q.1 q.2 := by
      rw [handle_header hlen hhdr, hq, Option.bind_some]
    have hfront := h.front items rest hpkt
    by_cases hfull : q.1 = true ∧ q.2.msgType = 0 ∧ q.2.seqOk = true
    · obtain ⟨hok, hmsg, hseq⟩ := hfull
      have hstops : Stops rest = true := hend.done.symm.trans hok
      have hkept := hend.kept hstops
      have hasks : AsksFull pkt items := by
        refine ⟨⟨rest, hpkt, hstops⟩, ?_, ?_⟩
        · rw [hkept.1, msgType_steps] at hmsg
          cases hlast : (items.filterMap LmiItem.full?).getLast? with
          | none =>
            rw [hlast] at hmsg
            cases hmsg
          | some full =>
            rw [hlast] at hmsg
            cases full with
            | true => rfl
            | false => cases hmsg
        · rw [hkept.2] at hseq
          exact ((seqOk_steps _ _ _).mp hseq).resolve_left Bool.false_ne_true
      have hadv := lmiAdvertise_eq hs q.2.resp (by omega : l.length < items.length + (l.length + 1))
      rw [lmiRespond_full hok hmsg hseq, hadv, Option.map_some] at hhandle
      refine ⟨_, _, hhandle, hend.reads, ?_, fun items' _ => ⟨_, rfl, l, hs.nodup, hmem, ?_⟩⟩
      · have hbound := h.full items hasks l hs.nodup fun vc hvc => (hmem vc).mp hvc
        rwa [← length_full l hend.resp] at hbound
      · have hmap : l.map (fun vc => (s.conns vc).dlciIn &&& 0x3ff) =
            l.map fun vc => (s.conns vc).dlciIn :=
          List.map_congr_left fun vc hvc =>
            and_tenBits (h.dlcis items hasks vc ((hmem vc).mp hvc))
        rw [announced_full l hend.resp, hmap]
        exact ⟨rfl, List.pairwise_map.mpr hsorted⟩
    · obtain ⟨r, hr, hreads, hwritten⟩ := @lmiRespond_other s nio
        (items.length + (l.length + 1)) q.2 q.1 hfull
      refine ⟨_, r, hhandle.trans hr, ?_, ?_, fun items' hasks => ?_⟩
      · rw [hreads]
        exact hend.reads
      · rw [hwritten, hend.resp, length_steps]
        exact hfront
      · obtain ⟨hok, hmsg, hseq, -⟩ := asks_result hasks hq
        exact absurd ⟨hok, hmsg, hseq⟩ hfull
  · refine ⟨0, ⟨-1, lmiSeq, none, List.range lmiAnsiHdr.length, 0⟩, ?_, ?_, Nat.zero_le _,
      fun items hasks => absurd (hnone items hasks).2 hhdr⟩
    · rw [frswHandleLmiAnsiPkt, if_neg (Nat.not_le.mpr hlen), if_pos hhdr]
    · intro o ho
      exact (List.mem_range.mp ho).trans hlen

end Handler

/-- In every state of a run in which no switch is deleted with its connections, the
handler is right exactly where the response fits and the DLCIs have ten bits. -/
theorem lmi_ok_iff {n : Nios} {trace : List (World × Op)} {w : World}
    (hrun : Run Step (World.init n) trace w) (hkept : AllSteps NoVcLeft trace) (nio : NioPtr)
    (lmiSeq : Byte) (pkt : List Byte) : LmiOk w.fr nio lmiSeq pkt ↔ LmiFits w.fr nio pkt := by
  obtain ⟨lists, hlists⟩ := ((lists_always_iff hrun).mpr hkept).1
  exact ⟨lmiFits_of_ok (hlists.linked.segment nio) (hlists.mem nio),
    lmiOk_of_fits (hlists.linked.segment nio) (hlists.sorted nio) (hlists.mem nio)⟩

def vcOps (dlci : BitVec 32) : List Op :=
  [.createTable 0, .createVc 0 "A" dlci "B" 21 (some 5) true]

def enquiry : List Byte :=
  lmiAnsiHdr ++ ([LmiItem.report true, .sequences 1 0].flatMap LmiItem.bytes ++ [])

def longEnquiry : List Byte :=
  lmiAnsiHdr ++ ((List.replicate 681 (LmiItem.report true)).flatMap LmiItem.bytes ++ [])

theorem run_vcOps (dlci : BitVec 32) : ∃ trace w,
    execute (tryStep 1) (World.init twoNios) (vcOps dlci) = some (trace, w) ∧
      Run Step (World.init twoNios) trace w ∧ AllSteps NoVcLeft trace ∧
        (∀ vc, OfNio w.fr 0 vc ↔ vc = 5) ∧ (w.fr.conns 5).dlciIn = dlci := by
  have hex : execute (tryStep 1) (World.init twoNios) (vcOps dlci) = some (_, _) := rfl
  refine ⟨_, _, hex, run_of_steps hex ?_, ?_, fun vc => ⟨?_, ?_⟩, rfl⟩
  · simp only [AllSteps, List.forall_mem_cons]
    refine ⟨rfl, ⟨⟨_, rfl⟩, ?_⟩, by simp⟩
    rintro vc ⟨⟩ ⟨t, table, ht, hvc⟩
    rcases tables_update ht with ⟨-, heq⟩ | ⟨-, ht⟩
    · cases heq
      exact not_mem_empty hvc
    · cases ht
  · simp only [AllSteps, List.forall_mem_cons]
    exact ⟨trivial, trivial, by simp⟩
  · rintro ⟨⟨t, table, ht, hvc⟩, -⟩
    rcases tables_update ht with ⟨-, heq⟩ | ⟨-, ht⟩
    · cases heq
      exact (mem_push.mp hvc).resolve_right not_mem_empty
    · rcases tables_update ht with ⟨-, heq⟩ | ⟨-, ht⟩
      · cases heq
        exact absurd hvc not_mem_empty
      · cases ht
  · rintro rfl
    exact ⟨⟨0, _, rfl, mem_push.mpr (Or.inl rfl)⟩, rfl⟩

theorem enquiry_asks : AsksFull enquiry [.report true, .sequences 1 0] := by
  refine ⟨⟨[], rfl, rfl⟩, rfl, 1, 0, ?_⟩
  simp

theorem lmi_ok_enquiry : ∃ trace w,
    execute (tryStep 1) (World.init twoNios) (vcOps 20) = some (trace, w) ∧
      LmiOk w.fr 0 0 enquiry := by
  obtain ⟨trace, w, hex, hrun, hkept, hof, hdlci⟩ := run_vcOps 20
  have hfront : ∀ (items : List LmiItem) rest,
      enquiry = lmiAnsiHdr ++ (items.flatMap LmiItem.bytes ++ rest) →
        lmiAnsiHdr.length + (items.flatMap LmiItem.bytes).length ≤ 14 := by
    intro items rest h
    have hlen := congrArg List.length h
    rw [List.length_append, List.length_append] at hlen
    simp only [show enquiry.length = 14 from rfl] at hlen
    omega
  refine ⟨trace, w, hex, (lmi_ok_iff hrun hkept 0 0 enquiry).mpr ⟨?_, ?_, ?_⟩⟩
  · exact fun items rest h => (hfront items rest h).trans (by decide)
  · intro items hasks l hl hall
    obtain ⟨rest, h, -⟩ := hasks.1
    have hsub : l.Subperm [5] :=
      List.subperm_of_subset hl fun vc hvc => by simpa using (hof vc).mp (hall vc hvc)
    have hle := hsub.length_le
    have hlen := hfront items rest h
    simp only [List.length_singleton, frMaxPktSize] at hle ⊢
    omega
  · intro items _ vc hvc
    rw [(hof vc).mp hvc, hdlci]
    decide

/-- The response to a long enquiry is longer than `resp`, and the DLCI 1040 is announced
as 16. -/
theorem not_lmi_ok : (∃ trace w,
    execute (tryStep 1) (World.init twoNios) (vcOps 20) = some (trace, w) ∧
      ¬ LmiOk w.fr 0 0 longEnquiry) ∧
    ∃ trace w,
      execute (tryStep 1) (World.init twoNios) (vcOps 1040) = some (trace, w) ∧
        ¬ LmiOk w.fr 0 0 enquiry := by
  constructor
  · obtain ⟨trace, w, hex, hrun, hkept, -, -⟩ := run_vcOps 20
    obtain ⟨lists, hlists⟩ := ((lists_always_iff hrun).mpr hkept).1
    refine ⟨trace, w, hex, fun hok => ?_⟩
    have hfits := lmiFits_of_ok (hlists.linked.segment 0) (hlists.mem 0) hok
    have hle := hfits.front (List.replicate 681 (.report true)) [] rfl
    rw [List.length_flatMap, List.map_replicate, List.sum_replicate_nat] at hle
    revert hle
    decide
  · obtain ⟨trace, w, hex, hrun, hkept, hof, hdlci⟩ := run_vcOps 1040
    obtain ⟨lists, hlists⟩ := ((lists_always_iff hrun).mpr hkept).1
    refine ⟨trace, w, hex, fun hok => ?_⟩
    have hfits := lmiFits_of_ok (hlists.linked.segment 0) (hlists.mem 0) hok
    have hlt := hfits.dlcis _ enquiry_asks 5 ((hof 5).mpr rfl)
    rw [hdlci] at hlt
    revert hlt
    decide

end Dynamips.Frsw
