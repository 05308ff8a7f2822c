import Mathlib.Data.List.Nodup
import Dynamips.I8255xRoundTrip
import Dynamips.Lib.Runs

/-! The state machines of the i8255x over every sequence of commands and frames. -/
set_option autoImplicit false

namespace Dynamips.I8255x

open GuestRam Turns Runs

structure Sys where
  d : I8255xData
  mem : Ram

/-- What happens: the guest stores to its memory or writes a register of the SCB, or a
frame comes in. -/
inductive Event where
  | store (paddr : Nat) (data : List Byte)
  | scbIc (data : BitVec 8)
  | scbCmd (data : BitVec 8)
  | scbAck (data : BitVec 8)
  | scbGptr (data : BitVec 32)
  | frame (buf : Nat → Byte) (pktLen : Nat)

/-- The command blocks that were executed and the frame descriptors that were filled. -/
structure Output where
  executed : List (BitVec 32)
  filled : List (BitVec 32)

def cuc (data : BitVec 8) : Nat := ((data &&& 0xF0) >>> 4).toNat

def ruc (data : BitVec 8) : Nat := (data &&& 0x07).toNat

/-- The writes of `dev_i8255x_access`, with `dev_i8255x_handle_rxring`. -/
inductive Step (s : Sys) : Event → Output → Sys → Prop where
  | store (paddr : Nat) (data : List Byte) :
      Step s (.store paddr data) ⟨[], []⟩ { s with mem := physmemCopyToVm s.mem data paddr }
  | scbIc (data : BitVec 8) :
      Step s (.scbIc data) ⟨[], []⟩ { s with d := { s.d with scbIc := data } }
  | scbCmd {data : BitVec 8} {r : CuPass} (h : ProcessCuCmd s.d s.mem (cuc data) r) :
      Step s (.scbCmd data) ⟨r.executed, []⟩ ⟨r.d.processRuCmd r.mem (ruc data), r.mem⟩
  | scbAck (data : BitVec 8) : Step s (.scbAck data) ⟨[], []⟩
      { s with d := { s.d with scbStatAck := s.d.scbStatAck &&& ~~~data }.updateIrqStatus }
  | scbGptr (data : BitVec 32) :
      Step s (.scbGptr data) ⟨[], []⟩ { s with d := { s.d with scbGptr := data } }
  | frame {buf : Nat → Byte} {pktLen : Nat} {r : RuPass} (h : HandleRxring s.d s.mem buf pktLen r) :
      Step s (.frame buf pktLen) ⟨[], r.filled⟩ ⟨r.d, r.mem⟩

/-- The chip after `dev_i8255x_init`. -/
def Sys.init (m : Ram) : Sys := ⟨I8255xData.init, m⟩

/-! The state machines as they should be. -/

inductive Cu where
  | idle
  | suspended (cb : BitVec 32)
deriving DecidableEq

/-- A receive unit, with the descriptor that it stopped on or that is next. -/
inductive Ru where
  | idle
  | noRes
  | suspended (rfd : BitVec 32)
  | ready (rfd : BitVec 32)
deriving DecidableEq

def I8255xData.cu (d : I8255xData) : Cu :=
  if d.cuState = .suspend then .suspended d.cbAddr else .idle

def I8255xData.ru (d : I8255xData) : Ru :=
  match d.ruState with
  | .idle => .idle
  | .noRes => .noRes
  | .suspend => .suspended (d.ruBase + d.ruOffset)
  | .ready => .ready (d.ruBase + d.ruOffset)

def I8255xData.pending (d : I8255xData) : Bool :=
  d.scbIc &&& SCB_CMD_M = 0 &&
    (d.scbIc &&& SCB_CMD_SI ≠ 0 || d.scbStatAck &&& (~~~d.scbIc &&& SCB_INT_MASK) ≠ 0)

def ctrl (m : Ram) (a : BitVec 32) : BitVec 32 := word m a 0

def isLast (m : Ram) (a : BitVec 32) : Bool := hasFlag (ctrl m a) CB_CTRL_EL

def stops (m : Ram) (a : BitVec 32) : Bool := hasFlag (ctrl m a) CB_CTRL_S

def linked (m : Ram) (base a : BitVec 32) : BitVec 32 := base + word m a 1

/-- The block that a list comes to after `i` others. -/
def block (m : Ram) (base start : BitVec 32) : Nat → BitVec 32
  | 0 => start
  | i + 1 => linked m base (block m base start i)

/-- A list of blocks that ends with the block after `n` others. -/
structure CbList (m : Ram) (base start : BitVec 32) (n : Nat) : Prop where
  more : ∀ i < n, isLast m (block m base start i) = false ∧ stops m (block m base start i) = false
  last : isLast m (block m base start n) = true ∨ stops m (block m base start n) = true
  apart : ∀ i ≤ n, ∀ j ≤ n, i ≠ j →
    Apart (block m base start i).toNat 16 (block m base start j).toNat 16

/-- A pass over a list: each block once in link order, up to the one with EL or S. -/
def CuPassOk (m : Ram) (base start : BitVec 32) (executed : List (BitVec 32)) (cu : Cu) : Prop :=
  ∃ n, CbList m base start n ∧ executed = (List.range (n + 1)).map (block m base start) ∧
    executed.Nodup ∧
      cu = if isLast m (block m base start n) then .idle else .suspended (block m base start n)

def CuOk (s : Sys) (cuc : Nat) (executed : List (BitVec 32)) (cu : Cu) : Prop :=
  match cuc, s.d.cu with
  | 1, _ => CuPassOk s.mem s.d.cuBase (s.d.cuBase + s.d.scbGptr) executed cu
  | 2, .suspended cb =>
    if stops s.mem cb then executed = [] ∧ cu = .suspended cb
    else CuPassOk s.mem s.d.cuBase (linked s.mem s.d.cuBase cb) executed cu
  | _, old => executed = [] ∧ cu = old

def ruAfter (d : I8255xData) (m : Ram) (ruc : Nat) : Ru :=
  match ruc, d.ru with
  | 1, _ => .ready (d.ruBase + d.scbGptr)
  | 2, .suspended rfd => if stops m rfd then .suspended rfd else .ready (linked m d.ruBase rfd)
  | _, old => old

def ruFilled (m : Ram) (base rfd : BitVec 32) : Ru :=
  if isLast m rfd then .noRes
  else if stops m rfd then .suspended rfd
  else .ready (linked m base rfd)

def Follows (s : Sys) (out : Output) (s' : Sys) : Event → Prop
  | .scbCmd data => CuOk s (cuc data) out.executed s'.d.cu ∧ out.filled = [] ∧
      s'.d.ru = ruAfter s.d s'.mem (ruc data)
  | .frame _ _ => out.executed = [] ∧ s'.d.cu = s.d.cu ∧
      match s.d.ru with
      | .ready rfd => out.filled = [rfd] ∧ s'.d.ru = ruFilled s.mem s.d.ruBase rfd
      | old => out.filled = [] ∧ s'.d.ru = old ∧ s'.mem = s.mem
  | _ => out.executed = [] ∧ out.filled = [] ∧ s'.d.cu = s.d.cu ∧ s'.d.ru = s.d.ru

/-- The next event has an outcome, and every outcome is a step of the state machines that
leaves the interrupt line right. -/
def StepOk (s : Sys) (e : Event) : Prop :=
  (∃ out s', Step s e out s') ∧
    ∀ out s', Step s e out s' → Follows s out s' e ∧ s'.d.irq = s'.d.pending

/-! The condition. -/

/-- A start or resume of the command unit finds a list with an end, and its base does not
change while it is suspended. -/
def CuWithin (s : Sys) (cuc : Nat) : Prop :=
  (cuc = 1 → ∃ n, CbList s.mem s.d.cuBase (s.d.cuBase + s.d.scbGptr) n) ∧
  (cuc = 2 → ∀ cb, s.d.cu = .suspended cb → stops s.mem cb = false →
    ∃ n, CbList s.mem s.d.cuBase (linked s.mem s.d.cuBase cb) n) ∧
  (cuc = 6 → s.d.cu = .idle ∨ s.d.scbGptr = s.d.cuBase)

def storing : List Nat := [1, 2, 5, 7]

/-- The receive unit is not resumed, unless it has no descriptor or S is set in it while
the command unit leaves the memory alone; and its base does not change while it has one. -/
def RuWithin (s : Sys) (cuc ruc : Nat) : Prop :=
  (ruc = 2 → ∀ rfd, (s.d.ru = .suspended rfd ∨ s.d.ru = .ready rfd) →
    stops s.mem rfd = true ∧ cuc ∉ storing) ∧
  (ruc = 6 → s.d.ru = .idle ∨ s.d.ru = .noRes ∨ s.d.scbGptr = s.d.ruBase)

def StepWithin (s : Sys) : Event → Prop
  | .scbIc data => { s.d with scbIc := data }.pending = s.d.pending
  | .scbCmd data => CuWithin s (cuc data) ∧ RuWithin s (cuc data) (ruc data)
  | .frame _ pktLen => ∀ rfd, s.d.ru = .ready rfd →
      hasFlag (ctrl s.mem rfd) RXFD_CTRL_SF = true → pktLen ≤ room s.mem (s.d.firstRxbd s.mem)
  | _ => True

structure Between (s : Sys) : Prop where
  irq : s.d.irq = s.d.pending
  rests : s.d.cuState = .idle ∨ s.d.cuState = .suspend

/-! The interrupt line. -/

theorem pending_updateIrqStatus (d : I8255xData) :
    d.updateIrqStatus.pending = d.pending ∧ d.updateIrqStatus.irq = d.pending := by
  rw [I8255xData.updateIrqStatus]
  split
  · rename_i hmask
    simp_all [I8255xData.pending]
  · split
    · simp_all [I8255xData.pending]
    · simp_all [I8255xData.pending]

theorem irq_update (d : I8255xData) : d.updateIrqStatus.irq = d.updateIrqStatus.pending := by
  rw [(pending_updateIrqStatus d).1, (pending_updateIrqStatus d).2]

/-! Lists of blocks. -/

structure Same (d d' : I8255xData) : Prop where
  cuBase : d'.cuBase = d.cuBase
  ruBase : d'.ruBase = d.ruBase
  ruOffset : d'.ruOffset = d.ruOffset
  ruState : d'.ruState = d.ruState
  scbGptr : d'.scbGptr = d.scbGptr

theorem Same.ru {d d' : I8255xData} (h : Same d d') : d'.ru = d.ru := by
  simp only [I8255xData.ru, h.ruState, h.ruBase, h.ruOffset]

theorem Same.trans {d d' d'' : I8255xData} (h : Same d d') (h' : Same d' d'') : Same d d'' :=
  ⟨h'.cuBase.trans h.cuBase, h'.ruBase.trans h.ruBase, h'.ruOffset.trans h.ruOffset,
    h'.ruState.trans h.ruState, h'.scbGptr.trans h.scbGptr⟩

theorem processCb_same (s : CuPass) (cbAddr : BitVec 32) (action : CuAction) :
    Same s.d (processCb s cbAddr action).d ∧
      (processCb s cbAddr action).d.cuOffset = s.d.cuOffset := by
  rw [processCb]
  simp only
  split
  all_goals exact ⟨⟨rfl, rfl, rfl, rfl, rfl⟩, rfl⟩

theorem exec_spec (s : CuPass) : Same s.d s.exec.d ∧ s.exec.d.cuOffset = s.d.cuOffset ∧
    s.exec.executed = s.executed ++ [s.d.cbAddr] ∧
      ∃ val, s.exec.mem = physmemCopyU32ToVm s.mem s.d.cbAddr.toNat val := by
  obtain ⟨hsame, hoffset⟩ := processCb_same s s.d.cbAddr (fetchCb s.mem s.d.cbAddr)
  rw [CuPass.exec]
  split
  · exact ⟨⟨hsame.cuBase, hsame.ruBase, hsame.ruOffset, hsame.ruState, hsame.scbGptr⟩, hoffset, rfl,
      _, rfl⟩
  · exact ⟨hsame, hoffset, rfl, _, rfl⟩

theorem updateIrqStatus_keeps (d : I8255xData) : Same d d.updateIrqStatus ∧
    d.updateIrqStatus.cuState = d.cuState ∧ d.updateIrqStatus.cuOffset = d.cuOffset := by
  rw [I8255xData.updateIrqStatus]
  split
  · exact ⟨⟨rfl, rfl, rfl, rfl, rfl⟩, rfl, rfl⟩
  · split
    all_goals exact ⟨⟨rfl, rfl, rfl, rfl, rfl⟩, rfl, rfl⟩

theorem rest_spec (d : I8255xData) (cuState : CuState) : Same d (d.rest cuState) ∧
    (d.rest cuState).cuState = cuState ∧ (d.rest cuState).cuOffset = d.cuOffset ∧
      (d.rest cuState).irq = (d.rest cuState).pending := by
  obtain ⟨hsame, hstate, hoffset⟩ :=
    updateIrqStatus_keeps ({ d with cuState := cuState }.raise SCB_STAT_CNA)
  exact ⟨⟨hsame.cuBase, hsame.ruBase, hsame.ruOffset, hsame.ruState, hsame.scbGptr⟩, hstate,
    hoffset, irq_update _⟩

variable {m : Ram} {base start : BitVec 32} {n i : Nat} {d : I8255xData} {s : CuPass}

/-- The pass before the block after `i` others. -/
structure At (d : I8255xData) (m : Ram) (base start : BitVec 32) (n i : Nat) (s : CuPass) : Prop where
  same : Same d s.d
  addr : s.d.cbAddr = block m base start i
  executed : s.executed = (List.range i).map (block m base start)
  kept : ∀ j, i ≤ j → j ≤ n → ∀ k < 4, word s.mem (block m base start j) k =
    word m (block m base start j) k

theorem word_apart {m' : Ram} {a b : BitVec 32} (h : Apart a.toNat 16 b.toNat 16) {k : Nat}
    (hk : k < 4) (val : BitVec 32) :
    word (physmemCopyU32ToVm m' b.toNat val) a k = word m' a k := by
  rw [Apart] at h
  exact u32_u32ToVm_disjoint val (by omega)

theorem At.executed_succ (h : At d m base start n i s) :
    s.exec.executed = (List.range (i + 1)).map (block m base start) := by
  rw [(exec_spec s).2.2.1, h.executed, h.addr, List.range_succ, List.map_append,
    List.map_singleton]

theorem At.flags (h : At d m base start n i s) (hi : i ≤ n) :
    (fetchCb s.mem s.d.cbAddr).ctrl = ctrl m (block m base start i) ∧
      (fetchCb s.mem s.d.cbAddr).linkOffset = word m (block m base start i) 1 := by
  rw [h.addr]
  exact ⟨h.kept i le_rfl hi 0 (by decide), h.kept i le_rfl hi 1 (by decide)⟩

theorem At.next (h : At d m base start n i s) (hbase : d.cuBase = base)
    (hlist : CbList m base start n) (hi : i < n) :
    ∃ s', cblTurn s = .go s' ∧ At d m base start n (i + 1) s' := by
  obtain ⟨hctrl, hlink⟩ := h.flags (by omega)
  obtain ⟨hlast, hstop⟩ := hlist.more i hi
  rw [isLast, ← hctrl] at hlast
  rw [stops, ← hctrl] at hstop
  obtain ⟨hsame, -, -, val, hmem⟩ := exec_spec s
  refine ⟨{ s.exec with d := { s.exec.d with
    cuOffset := (fetchCb s.mem s.d.cbAddr).linkOffset } }, ?_, ?_, ?_, h.executed_succ, ?_⟩
  · rw [cblTurn]
    simp only [hlast, hstop, Bool.false_eq_true, if_false]
  · exact h.same.trans ⟨hsame.cuBase, hsame.ruBase, hsame.ruOffset, hsame.ruState, hsame.scbGptr⟩
  · rw [I8255xData.cbAddr, hlink, hsame.cuBase, h.same.cuBase, hbase]
    rfl
  · intro j hj hjn k hk
    rw [hmem, h.addr, word_apart (hlist.apart j hjn i (by omega) (by omega)) hk,
      h.kept j (by omega) hjn k hk]

structure Passed (d : I8255xData) (m : Ram) (base start : BitVec 32) (n : Nat) (s : CuPass) :
    Prop where
  same : Same d s.d
  irq : s.d.irq = s.d.pending
  rests : s.d.cuState = .idle ∨ s.d.cuState = .suspend
  executed : s.executed = (List.range (n + 1)).map (block m base start)
  cu : s.d.cu = if isLast m (block m base start n) then .idle
    else .suspended (block m base start n)

theorem At.stop (h : At d m base start n n s) (hlist : CbList m base start n) :
    ∃ s', cblTurn s = .stop s' ∧ Passed d m base start n s' := by
  obtain ⟨hctrl, -⟩ := h.flags le_rfl
  obtain ⟨hsame, hoffset, -⟩ := exec_spec s
  cases hlast : isLast m (block m base start n) with
  | true =>
    obtain ⟨hrest, hstate, -, hirq⟩ := rest_spec s.exec.d .idle
    have hflag := hlast
    rw [isLast, ← hctrl] at hflag
    refine ⟨{ s.exec with d := s.exec.d.rest .idle }, ?_, ⟨(h.same.trans hsame).trans hrest, hirq,
      .inl hstate, h.executed_succ, ?_⟩⟩
    · rw [cblTurn]
      simp only [hflag, if_true]
    · rw [hlast, I8255xData.cu, hstate]
      rfl
  | false =>
    obtain ⟨hrest, hstate, hrestOffset, hirq⟩ := rest_spec s.exec.d .suspend
    have hflag := hlast
    have hstop := hlist.last.resolve_left (by rw [hlast]; decide)
    rw [isLast, ← hctrl] at hflag
    rw [stops, ← hctrl] at hstop
    refine ⟨{ s.exec with d := s.exec.d.rest .suspend }, ?_, ⟨(h.same.trans hsame).trans hrest,
      hirq, .inr hstate, h.executed_succ, ?_⟩⟩
    · rw [cblTurn]
      simp only [hflag, hstop, Bool.false_eq_true, if_false, if_true]
    · rw [hlast, I8255xData.cu, hstate, if_pos rfl, I8255xData.cbAddr, hrest.cuBase, hrestOffset,
        hsame.cuBase, hoffset, ← h.addr]
      rfl

theorem processCbl_list {d : I8255xData} {cuOffset : BitVec 32}
    (hlist : CbList m d.cuBase (d.cuBase + cuOffset) n) :
    ∃ r, ProcessCbl d m cuOffset r ∧ Passed d m d.cuBase (d.cuBase + cuOffset) n r := by
  have hreach : ∀ i ≤ n, ∃ s, At d m d.cuBase (d.cuBase + cuOffset) n i s ∧ ∀ r,
      ProcessCbl d m cuOffset r ↔ Returns cblTurn s r := by
    intro i hi
    induction i with
    | zero =>
      refine ⟨⟨{ d with cuOffset := cuOffset, cuState := .lpqAct }, m, [], []⟩, ?_, fun r => Iff.rfl⟩
      exact ⟨⟨rfl, rfl, rfl, rfl, rfl⟩, rfl, rfl, fun j _ _ k _ => rfl⟩
    | succ i ih =>
      obtain ⟨s, hat, hiff⟩ := ih (by omega)
      obtain ⟨s', hgo, hat'⟩ := hat.next rfl hlist hi
      exact ⟨s', hat', fun r => (hiff r).trans (returns_go hgo)⟩
  obtain ⟨s, hat, hiff⟩ := hreach n le_rfl
  obtain ⟨s', hstop, hpassed⟩ := hat.stop hlist
  exact ⟨s', (hiff s').mpr ((returns_stop hstop).mpr rfl), hpassed⟩

theorem processCbl_unique {d : I8255xData} {cuOffset : BitVec 32} {r r' : CuPass}
    (h : ProcessCbl d m cuOffset r) (h' : ProcessCbl d m cuOffset r') : r = r' :=
  Returns.unique h h'

theorem block_injective (hlist : CbList m base start n) :
    ((List.range (n + 1)).map (block m base start)).Nodup := by
  refine List.Nodup.map_on ?_ List.nodup_range
  intro i hi j hj heq
  rw [List.mem_range] at hi hj
  by_contra hne
  have hapart := hlist.apart i (by omega) j (by omega) hne
  rw [Apart, heq] at hapart
  omega

theorem Passed.ok (h : Passed d m base start n s) (hlist : CbList m base start n) :
    CuPassOk m base start s.executed s.d.cu :=
  ⟨n, hlist, h.executed, h.executed ▸ block_injective hlist, h.cu⟩

/-! Commands. -/

structure CuDone (s : Sys) (cuc : Nat) (r : CuPass) : Prop where
  ok : CuOk s cuc r.executed r.d.cu
  irq : r.d.irq = r.d.pending
  rests : r.d.cuState = .idle ∨ r.d.cuState = .suspend
  ruBase : r.d.ruBase = s.d.ruBase
  ruOffset : r.d.ruOffset = s.d.ruOffset
  ruState : r.d.ruState = s.d.ruState
  scbGptr : r.d.scbGptr = s.d.scbGptr
  mem : cuc ∉ storing → r.mem = s.mem

variable {t : Sys} {c : Nat}

theorem Between.cu_cases (h : Between t) : t.d.cuState = .idle ∧ t.d.cu = .idle ∨
    t.d.cuState = .suspend ∧ t.d.cu = .suspended t.d.cbAddr := by
  rw [I8255xData.cu]
  obtain hidle | hsuspend := h.rests
  · exact .inl ⟨hidle, by rw [hidle]; rfl⟩
  · exact .inr ⟨hsuspend, if_pos hsuspend⟩

theorem cuOk_start {executed : List (BitVec 32)} {cu : Cu} :
    CuOk t 1 executed cu ↔ CuPassOk t.mem t.d.cuBase (t.d.cuBase + t.d.scbGptr) executed cu := by
  rw [CuOk]

theorem Passed.done {a : BitVec 32} {r : CuPass} (h : Passed t.d t.mem t.d.cuBase a n r)
    (hstoring : c ∈ storing) (hok : CuOk t c r.executed r.d.cu) : CuDone t c r :=
  ⟨hok, h.irq, h.rests, h.same.ruBase, h.same.ruOffset, h.same.ruState, h.same.scbGptr,
    fun hnot => absurd hstoring hnot⟩

theorem done_quiet (hb : Between t) (hlist : c ≠ 1 ∧ c ≠ 2) {r : CuPass}
    (hexecuted : r.executed = []) (hcu : r.d.cu = t.d.cu) (hirq : r.d.irq = t.d.irq)
    (hpending : r.d.pending = t.d.pending) (hstate : r.d.cuState = t.d.cuState)
    (hsame : r.d.ruBase = t.d.ruBase ∧ r.d.ruOffset = t.d.ruOffset ∧ r.d.ruState = t.d.ruState ∧
      r.d.scbGptr = t.d.scbGptr) (hmem : c ∉ storing → r.mem = t.mem) : CuDone t c r := by
  obtain ⟨hruBase, hruOffset, hruState, hscbGptr⟩ := hsame
  refine ⟨?_, by rw [hirq, hpending]; exact hb.irq, by rw [hstate]; exact hb.rests, hruBase,
    hruOffset, hruState, hscbGptr, hmem⟩
  rw [CuOk.eq_def]
  split
  · exact absurd rfl hlist.1
  · exact absurd rfl hlist.2
  · exact ⟨hexecuted, hcu⟩

theorem start_done (hw : CuWithin t 1) : (∃ r, ProcessCuCmd t.d t.mem 1 r) ∧
    ∀ r, ProcessCuCmd t.d t.mem 1 r → CuDone t 1 r := by
  obtain ⟨n, hlist⟩ := hw.1 rfl
  obtain ⟨r, hr, hpassed⟩ := processCbl_list hlist
  refine ⟨⟨r, hr⟩, fun r' hr' => ?_⟩
  obtain rfl := processCbl_unique hr hr'
  exact hpassed.done (by decide) (cuOk_start.mpr (hpassed.ok hlist))

theorem resume_done (hb : Between t) (hw : CuWithin t 2) :
    (∃ r, ProcessCuCmd t.d t.mem 2 r) ∧ ∀ r, ProcessCuCmd t.d t.mem 2 r → CuDone t 2 r := by
  have hignored : t.d.cu = .idle ∨ (∃ cb, t.d.cu = .suspended cb ∧ stops t.mem cb = true) →
      CuDone t 2 ⟨t.d, t.mem, [], []⟩ := by
    intro h
    refine ⟨?_, hb.irq, hb.rests, rfl, rfl, rfl, rfl, fun _ => rfl⟩
    rw [CuOk.eq_def]
    obtain hidle | ⟨cb, hcb, hstops⟩ := h
    · simp [hidle]
    · simp [hcb, hstops]
  obtain ⟨hstate, hcu⟩ | ⟨hstate, hcu⟩ := hb.cu_cases
  · have hiff : ∀ r, ProcessCuCmd t.d t.mem 2 r ↔ r = ⟨t.d, t.mem, [], []⟩ :=
      fun r => iff_of_eq (if_pos (.inl hstate))
    exact ⟨⟨_, (hiff _).mpr rfl⟩, fun r hr => (hiff r).mp hr ▸ hignored (.inl hcu)⟩
  · cases hstops : stops t.mem t.d.cbAddr with
    | true =>
      have hiff : ∀ r, ProcessCuCmd t.d t.mem 2 r ↔ r = ⟨t.d, t.mem, [], []⟩ :=
        fun r => iff_of_eq (if_pos (.inr hstops))
      exact ⟨⟨_, (hiff _).mpr rfl⟩,
        fun r hr => (hiff r).mp hr ▸ hignored (.inr ⟨_, hcu, hstops⟩)⟩
    | false =>
      obtain ⟨n, hlist⟩ := hw.2.1 rfl _ hcu hstops
      have hiff : ∀ r, ProcessCuCmd t.d t.mem 2 r ↔
          ProcessCbl t.d t.mem (word t.mem t.d.cbAddr 1) r := by
        refine fun r => iff_of_eq (if_neg ?_)
        rintro (hidle | hstop)
        · rw [hstate] at hidle
          cases hidle
        · rw [show hasFlag (fetchCb t.mem t.d.cbAddr).ctrl CB_CTRL_S = stops t.mem t.d.cbAddr from
            rfl, hstops] at hstop
          cases hstop
      obtain ⟨r, hr, hpassed⟩ := @processCbl_list t.mem n t.d (word t.mem t.d.cbAddr 1) hlist
      refine ⟨⟨r, (hiff r).mpr hr⟩, fun r' hr' => ?_⟩
      obtain rfl := processCbl_unique hr ((hiff r').mp hr')
      refine hpassed.done (by decide) ?_
      rw [CuOk.eq_def]
      simp only [hcu, hstops, Bool.false_eq_true, if_false]
      exact hpassed.ok hlist

theorem cu_done (hb : Between t) (hw : CuWithin t c) :
    (∃ r, ProcessCuCmd t.d t.mem c r) ∧ ∀ r, ProcessCuCmd t.d t.mem c r → CuDone t c r := by
  by_cases h1 : c = 1
  · subst h1
    exact start_done hw
  by_cases h2 : c = 2
  · subst h2
    exact resume_done hb hw
  simp only [ProcessCuCmd.eq_def]
  split
  · exact absurd rfl h1
  · exact absurd rfl h2
  · exact ⟨⟨_, rfl⟩, fun r hr => hr ▸ done_quiet hb ⟨h1, h2⟩ rfl rfl rfl rfl rfl
      ⟨rfl, rfl, rfl, rfl⟩ fun _ => rfl⟩
  · exact ⟨⟨_, rfl⟩, fun r hr => hr ▸ done_quiet hb ⟨h1, h2⟩ rfl rfl rfl rfl rfl
      ⟨rfl, rfl, rfl, rfl⟩ fun hnot => absurd (by decide) hnot⟩
  · refine ⟨⟨_, rfl⟩, fun r hr => hr ▸ done_quiet hb ⟨h1, h2⟩ rfl ?_ rfl rfl rfl
      ⟨rfl, rfl, rfl, rfl⟩ fun _ => rfl⟩
    obtain ⟨hstate, hcu⟩ | ⟨hstate, hcu⟩ := hb.cu_cases
    · rw [hcu, I8255xData.cu, hstate]
      rfl
    · have hbase := (hw.2.2 rfl).resolve_left (by rw [hcu]; nofun)
      rw [hbase]
      rfl
  · exact ⟨⟨_, rfl⟩, fun r hr => hr ▸ done_quiet hb ⟨h1, h2⟩ rfl rfl rfl rfl rfl
      ⟨rfl, rfl, rfl, rfl⟩ fun hnot => absurd (by decide) hnot⟩
  · exact ⟨⟨_, rfl⟩, fun r hr => hr ▸ done_quiet hb ⟨h1, h2⟩ rfl rfl rfl rfl rfl
      ⟨rfl, rfl, rfl, rfl⟩ fun _ => rfl⟩

theorem processRuCmd_keeps (d : I8255xData) (m : Ram) (c : Nat) :
    (d.processRuCmd m c).cu = d.cu ∧ (d.processRuCmd m c).irq = d.irq ∧
      (d.processRuCmd m c).pending = d.pending ∧ (d.processRuCmd m c).cuState = d.cuState := by
  rw [I8255xData.processRuCmd.eq_def]
  split
  · exact ⟨rfl, rfl, rfl, rfl⟩
  · rw [I8255xData.ruResume]
    split
    all_goals exact ⟨rfl, rfl, rfl, rfl⟩
  all_goals exact ⟨rfl, rfl, rfl, rfl⟩

theorem ru_state (d : I8255xData) :
    d.ruState = .idle ∧ d.ru = .idle ∨ d.ruState = .noRes ∧ d.ru = .noRes ∨
      d.ruState = .suspend ∧ d.ru = .suspended d.rxfdAddr ∨
        d.ruState = .ready ∧ d.ru = .ready d.rxfdAddr := by
  cases h : d.ruState with
  | idle => simp [I8255xData.ru, h]
  | suspend => simp [I8255xData.ru, h, I8255xData.rxfdAddr]
  | noRes => simp [I8255xData.ru, h]
  | ready => simp [I8255xData.ru, h, I8255xData.rxfdAddr]

theorem ruResume_ignored {d : I8255xData} {m : Ram}
    (h : ∀ rfd, (d.ru = .suspended rfd ∨ d.ru = .ready rfd) → stops m rfd = true) :
    d.ruResume m = d ∧ ruAfter d m 2 = d.ru := by
  obtain ⟨hstate, hru⟩ | ⟨hstate, hru⟩ | ⟨hstate, hru⟩ | ⟨hstate, hru⟩ := ru_state d
  · exact ⟨if_pos (.inl (by rw [hstate]; nofun)), by simp [ruAfter, hru]⟩
  · exact ⟨if_pos (.inl (by rw [hstate]; nofun)), by simp [ruAfter, hru]⟩
  · exact ⟨if_pos (.inl (by rw [hstate]; nofun)), by simp [ruAfter, hru, h _ (.inl hru)]⟩
  · exact ⟨if_pos (.inr (h _ (.inr hru))), by simp [ruAfter, hru]⟩

theorem ru_after {d : I8255xData} {m : Ram} {c : Nat}
    (hresume : c = 2 → ∀ rfd, (d.ru = .suspended rfd ∨ d.ru = .ready rfd) → stops m rfd = true)
    (hbase : c = 6 → d.ru = .idle ∨ d.ru = .noRes ∨ d.scbGptr = d.ruBase) :
    (d.processRuCmd m c).ru = ruAfter d m c := by
  by_cases h2 : c = 2
  · subst h2
    obtain ⟨hsame, hafter⟩ := ruResume_ignored (hresume rfl)
    rw [I8255xData.processRuCmd, hsame, hafter]
  · rw [I8255xData.processRuCmd.eq_def, ruAfter.eq_def]
    split
    · rfl
    · exact absurd rfl h2
    · have hold : ({ d with ruBase := d.scbGptr } : I8255xData).ru = d.ru := by
        obtain ⟨hstate, hru⟩ | ⟨hstate, hru⟩ | ⟨hstate, hru⟩ | ⟨hstate, hru⟩ := ru_state d
        · simp [I8255xData.ru, hstate]
        · simp [I8255xData.ru, hstate]
        · have hgptr : d.scbGptr = d.ruBase := by simpa [hru] using hbase rfl
          rw [hgptr]
          rfl
        · have hgptr : d.scbGptr = d.ruBase := by simpa [hru] using hbase rfl
          rw [hgptr]
          rfl
      exact hold
    · rename_i h1 _ _
      split
      · exact absurd rfl h1
      · exact absurd rfl h2
      · rfl

/-! Frames. -/

theorem storeRxPkt_result {d : I8255xData} {m : Ram} {buf : Nat → Byte} {pktLen : Nat} {r : RuPass}
    (h : StoreRxPkt d m buf pktLen r) :
    ∃ m' used, r = updateRxfd d m' d.rxfdAddr (d.rxfd m) pktLen used := by
  rw [StoreRxPkt] at h
  simp only at h
  split at h
  · exact ⟨_, _, h⟩
  · obtain ⟨s, -, hr⟩ := h
    exact ⟨_, _, hr⟩

theorem handleRxring_ready {d : I8255xData} {m : Ram} {buf : Nat → Byte} {pktLen : Nat}
    (h : d.ruState = .ready) (r : RuPass) :
    HandleRxring d m buf pktLen r ↔ StoreRxPkt d m buf pktLen r :=
  iff_of_eq (if_pos h)

theorem storeRxPkt_simplified {d : I8255xData} {m : Ram} (buf : Nat → Byte) (pktLen : Nat)
    (hflex : hasFlag (d.rxfd m).ctrl RXFD_CTRL_SF = false) :
    StoreRxPkt d m buf pktLen (updateRxfd d (physmemCopyToVm m
      (memBswap32 (physmemCopyFromVm buf 0 (normLen (BitVec.ofNat 32 pktLen))))
        (d.rxfdAddr + 0x10).toNat) d.rxfdAddr (d.rxfd m) pktLen []) :=
  (iff_of_eq (if_pos hflex)).mpr rfl

theorem storeRxPkt_returns {d : I8255xData} {m : Ram} {buf : Nat → Byte} {pktLen : Nat}
    (h : hasFlag (d.rxfd m).ctrl RXFD_CTRL_SF = true → pktLen ≤ room m (d.firstRxbd m)) :
    ∃ r, StoreRxPkt d m buf pktLen r := by
  cases hflex : hasFlag (d.rxfd m).ctrl RXFD_CTRL_SF with
  | false => exact ⟨_, storeRxPkt_simplified buf pktLen hflex⟩
  | true =>
    obtain ⟨s, hstop, -⟩ := @store_fits d m buf pktLen (h hflex)
    exact ⟨_, (storeRxPkt_iff hflex).mpr ⟨s, (returns_stop hstop).mpr rfl, rfl⟩⟩

theorem updateIrqStatus_units (d : I8255xData) : d.updateIrqStatus.cu = d.cu ∧
    d.updateIrqStatus.cuState = d.cuState ∧ d.updateIrqStatus.ru = d.ru := by
  obtain ⟨hsame, hstate, hoffset⟩ := updateIrqStatus_keeps d
  refine ⟨?_, hstate, hsame.ru⟩
  simp only [I8255xData.cu, I8255xData.cbAddr, hstate, hoffset, hsame.cuBase]

theorem filled_units {d : I8255xData} (hready : d.ruState = .ready) (m : Ram) :
    let rxfd := d.rxfd m
    let d' :=
      if hasFlag rxfd.ctrl RXFD_CTRL_EL then { d with ruState := .noRes }.raise SCB_STAT_RNR
      else if hasFlag rxfd.ctrl RXFD_CTRL_S then { d with ruState := .suspend }.raise SCB_STAT_RNR
      else { d with ruOffset := rxfd.linkOffset }
    d'.cu = d.cu ∧ d'.cuState = d.cuState ∧ d'.ru = ruFilled m d.ruBase d.rxfdAddr := by
  have hlast : hasFlag (d.rxfd m).ctrl RXFD_CTRL_EL = isLast m d.rxfdAddr := rfl
  have hstops : hasFlag (d.rxfd m).ctrl RXFD_CTRL_S = stops m d.rxfdAddr := rfl
  simp only [ruFilled, hlast, hstops]
  split
  · exact ⟨rfl, rfl, rfl⟩
  · split
    · exact ⟨rfl, rfl, rfl⟩
    · refine ⟨rfl, rfl, ?_⟩
      simp only [I8255xData.ru, hready]
      rfl

theorem updateRxfd_units {d : I8255xData} (hready : d.ruState = .ready) (m m' : Ram)
    (pktLen : Nat) (used : List (BitVec 32 × BitVec 32 × Nat)) {r : RuPass}
    (hr : r = updateRxfd d m' d.rxfdAddr (d.rxfd m) pktLen used) :
    r.d.cu = d.cu ∧ r.d.cuState = d.cuState ∧ r.d.irq = r.d.pending ∧
      r.d.ru = ruFilled m d.ruBase d.rxfdAddr := by
  obtain ⟨hcu, hstate, hru⟩ :=
    @filled_units ((d.count STAT_CNT_RX_GOOD).raise SCB_STAT_FR) hready m
  have hunits := updateIrqStatus_units (
    if hasFlag (d.rxfd m).ctrl RXFD_CTRL_EL then
      { (d.count STAT_CNT_RX_GOOD).raise SCB_STAT_FR with ruState := .noRes }.raise SCB_STAT_RNR
    else if hasFlag (d.rxfd m).ctrl RXFD_CTRL_S then
      { (d.count STAT_CNT_RX_GOOD).raise SCB_STAT_FR with ruState := .suspend }.raise SCB_STAT_RNR
    else { (d.count STAT_CNT_RX_GOOD).raise SCB_STAT_FR with ruOffset := (d.rxfd m).linkOffset })
  rw [hr]
  exact ⟨hunits.1.trans hcu, hunits.2.1.trans hstate, irq_update _, hunits.2.2.trans hru⟩

theorem frame_ok (hb : Between t) {buf : Nat → Byte} {pktLen : Nat}
    (hw : StepWithin t (.frame buf pktLen)) : StepOk t (.frame buf pktLen) := by
  have hiff : ∀ out s', Step t (.frame buf pktLen) out s' ↔
      ∃ r, HandleRxring t.d t.mem buf pktLen r ∧ out = ⟨[], r.filled⟩ ∧ s' = ⟨r.d, r.mem⟩ := by
    intro out s'
    constructor
    · rintro (_ | _ | _ | _ | _ | h)
      exact ⟨_, h, rfl, rfl⟩
    · rintro ⟨r, h, rfl, rfl⟩
      exact .frame h
  by_cases hready : t.d.ruState = .ready
  · have hru : t.d.ru = .ready t.d.rxfdAddr := by simp [I8255xData.ru, hready, I8255xData.rxfdAddr]
    have hhandle := @handleRxring_ready t.d t.mem buf pktLen hready
    obtain ⟨r, hr⟩ := @storeRxPkt_returns t.d t.mem buf pktLen (hw _ hru)
    refine ⟨⟨_, _, (hiff _ _).mpr ⟨r, (hhandle r).mpr hr, rfl, rfl⟩⟩, fun out s' hstep => ?_⟩
    obtain ⟨r, hr, rfl, rfl⟩ := (hiff out s').mp hstep
    obtain ⟨m', used, hresult⟩ := storeRxPkt_result ((hhandle r).mp hr)
    obtain ⟨hcu, hstate, hirq, hunit⟩ := updateRxfd_units hready t.mem m' pktLen used hresult
    refine ⟨⟨rfl, hcu, ?_⟩, hirq⟩
    rw [hru]
    exact ⟨by rw [hresult]; rfl, hunit⟩
  · have hhandle : ∀ r, HandleRxring t.d t.mem buf pktLen r ↔ r = ⟨t.d, t.mem, [], []⟩ :=
      fun r => iff_of_eq (if_neg hready)
    refine ⟨⟨_, _, (hiff _ _).mpr ⟨_, (hhandle _).mpr rfl, rfl, rfl⟩⟩, fun out s' hstep => ?_⟩
    obtain ⟨r, hr, rfl, rfl⟩ := (hiff out s').mp hstep
    rw [(hhandle r).mp hr]
    refine ⟨⟨rfl, rfl, ?_⟩, hb.irq⟩
    split
    · rename_i rfd hrfd
      obtain ⟨hstate, hru⟩ | ⟨hstate, hru⟩ | ⟨hstate, hru⟩ | ⟨hstate, hru⟩ := ru_state t.d
      · simp [hru] at hrfd
      · simp [hru] at hrfd
      · simp [hru] at hrfd
      · exact absurd hstate hready
    · exact ⟨rfl, rfl, rfl⟩

/-! Steps and runs. -/

theorem cmd_ok (hb : Between t) {data : BitVec 8} (hw : StepWithin t (.scbCmd data)) :
    StepOk t (.scbCmd data) := by
  obtain ⟨⟨r, hr⟩, hdone⟩ := cu_done hb hw.1
  refine ⟨⟨_, _, .scbCmd hr⟩, fun out s' hstep => ?_⟩
  cases hstep with
  | scbCmd h =>
    rename_i r
    have hd := hdone r h
    obtain ⟨hcu, hirq, hpending, -⟩ := processRuCmd_keeps r.d r.mem (ruc data)
    have hru : r.d.ru = t.d.ru := by
      simp only [I8255xData.ru, hd.ruState, hd.ruBase, hd.ruOffset]
    have hafter : (r.d.processRuCmd r.mem (ruc data)).ru = ruAfter r.d r.mem (ruc data) := by
      refine ru_after (fun h2 rfd hrfd => ?_) fun h6 => ?_
      · rw [hru] at hrfd
        obtain ⟨hstops, hquiet⟩ := hw.2.1 h2 rfd hrfd
        rw [hd.mem hquiet]
        exact hstops
      · rw [hru, hd.scbGptr, hd.ruBase]
        exact hw.2.2 h6
    refine ⟨⟨hcu.symm ▸ hd.ok, rfl, ?_⟩, by rw [hirq, hpending, hd.irq]⟩
    simp only [hafter, ruAfter, hru, hd.ruBase, hd.scbGptr]

theorem step_ok (hb : Between t) {e : Event} (hw : StepWithin t e) : StepOk t e := by
  cases e with
  | store paddr data =>
    refine ⟨⟨_, _, .store paddr data⟩, fun out s' hstep => ?_⟩
    cases hstep
    exact ⟨⟨rfl, rfl, rfl, rfl⟩, hb.irq⟩
  | scbIc data =>
    refine ⟨⟨_, _, .scbIc data⟩, fun out s' hstep => ?_⟩
    cases hstep
    exact ⟨⟨rfl, rfl, rfl, rfl⟩, hb.irq.trans (Eq.symm hw)⟩
  | scbCmd data => exact cmd_ok hb hw
  | scbAck data =>
    refine ⟨⟨_, _, .scbAck data⟩, fun out s' hstep => ?_⟩
    cases hstep
    obtain ⟨hcu, -, hru⟩ :=
      updateIrqStatus_units { t.d with scbStatAck := t.d.scbStatAck &&& ~~~data }
    exact ⟨⟨rfl, rfl, hcu, hru⟩, irq_update _⟩
  | scbGptr data =>
    refine ⟨⟨_, _, .scbGptr data⟩, fun out s' hstep => ?_⟩
    cases hstep
    exact ⟨⟨rfl, rfl, rfl, rfl⟩, hb.irq⟩
  | frame buf pktLen => exact frame_ok hb hw

theorem step_between (hb : Between t) {e : Event} (hw : StepWithin t e) {out : Output} {t' : Sys}
    (hstep : Step t e out t') : Between t' := by
  refine ⟨((step_ok hb hw).2 out t' hstep).2, ?_⟩
  have hrests := hb.rests
  cases hstep with
  | store => exact hrests
  | scbIc => exact hrests
  | scbCmd h =>
    rename_i data r
    rw [(processRuCmd_keeps r.d r.mem (ruc data)).2.2.2]
    exact ((cu_done hb hw.1).2 r h).rests
  | scbAck data =>
    rwa [(updateIrqStatus_units { t.d with scbStatAck := t.d.scbStatAck &&& ~~~data }).2.1]
  | scbGptr => exact hrests
  | frame h =>
    rename_i buf pktLen r
    by_cases hready : t.d.ruState = .ready
    · obtain ⟨m', used, hresult⟩ := storeRxPkt_result ((handleRxring_ready hready r).mp h)
      rw [(updateRxfd_units hready t.mem m' pktLen used hresult).2.1]
      exact hrests
    · rw [(iff_of_eq (if_neg hready)).mp h]
      exact hrests

abbrev ChipRun (m : Ram) (trace : List (Sys × Event)) (t : Sys) : Prop :=
  Run (fun s e s' => ∃ out, Step s e out s') (Sys.init m) trace t

theorem between_run {m : Ram} {trace : List (Sys × Event)} (hrun : ChipRun m trace t)
    (hok : AllSteps StepWithin trace) : Always Between trace t :=
  hrun.invariant (fun _ _ _ hb hw ⟨_, hs⟩ => step_between hb hw hs) ⟨by simp [Sys.init, I8255xData.init,
    I8255xData.pending], .inl rfl⟩ hok

/-- In a run whose steps are all within their bounds every step was one of the state
machines, and every next one within its bounds is, with the interrupt line right in every
state. -/
theorem units_follow {m : Ram} {trace : List (Sys × Event)} {t : Sys} (hrun : ChipRun m trace t)
    (hok : AllSteps StepWithin trace) :
    Always (fun s => s.d.irq = s.d.pending) trace t ∧ AllSteps StepOk trace ∧
      ∀ e, StepWithin t e → StepOk t e := by
  have hbetween := between_run hrun hok
  refine ⟨⟨hbetween.1.irq, fun x hx => (hbetween.2 x hx).irq⟩, fun x hx => ?_, fun e hw => ?_⟩
  · exact step_ok (hbetween.2 x hx) (hok x hx)
  · exact step_ok hbetween.1 hw

def stopAfterOne : Ram := putWords (fun _ => 0) 0x1000 [0x40000000, 0x2000, 0, 0]

def startRu : List Event := [.scbGptr 0x1000, .scbCmd 0x01]

theorem startRu_run : ∃ trace t, ChipRun stopAfterOne trace t ∧ trace.map Prod.snd = startRu ∧
    AllSteps StepWithin trace ∧ t.mem = stopAfterOne ∧
      t.d = { I8255xData.init with
        scbGptr := 0x1000, ruOffset := 0x1000, ruState := .ready } := by
  have hrun := Run.next (Run.next (@Run.start _ _ (fun s e s' => ∃ out, Step s e out s')
    (Sys.init stopAfterOne)) ⟨_, .scbGptr 0x1000⟩)
    ⟨_, @Step.scbCmd _ 0x01 ⟨_, stopAfterOne, [], []⟩ rfl⟩
  refine ⟨_, _, hrun, rfl, ?_, rfl, rfl⟩
  intro x hx
  simp only [List.nil_append, List.cons_append, List.mem_cons, List.not_mem_nil, or_false] at hx
  obtain rfl | rfl := hx
  · trivial
  · refine ⟨⟨nofun, nofun, nofun⟩, nofun, nofun⟩

/-- The unit takes a frame once it is started. -/
theorem units_follow_start : ∃ trace t, ChipRun stopAfterOne trace t ∧
    trace.map Prod.snd = startRu ∧ t.d.ru = .ready 0x1000 ∧
      StepOk t (.frame (fun _ => 7) 3) := by
  obtain ⟨trace, t, hrun, hevents, hok, hmem, hd⟩ := startRu_run
  refine ⟨trace, t, hrun, hevents, by rw [hd]; rfl, ?_⟩
  refine (units_follow hrun hok).2.2 _ fun rfd hrfd hflex => ?_
  rw [hd] at hrfd
  cases hrfd
  rw [hmem] at hflex
  exact absurd hflex (by decide)

/-- A suspended receive unit is not resumed. -/
theorem not_units_follow : ¬ ∀ (m : Ram) (trace : List (Sys × Event)) (t : Sys),
    ChipRun m trace t → Always (fun s => s.d.irq = s.d.pending) trace t ∧ AllSteps StepOk trace ∧
      ∀ e, StepOk t e := by
  intro hall
  obtain ⟨trace, t, hrun, -, -, hmem, hd⟩ := startRu_run
  have hstore := storeRxPkt_simplified (d := t.d) (m := t.mem) (fun _ => 7) 0
    (by rw [hd, hmem]; decide)
  have hframe := (handleRxring_ready (show t.d.ruState = .ready by rw [hd]) _).mpr hstore
  have hrun' := Run.next (Run.next hrun ⟨_, .frame hframe⟩) ⟨_, .store 0x1000 [0, 0, 0, 0]⟩
  have hok := (hall _ _ _ hrun').2.2 (.scbCmd 0x02)
  have hru := ((hok.2 _ _ (@Step.scbCmd _ 0x02 ⟨_, _, [], []⟩ rfl)).1).2.2
  rw [hd, hmem] at hru
  revert hru
  decide

end Dynamips.I8255x
