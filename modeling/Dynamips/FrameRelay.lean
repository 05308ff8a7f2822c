import Dynamips.Lib.BackLinks
import Dynamips.Lib.Buckets
import Dynamips.Lib.Bytes
import Dynamips.NetioUsers
import Mathlib.Data.List.FinRange
import Mathlib.Tactic.IntervalCases

/-! The Frame Relay switches of frame_relay.c: their hash tables, the lists of
connections of the NIOs, and the frames that are switched. -/
set_option autoImplicit false

namespace Dynamips.Frsw
open BackLinks Buckets Rxl Nio Runs
export BackLinks (Cell)

def frDlciLmiAnsi : BitVec 32 := 0

def frswHashSize : Nat := 256

/-- The address of a `frsw_conn_t`. -/
abbrev VcPtr := Nat

/-- The address of a `frsw_table_t`. -/
abbrev TablePtr := Nat

/-- `frsw_conn_t`; its fields `next` and `pprev` are in the heap of links. -/
structure FrswConn where
  input : NioPtr
  output : NioPtr
  dlciIn : BitVec 32
  dlciOut : BitVec 32

/-- The switches that exist have a table. The links are `fr_conn_list` of the NIOs
and `next` and `pprev` of the connections; a freed connection keeps its fields
until its memory is used again. -/
structure FrState where
  tables : TablePtr → Option (Table frswHashSize VcPtr)
  conns : VcPtr → FrswConn
  links : Heap NioPtr VcPtr
  nios : Nios

def frswDlciHash (dlci : BitVec 32) : Fin frswHashSize :=
  Fin.ofNat 256 ((dlci ^^^ (dlci >>> 8)) &&& 0xff).toNat

def frswDlciLookup (s : FrState) (table : Table frswHashSize VcPtr) (input : NioPtr)
    (dlci : BitVec 32) : Option VcPtr :=
  (table (frswDlciHash dlci)).find? fun vc =>
    (s.conns vc).input = input ∧ (s.conns vc).dlciIn = dlci

def frswDlciSwitch (vc : FrswConn) (pkt0 pkt1 : Byte) : Byte × Byte :=
  (((pkt0 &&& 0x03).setWidth 32 ||| ((vc.dlciOut >>> 4) <<< 2)).setWidth 8,
    ((pkt1 &&& 0x0f).setWidth 32 ||| ((vc.dlciOut &&& 0x0f) <<< 4)).setWidth 8)

/-- The DLCI that `frsw_handle_pkt` extracts. -/
def frameDlci (pkt0 pkt1 : Byte) : BitVec 32 :=
  ((((pkt0.setWidth 32 &&& 0xfc) >>> 2) <<< 4)) ||| ((pkt1.setWidth 32 &&& 0xf0) >>> 4)

/-- What becomes of a frame: it is for the LMI, or is given to `netio_send`. -/
inductive Handled where
  | lmi
  | send (output : Option NioPtr) (pkt : List Byte)

/-- `frsw_handle_pkt`, on a frame with its two header bytes apart. -/
def frswHandlePkt (s : FrState) (table : Table frswHashSize VcPtr) (input : NioPtr)
    (pkt0 pkt1 : Byte) (rest : List Byte) : Handled :=
  let dlci := frameDlci pkt0 pkt1
  if dlci = frDlciLmiAnsi then
    .lmi
  else
    match frswDlciLookup s table input dlci with
    | some vc =>
      let hdr := frswDlciSwitch (s.conns vc) pkt0 pkt1
      .send (some (s.conns vc).output) (hdr.1 :: hdr.2 :: rest)
    | none => .send none (pkt0 :: pkt1 :: rest)

def frswReleaseVc (n : Nios) (input output : Option NioPtr) : Nios := releaseConn n input output

/-- A connection goes into the table of its switch and the list of its NIO. -/
def FrState.addVc (s : FrState) (t : TablePtr) (table : Table frswHashSize VcPtr) (vc : VcPtr)
    (conn : FrswConn) (p : Cell NioPtr VcPtr) (n : Nios) : FrState where
  tables := Function.update s.tables t (some table)
  conns := Function.update s.conns vc conn
  links := insertAt s.links p vc
  nios := n

/-- A connection goes out of the table of its switch and the list of its NIO, which
is `frsw_unlink_vc`. -/
def FrState.removeVc (s : FrState) (t : TablePtr) (table : Table frswHashSize VcPtr) (vc : VcPtr)
    (n : Nios) : FrState where
  tables := Function.update s.tables t (some table)
  conns := s.conns
  links := unlink s.links vc
  nios := n

/-- `frsw_create_vc`. `mem` is the memory of the connection, and `granted` tells
whether the listener could be created. The loop over the connections of the NIO
may not end. -/
def frswCreateVc (fuel : Nat) (s : FrState) (t : TablePtr) (nioInput : String)
    (dlciIn : BitVec 32) (nioOutput : String) (dlciOut : BitVec 32) (mem : Option VcPtr)
    (granted : Bool) : Option (Int × FrState) :=
  match s.tables t, mem with
  | none, _ => none
  | some _, none => some (-1, s)
  | some table, some vc =>
    let (input, n) := netioAcquire s.nios nioInput
    let (output, n) := netioAcquire n nioOutput
    match input, output with
    | some i, some o =>
      if frswDlciLookup s table i dlciIn ≠ none then
        some (-1, { s with nios := frswReleaseVc n input output })
      else
        let (res, n) := netioRxlAdd n i granted
        if res = -1 then
          some (-1, { s with nios := frswReleaseVc n input output })
        else
          let stop := fun q => decide (dlciIn < (s.conns q).dlciIn)
          let conn := { input := i, output := o, dlciIn := dlciIn, dlciOut := dlciOut }
          (findCell s.links stop fuel (.head i)).map fun p =>
            (0, s.addVc t (push table (frswDlciHash dlciIn) vc) vc conn p n)
    | _, _ => some (-1, { s with nios := frswReleaseVc n input output })

def frswDeleteVc (s : FrState) (t : TablePtr) (nioInput : String) (dlciIn : BitVec 32)
    (nioOutput : String) (dlciOut : BitVec 32) : Option (Int × FrState) :=
  match s.tables t with
  | none => none
  | some table =>
    match registryExists s.nios nioInput, registryExists s.nios nioOutput with
    | some input, some output =>
      let hbucket := frswDlciHash dlciIn
      let found : VcPtr → Bool := fun vc =>
        let p := s.conns vc
        p.input = input ∧ p.output = output ∧ p.dlciIn = dlciIn ∧ p.dlciOut = dlciOut
      match (table hbucket).find? found with
      | some vc =>
        let p := s.conns vc
        some (0, s.removeVc t (eraseFirst table hbucket found) vc
          (frswReleaseVc s.nios (some p.input) (some p.output)))
      | none => some (-1, s)
    | _, _ => some (-1, s)

/-- The loops of `frsw_free` -/
def releaseAll (conns : VcPtr → FrswConn) (table : Table frswHashSize VcPtr) (n : Nios) : Nios :=
  (List.finRange frswHashSize).foldl
    (fun n i => (table i).foldl
      (fun n vc => frswReleaseVc n (some (conns vc).input) (some (conns vc).output)) n) n

/-- `frsw_free`, for a switch that the registry lets go. -/
def frswFree (s : FrState) (t : TablePtr) : Option (Int × FrState) :=
  (s.tables t).map fun table =>
    (0, { s with
          tables := Function.update s.tables t none
          nios := releaseAll s.conns table s.nios })

/-- `frsw_create_table`, where it succeeds. -/
def frswCreateTable (s : FrState) (t : TablePtr) : Option (Int × FrState) :=
  match s.tables t with
  | none => some (0, { s with tables := Function.update s.tables t (some (empty _ _)) })
  | some _ => none

/-- The last operation is what the other users of the NIOs do. -/
inductive Op where
  | createTable (t : TablePtr)
  | createVc (t : TablePtr) (nioInput : String) (dlciIn : BitVec 32) (nioOutput : String)
      (dlciOut : BitVec 32) (mem : Option VcPtr) (granted : Bool)
  | deleteVc (t : TablePtr) (nioInput : String) (dlciIn : BitVec 32) (nioOutput : String)
      (dlciOut : BitVec 32)
  | delete (t : TablePtr)
  | others (n : Nios)

def perform (fuel : Nat) (s : FrState) : Op → Option (Int × FrState)
  | .createTable t => frswCreateTable s t
  | .createVc t nioInput dlciIn nioOutput dlciOut mem granted =>
    frswCreateVc fuel s t nioInput dlciIn nioOutput dlciOut mem granted
  | .deleteVc t nioInput dlciIn nioOutput dlciOut =>
    frswDeleteVc s t nioInput dlciIn nioOutput dlciOut
  | .delete t => frswFree s t
  | .others n => some (0, { s with nios := n })

def Live (s : FrState) (vc : VcPtr) : Prop := ∃ t table, s.tables t = some table ∧ Mem table vc

/-- A call is for a switch that exists, a new switch has an address of its own, and
so has a new connection. -/
def Enabled (s : FrState) : Op → Prop
  | .createTable t => s.tables t = none
  | .createVc t _ _ _ _ mem _ => (∃ table, s.tables t = some table) ∧ ∀ vc, mem = some vc → ¬ Live s vc
  | .deleteVc t _ _ _ _ => ∃ table, s.tables t = some table
  | .delete t => ∃ table, s.tables t = some table
  | .others _ => True

/-- What was configured: for each switch, the output of an input NIO and DLCI. -/
abbrev Config := TablePtr → NioPtr × BitVec 32 → Option (NioPtr × BitVec 32)

def Config.next (c : Config) (s : FrState) : Op → Config
  | .createTable t | .delete t => Function.update c t fun _ => none
  | .createVc t nioInput dlciIn nioOutput dlciOut _ _ =>
    match registryExists s.nios nioInput, registryExists s.nios nioOutput with
    | some i, some o =>
      Function.update c t (Function.update (c t) (i, dlciIn) (some (o, dlciOut)))
    | _, _ => c
  | .deleteVc t nioInput dlciIn _ _ =>
    match registryExists s.nios nioInput with
    | some i => Function.update c t (Function.update (c t) (i, dlciIn) none)
    | none => c
  | .others _ => c

structure World where
  fr : FrState
  config : Config

def World.init (n : Nios) : World where
  fr := { tables := fun _ => none
          conns := fun _ => { input := 0, output := 0, dlciIn := 0, dlciOut := 0 }
          links := Heap.empty _ _
          nios := n }
  config := fun _ _ => none

def World.next (w : World) (op : Op) (r : Int × FrState) : World where
  fr := r.2
  config := if r.1 = 0 then w.config.next w.fr op else w.config

def Step (w : World) (op : Op) (w' : World) : Prop :=
  Enabled w.fr op ∧ ∃ fuel, (perform fuel w.fr op).map (w.next op) = some w'

/-- What the switches are for: the tables are what was configured, each NIO has the
list of its connections, frames go where they should, and every call returns. -/
structure FrOk (w : World) : Prop where
  lookup : ∀ t table, w.fr.tables t = some table → ∀ input dlci,
    (frswDlciLookup w.fr table input dlci).map
      (fun vc => ((w.fr.conns vc).output, (w.fr.conns vc).dlciOut)) = w.config t (input, dlci)
  lists : ∀ nio, ∃ l, Segment w.fr.links (.head nio) l ∧
    l.Pairwise (fun a b => (w.fr.conns a).dlciIn ≤ (w.fr.conns b).dlciIn) ∧
    ∀ vc, vc ∈ l ↔ Live w.fr vc ∧ (w.fr.conns vc).input = nio
  frames : ∀ t table, w.fr.tables t = some table → ∀ input pkt0 pkt1 rest output dlciOut,
    frameDlci pkt0 pkt1 ≠ frDlciLmiAnsi →
    w.config t (input, frameDlci pkt0 pkt1) = some (output, dlciOut) →
    ∃ pkt0' pkt1', frswHandlePkt w.fr table input pkt0 pkt1 rest =
        .send (some output) (pkt0' :: pkt1' :: rest) ∧
      frameDlci pkt0' pkt1' = dlciOut &&& 0x3ff ∧ pkt0' &&& 0x03 = pkt0 &&& 0x03 ∧
      pkt1' &&& 0x0f = pkt1 &&& 0x0f
  returns : ∀ op, Enabled w.fr op → ∃ fuel r, perform fuel w.fr op = some r

def vcKey (conns : VcPtr → FrswConn) (vc : VcPtr) : NioPtr × BitVec 32 :=
  ((conns vc).input, (conns vc).dlciIn)

def vcValue (conns : VcPtr → FrswConn) (vc : VcPtr) : NioPtr × BitVec 32 :=
  ((conns vc).output, (conns vc).dlciOut)

/-- The tables hold what was configured, whatever the lists look like. -/
structure TablesOk (s : FrState) (c : Config) : Prop where
  indexed : ∀ t table, s.tables t = some table →
    Indexed (fun k => frswDlciHash k.2) (vcKey s.conns) table
  owner : ∀ t t' table table' vc, s.tables t = some table → s.tables t' = some table' →
    Mem table vc → Mem table' vc → t = t'
  config : ∀ t table, s.tables t = some table → ∀ k v,
    c t k = some v ↔ ∃ vc, Mem table vc ∧ vcKey s.conns vc = k ∧ vcValue s.conns vc = v

structure ListsOk (s : FrState) (lists : NioPtr → List VcPtr) : Prop where
  linked : Lists s.links lists
  sorted : ∀ nio, (lists nio).Pairwise fun a b => (s.conns a).dlciIn ≤ (s.conns b).dlciIn
  mem : ∀ nio vc, vc ∈ lists nio ↔ Live s vc ∧ (s.conns vc).input = nio

variable {s s' : FrState} {c : Config} {t : TablePtr} {table : Table frswHashSize VcPtr}
  {vc : VcPtr} {conn : FrswConn} {fuel : Nat} {nioInput nioOutput : String}
  {dlciIn dlciOut : BitVec 32} {mem : Option VcPtr} {granted : Bool} {res : Int}
  {lists : NioPtr → List VcPtr}

theorem createVc_cases (h : frswCreateVc fuel s t nioInput dlciIn nioOutput dlciOut mem granted =
    some (res, s')) :
    (res = -1 ∧ ∃ n, s' = { s with nios := n }) ∨
    res = 0 ∧ ∃ table vc i o p n, s.tables t = some table ∧ mem = some vc ∧
      registryExists s.nios nioInput = some i ∧ registryExists s.nios nioOutput = some o ∧
      frswDlciLookup s table i dlciIn = none ∧
      findCell s.links (fun q => decide (dlciIn < (s.conns q).dlciIn)) fuel (.head i) = some p ∧
      s' = s.addVc t (push table (frswDlciHash dlciIn) vc) vc
        { input := i, output := o, dlciIn := dlciIn, dlciOut := dlciOut } p n := by
  unfold frswCreateVc at h
  cases htable : s.tables t with
  | none => simp [htable] at h
  | some table =>
    cases mem with
    | none =>
      simp only [htable, Option.some.injEq, Prod.mk.injEq] at h
      exact Or.inl ⟨h.1.symm, s.nios, h.2.symm⟩
    | some vc =>
      rcases h₁ : netioAcquire s.nios nioInput with ⟨input, n₁⟩
      rcases h₂ : netioAcquire n₁ nioOutput with ⟨output, n₂⟩
      simp only [htable, h₁, h₂] at h
      split at h
      · rename_i i o
        split at h
        · cases h
          exact Or.inl ⟨rfl, _, rfl⟩
        · rename_i hnew
          rcases h₃ : netioRxlAdd n₂ i granted with ⟨res, n₃⟩
          simp only [h₃] at h
          split at h
          · cases h
            exact Or.inl ⟨rfl, _, rfl⟩
          · obtain ⟨p, hp, heq⟩ := Option.map_eq_some_iff.mp h
            cases heq
            obtain ⟨hi, hsame⟩ := netioAcquire_some h₁
            obtain ⟨ho, -⟩ := netioAcquire_some h₂
            rw [hsame] at ho
            exact Or.inr ⟨rfl, table, vc, i, o, p, n₃, rfl, rfl, hi, ho, not_not.mp hnew, hp, rfl⟩
      · cases h
        exact Or.inl ⟨rfl, _, rfl⟩

theorem deleteVc_cases (h : frswDeleteVc s t nioInput dlciIn nioOutput dlciOut = some (res, s')) :
    (res = -1 ∧ s' = s) ∨
    res = 0 ∧ ∃ table vc found n, s.tables t = some table ∧
      registryExists s.nios nioInput = some (s.conns vc).input ∧ (s.conns vc).dlciIn = dlciIn ∧
      (table (frswDlciHash dlciIn)).find? found = some vc ∧
      s' = s.removeVc t (eraseFirst table (frswDlciHash dlciIn) found) vc n := by
  unfold frswDeleteVc at h
  split at h
  · cases h
  · rename_i table htable
    split at h
    · rename_i input output hinput houtput
      simp only at h
      split at h
      · rename_i vc hfind
        cases h
        have hfound := List.find?_some hfind
        simp only [decide_eq_true_eq] at hfound
        refine Or.inr ⟨rfl, table, vc, _, _, htable, ?_, hfound.2.2.1, hfind, rfl⟩
        rw [hinput, hfound.1]
      · cases h
        exact Or.inl ⟨rfl, rfl⟩
    · cases h
      exact Or.inl ⟨rfl, rfl⟩

theorem tables_update {tables : TablePtr → Option (Table frswHashSize VcPtr)} {t' : TablePtr}
    {table' : Table frswHashSize VcPtr} {v : Option (Table frswHashSize VcPtr)}
    (h : Function.update tables t v t' = some table') :
    (t' = t ∧ v = some table') ∨ (t' ≠ t ∧ tables t' = some table') := by
  by_cases ht : t' = t
  · subst ht
    rw [Function.update_self] at h
    exact Or.inl ⟨rfl, h⟩
  · rw [Function.update_of_ne ht] at h
    exact Or.inr ⟨ht, h⟩

theorem TablesOk.lookup_eq_some (h : TablesOk s c) (htable : s.tables t = some table)
    (input : NioPtr) (dlci : BitVec 32) :
    frswDlciLookup s table input dlci = some vc ↔
      Mem table vc ∧ vcKey s.conns vc = (input, dlci) := by
  rw [← (h.indexed t table htable).find_eq_some]
  simp only [frswDlciLookup, vcKey, Prod.mk.injEq]

theorem TablesOk.lookup_eq_none (h : TablesOk s c) (htable : s.tables t = some table)
    (input : NioPtr) (dlci : BitVec 32) :
    frswDlciLookup s table input dlci = none ↔
      ∀ w, Mem table w → vcKey s.conns w ≠ (input, dlci) := by
  rw [← (h.indexed t table htable).find_eq_none]
  simp only [frswDlciLookup, vcKey, Prod.mk.injEq]

theorem TablesOk.lookup (h : TablesOk s c) (htable : s.tables t = some table) (input : NioPtr)
    (dlci : BitVec 32) :
    (frswDlciLookup s table input dlci).map (vcValue s.conns) = c t (input, dlci) := by
  cases hc : c t (input, dlci) with
  | none =>
    rw [Option.map_eq_none_iff, h.lookup_eq_none htable]
    intro w hw hkey
    rw [(h.config t table htable _ _).mpr ⟨w, hw, hkey, rfl⟩] at hc
    cases hc
  | some v =>
    obtain ⟨w, hw, hkey, hvalue⟩ := (h.config t table htable _ _).mp hc
    rw [(h.lookup_eq_some htable input dlci).mpr ⟨hw, hkey⟩, Option.map_some, hvalue]

theorem TablesOk.of_not_live (hfree : ¬ Live s vc) {t' : TablePtr}
    {table' : Table frswHashSize VcPtr} (ht : s.tables t' = some table') {w : VcPtr}
    (hw : Mem table' w) : w ≠ vc := by
  rintro rfl
  exact hfree ⟨t', table', ht, hw⟩

theorem vcKey_update {conns : VcPtr → FrswConn} {w : VcPtr} (hw : w ≠ vc) :
    vcKey (Function.update conns vc conn) w = vcKey conns w := by
  rw [vcKey, Function.update_of_ne hw, vcKey]

theorem vcValue_update {conns : VcPtr → FrswConn} {w : VcPtr} (hw : w ≠ vc) :
    vcValue (Function.update conns vc conn) w = vcValue conns w := by
  rw [vcValue, Function.update_of_ne hw, vcValue]

theorem TablesOk.addVc (h : TablesOk s c) (htable : s.tables t = some table)
    (hfree : ¬ Live s vc) (hnew : frswDlciLookup s table conn.input conn.dlciIn = none)
    (p : Cell NioPtr VcPtr) (n : Nios) :
    TablesOk (s.addVc t (push table (frswDlciHash conn.dlciIn) vc) vc conn p n)
      (Function.update c t (Function.update (c t) (conn.input, conn.dlciIn)
        (some (conn.output, conn.dlciOut)))) := by
  have hne : ∀ {t' table'}, s.tables t' = some table' → ∀ {w}, Mem table' w → w ≠ vc :=
    fun ht _ hw => TablesOk.of_not_live hfree ht hw
  have hkeyVc : vcKey (Function.update s.conns vc conn) vc = (conn.input, conn.dlciIn) := by
    rw [vcKey, Function.update_self]
  have hvalueVc : vcValue (Function.update s.conns vc conn) vc = (conn.output, conn.dlciOut) := by
    rw [vcValue, Function.update_self]
  constructor
  · intro t' table' ht
    rcases tables_update ht with ⟨-, heq⟩ | ⟨-, ht⟩
    · cases heq
      refine ((h.indexed t table htable).congr fun w hw => vcKey_update (hne htable hw)).push ?_ ?_
      · simp only [hkeyVc]
      · intro w hw
        rw [vcKey_update (hne htable hw), hkeyVc]
        exact (h.lookup_eq_none htable _ _).mp hnew w hw
    · exact (h.indexed t' table' ht).congr fun w hw => vcKey_update (hne ht hw)
  · intro t₁ t₂ table₁ table₂ w h₁ h₂ hw₁ hw₂
    rcases tables_update h₁ with ⟨ht₁, heq₁⟩ | ⟨-, hold₁⟩
    · rcases tables_update h₂ with ⟨ht₂, -⟩ | ⟨-, hold₂⟩
      · rw [ht₁, ht₂]
      · cases heq₁
        have hw := (mem_push.mp hw₁).resolve_left (hne hold₂ hw₂)
        rw [ht₁]
        exact h.owner t t₂ table table₂ w htable hold₂ hw hw₂
    · rcases tables_update h₂ with ⟨ht₂, heq₂⟩ | ⟨-, hold₂⟩
      · cases heq₂
        have hw := (mem_push.mp hw₂).resolve_left (hne hold₁ hw₁)
        rw [ht₂]
        exact h.owner t₁ t table₁ table w hold₁ htable hw₁ hw
      · exact h.owner t₁ t₂ table₁ table₂ w hold₁ hold₂ hw₁ hw₂
  · intro t' table' ht k v
    rcases tables_update ht with ⟨rfl, heq⟩ | ⟨hne', ht⟩
    · cases heq
      rw [Function.update_self]
      simp only [FrState.addVc, mem_push]
      by_cases hk : k = (conn.input, conn.dlciIn)
      · subst hk
        rw [Function.update_self]
        constructor
        · rintro ⟨⟩
          exact ⟨vc, Or.inl rfl, hkeyVc, hvalueVc⟩
        · rintro ⟨w, hw, hkey, hvalue⟩
          cases hw with
          | inl hw =>
            subst hw
            rw [← hvalue, hvalueVc]
          | inr hw =>
            rw [vcKey_update (hne htable hw)] at hkey
            exact absurd hkey ((h.lookup_eq_none htable _ _).mp hnew w hw)
      · rw [Function.update_of_ne hk, h.config t' table htable]
        constructor
        · rintro ⟨w, hw, hkey, hvalue⟩
          exact ⟨w, Or.inr hw, by rw [vcKey_update (hne htable hw), hkey],
            by rw [vcValue_update (hne htable hw), hvalue]⟩
        · rintro ⟨w, hw, hkey, hvalue⟩
          cases hw with
          | inl hw =>
            subst hw
            exact absurd (hkey.symm.trans hkeyVc) hk
          | inr hw =>
            rw [vcKey_update (hne htable hw)] at hkey
            rw [vcValue_update (hne htable hw)] at hvalue
            exact ⟨w, hw, hkey, hvalue⟩
    · rw [Function.update_of_ne hne', h.config t' table' ht]
      refine exists_congr fun w => and_congr_right fun hw => ?_
      simp only [FrState.addVc, vcKey_update (hne ht hw), vcValue_update (hne ht hw)]

theorem TablesOk.removeVc (h : TablesOk s c) (htable : s.tables t = some table)
    {found : VcPtr → Bool}
    (hfind : (table (frswDlciHash (s.conns vc).dlciIn)).find? found = some vc) (n : Nios) :
    TablesOk (s.removeVc t (eraseFirst table (frswDlciHash (s.conns vc).dlciIn) found) vc n)
      (Function.update c t (Function.update (c t) (vcKey s.conns vc) none)) := by
  have hindexed := h.indexed t table htable
  have hvc : Mem table vc := ⟨_, List.mem_of_find?_eq_some hfind⟩
  constructor
  · intro t' table' ht
    rcases tables_update ht with ⟨-, heq⟩ | ⟨-, ht⟩
    · cases heq
      exact hindexed.eraseFirst _ _
    · exact h.indexed t' table' ht
  · intro t₁ t₂ table₁ table₂ w h₁ h₂ hw₁ hw₂
    have hold : ∀ {t' table'}, Function.update s.tables t
        (some (eraseFirst table (frswDlciHash (s.conns vc).dlciIn) found)) t' = some table' →
        Mem table' w → ∃ table'', s.tables t' = some table'' ∧ Mem table'' w := by
      intro t' table' ht hw
      rcases tables_update ht with ⟨rfl, heq⟩ | ⟨-, ht⟩
      · cases heq
        exact ⟨table, htable, mem_of_mem_eraseFirst hw⟩
      · exact ⟨table', ht, hw⟩
    obtain ⟨table₁', h₁', hw₁'⟩ := hold h₁ hw₁
    obtain ⟨table₂', h₂', hw₂'⟩ := hold h₂ hw₂
    exact h.owner t₁ t₂ table₁' table₂' w h₁' h₂' hw₁' hw₂'
  · intro t' table' ht k v
    rcases tables_update ht with ⟨rfl, heq⟩ | ⟨hne, ht⟩
    · cases heq
      rw [Function.update_self]
      simp only [FrState.removeVc, hindexed.mem_eraseFirst hfind]
      by_cases hk : k = vcKey s.conns vc
      · subst hk
        rw [Function.update_self]
        refine iff_of_false (by simp) ?_
        rintro ⟨w, ⟨hw, hne⟩, hkey, -⟩
        exact hne (hindexed.eq_of_key hw hvc hkey)
      · rw [Function.update_of_ne hk, h.config t' table htable]
        refine exists_congr fun w => ?_
        constructor
        · rintro ⟨hw, hkey, hvalue⟩
          refine ⟨⟨hw, ?_⟩, hkey, hvalue⟩
          rintro rfl
          exact hk hkey.symm
        · rintro ⟨⟨hw, -⟩, hkey, hvalue⟩
          exact ⟨hw, hkey, hvalue⟩
    · rw [Function.update_of_ne hne, h.config t' table' ht]
      rfl

theorem TablesOk.setTable (h : TablesOk s c) {v : Option (Table frswHashSize VcPtr)}
    (hv : ∀ table, v = some table → table = empty _ _) (n : Nios) :
    TablesOk { s with tables := Function.update s.tables t v, nios := n }
      (Function.update c t fun _ => none) := by
  constructor
  · intro t' table' ht
    rcases tables_update ht with ⟨-, heq⟩ | ⟨-, ht⟩
    · rw [hv table' heq]
      exact indexed_empty
    · exact h.indexed t' table' ht
  · intro t₁ t₂ table₁ table₂ w h₁ h₂ hw₁ hw₂
    rcases tables_update h₁ with ⟨-, heq⟩ | ⟨-, h₁⟩
    · rw [hv table₁ heq] at hw₁
      exact absurd hw₁ not_mem_empty
    · rcases tables_update h₂ with ⟨-, heq⟩ | ⟨-, h₂⟩
      · rw [hv table₂ heq] at hw₂
        exact absurd hw₂ not_mem_empty
      · exact h.owner t₁ t₂ table₁ table₂ w h₁ h₂ hw₁ hw₂
  · intro t' table' ht k v
    rcases tables_update ht with ⟨rfl, heq⟩ | ⟨hne, ht⟩
    · rw [Function.update_self]
      refine iff_of_false (by simp) ?_
      rintro ⟨w, hw, -⟩
      rw [hv table' heq] at hw
      exact not_mem_empty hw
    · rw [Function.update_of_ne hne]
      exact h.config t' table' ht k v

theorem live_addVc (htable : s.tables t = some table) {b : Fin frswHashSize} {w : VcPtr}
    {p : Cell NioPtr VcPtr} {n : Nios} :
    Live (s.addVc t (push table b vc) vc conn p n) w ↔ w = vc ∨ Live s w := by
  constructor
  · rintro ⟨t', table', ht, hw⟩
    rcases tables_update ht with ⟨rfl, heq⟩ | ⟨-, ht⟩
    · cases heq
      exact (mem_push.mp hw).imp_right fun hw => ⟨t', table, htable, hw⟩
    · exact Or.inr ⟨t', table', ht, hw⟩
  · intro hw
    by_cases hwvc : w = vc
    · exact ⟨t, _, Function.update_self _ _ _, mem_push.mpr (Or.inl hwvc)⟩
    · obtain ⟨t', table', ht, hw⟩ := hw.resolve_left hwvc
      by_cases htt : t' = t
      · subst htt
        cases htable.symm.trans ht
        exact ⟨t', _, Function.update_self _ _ _, mem_push.mpr (Or.inr hw)⟩
      · exact ⟨t', table', by simpa [FrState.addVc, Function.update_of_ne htt] using ht, hw⟩

theorem TablesOk.live_removeVc (h : TablesOk s c) (htable : s.tables t = some table)
    {found : VcPtr → Bool} {b : Fin frswHashSize} (hfind : (table b).find? found = some vc)
    {w : VcPtr} {n : Nios} :
    Live (s.removeVc t (eraseFirst table b found) vc n) w ↔ Live s w ∧ w ≠ vc := by
  have hvc : Mem table vc := ⟨_, List.mem_of_find?_eq_some hfind⟩
  have hmem := (h.indexed t table htable).mem_eraseFirst hfind (w := w)
  constructor
  · rintro ⟨t', table', ht, hw⟩
    rcases tables_update ht with ⟨-, heq⟩ | ⟨hne, hold⟩
    · cases heq
      exact ⟨⟨t, table, htable, (hmem.mp hw).1⟩, (hmem.mp hw).2⟩
    · refine ⟨⟨t', table', hold, hw⟩, ?_⟩
      rintro rfl
      exact hne (h.owner t' t table' table w hold htable hw hvc)
  · rintro ⟨⟨t', table', ht, hw⟩, hne⟩
    by_cases htt : t' = t
    · subst htt
      cases htable.symm.trans ht
      exact ⟨t', _, Function.update_self _ _ _, hmem.mpr ⟨hw, hne⟩⟩
    · exact ⟨t', table', by simpa [FrState.removeVc, Function.update_of_ne htt] using ht, hw⟩

theorem ListsOk.not_mem (h : ListsOk s lists) (hfree : ¬ Live s vc) (nio : NioPtr) :
    vc ∉ lists nio :=
  fun hvc => hfree ((h.mem nio vc).mp hvc).1

theorem ListsOk.addVc (h : ListsOk s lists) (htable : s.tables t = some table)
    (hfree : ¬ Live s vc) {p : Cell NioPtr VcPtr}
    (hp : findCell s.links (fun q => decide (conn.dlciIn < (s.conns q).dlciIn)) fuel
      (.head conn.input) = some p) (b : Fin frswHashSize) (n : Nios) :
    ListsOk (s.addVc t (push table b vc) vc conn p n) (Function.update lists conn.input
      (((lists conn.input).takeWhile fun q => !decide (conn.dlciIn < (s.conns q).dlciIn)) ++
        vc :: (lists conn.input).dropWhile fun q =>
          !decide (conn.dlciIn < (s.conns q).dlciIn))) := by
  have hvc := h.not_mem hfree
  have hdlci : ∀ nio, ∀ w ∈ lists nio,
      (Function.update s.conns vc conn w).dlciIn = (s.conns w).dlciIn := by
    intro nio w hw
    rw [Function.update_of_ne]
    rintro rfl
    exact hvc nio hw
  constructor
  · rw [FrState.addVc, (h.linked.segment conn.input).findCell_eq hp]
    exact h.linked.insertAt (List.takeWhile_append_dropWhile).symm hvc
  · intro nio
    have hold : ∀ nio, (lists nio).Pairwise fun a b =>
        (Function.update s.conns vc conn a).dlciIn ≤ (Function.update s.conns vc conn b).dlciIn :=
      fun nio => (h.sorted nio).imp_of_mem fun ha hb hab => by
        rw [hdlci nio _ ha, hdlci nio _ hb]
        exact hab
    by_cases hnio : nio = conn.input
    · subst hnio
      rw [Function.update_self]
      refine @BackLinks.sorted_insert _ _ vc
        (fun q => (Function.update s.conns vc conn q).dlciIn.toNat) _ (hold conn.input)
        fun q hq => ?_
      simp only [hdlci _ q hq, Function.update_self, decide_eq_true_eq]
      exact BitVec.lt_def
    · rw [Function.update_of_ne hnio]
      exact hold nio
  · intro nio w
    rw [live_addVc htable]
    by_cases hw : w = vc
    · subst hw
      by_cases hnio : nio = conn.input
      · subst hnio
        simp [FrState.addVc]
      · simpa [FrState.addVc, Function.update_of_ne hnio, Ne.symm hnio] using hvc nio
    · simp only [FrState.addVc, Function.update_of_ne hw, hw, false_or, ← h.mem nio w]
      by_cases hnio : nio = conn.input
      · subst hnio
        rw [Function.update_self, List.mem_append, List.mem_cons]
        simp only [hw, false_or]
        rw [← List.mem_append, List.takeWhile_append_dropWhile]
      · rw [Function.update_of_ne hnio]

theorem ListsOk.removeVc (h : ListsOk s lists) (hok : TablesOk s c)
    (htable : s.tables t = some table) {found : VcPtr → Bool} {b : Fin frswHashSize}
    (hfind : (table b).find? found = some vc) (n : Nios) :
    ∃ lists, ListsOk (s.removeVc t (eraseFirst table b found) vc n) lists := by
  have hlive : Live s vc := ⟨t, table, htable, ⟨b, List.mem_of_find?_eq_some hfind⟩⟩
  have hvc := (h.mem (s.conns vc).input vc).mpr ⟨hlive, rfl⟩
  obtain ⟨l₁, l₂, hsplit⟩ := List.append_of_mem hvc
  have hnodup := (h.linked.segment (s.conns vc).input).nodup
  rw [hsplit] at hnodup
  have hnot := (List.nodup_cons.mp (List.nodup_middle.mp hnodup)).1
  refine ⟨Function.update lists (s.conns vc).input (l₁ ++ l₂), h.linked.unlink hsplit, ?_, ?_⟩
  · intro nio
    by_cases hnio : nio = (s.conns vc).input
    · subst hnio
      rw [Function.update_self]
      have hsorted := h.sorted (s.conns vc).input
      rw [hsplit] at hsorted
      exact hsorted.sublist ((List.Sublist.refl l₁).append (List.sublist_cons_self vc l₂))
    · rw [Function.update_of_ne hnio]
      exact h.sorted nio
  · intro nio w
    rw [hok.live_removeVc htable hfind]
    simp only [FrState.removeVc, and_right_comm (c := (s.conns w).input = nio), ← h.mem nio w]
    by_cases hnio : nio = (s.conns vc).input
    · subst hnio
      rw [Function.update_self, hsplit]
      simp only [List.mem_append, List.mem_cons] at hnot ⊢
      constructor
      · intro hw
        refine ⟨hw.imp_right Or.inr, ?_⟩
        rintro rfl
        exact hnot hw
      · rintro ⟨hw, hne⟩
        exact hw.imp_right fun hw => hw.resolve_left hne
    · rw [Function.update_of_ne hnio]
      refine ⟨fun hw => ⟨hw, ?_⟩, fun hw => hw.1⟩
      rintro rfl
      exact hnio ((h.mem nio w).mp hw).2.symm

theorem getLsbD_frameDlci (pkt0 pkt1 : Byte) {i : Nat} (hi : i < 32) :
    (frameDlci pkt0 pkt1).getLsbD i =
      if i < 4 then pkt1.getLsbD (i + 4) else (decide (i < 10) && pkt0.getLsbD (i - 2)) := by
  interval_cases i <;> simp [frameDlci]

theorem getLsbD_switch_fst (vc : FrswConn) (pkt0 pkt1 : Byte) {i : Nat} (hi : i < 8) :
    (frswDlciSwitch vc pkt0 pkt1).1.getLsbD i =
      if i < 2 then pkt0.getLsbD i else vc.dlciOut.getLsbD (i + 2) := by
  interval_cases i <;> simp [frswDlciSwitch]

theorem getLsbD_switch_snd (vc : FrswConn) (pkt0 pkt1 : Byte) {i : Nat} (hi : i < 8) :
    (frswDlciSwitch vc pkt0 pkt1).2.getLsbD i =
      if i < 4 then pkt1.getLsbD i else vc.dlciOut.getLsbD (i - 4) := by
  interval_cases i <;> simp [frswDlciSwitch]

theorem getLsbD_and_dlci (x : BitVec 32) {i : Nat} (hi : i < 32) :
    (x &&& 0x3ff).getLsbD i = (decide (i < 10) && x.getLsbD i) := by
  interval_cases i <;> simp

theorem frameDlci_switch (vc : FrswConn) (pkt0 pkt1 : Byte) :
    frameDlci (frswDlciSwitch vc pkt0 pkt1).1 (frswDlciSwitch vc pkt0 pkt1).2 =
      vc.dlciOut &&& 0x3ff := by
  apply BitVec.eq_of_getLsbD_eq
  intro i hi
  rw [getLsbD_frameDlci _ _ hi, getLsbD_and_dlci _ hi]
  by_cases hlow : i < 4
  · rw [if_pos hlow, getLsbD_switch_snd _ _ _ (by omega), if_neg (by omega), Nat.add_sub_cancel,
      decide_eq_true (by omega : i < 10), Bool.true_and]
  · rw [if_neg hlow]
    by_cases hten : i < 10
    · rw [getLsbD_switch_fst _ _ _ (by omega), if_neg (by omega), Nat.sub_add_cancel (by omega)]
    · simp [hten]

theorem switch_other_bits (vc : FrswConn) (pkt0 pkt1 : Byte) :
    (frswDlciSwitch vc pkt0 pkt1).1 &&& 0x03 = pkt0 &&& 0x03 ∧
      (frswDlciSwitch vc pkt0 pkt1).2 &&& 0x0f = pkt1 &&& 0x0f := by
  constructor
  · apply BitVec.eq_of_getLsbD_eq
    intro i hi
    interval_cases i <;> simp [frswDlciSwitch]
  · apply BitVec.eq_of_getLsbD_eq
    intro i hi
    interval_cases i <;> simp [frswDlciSwitch]

theorem TablesOk.handlePkt (h : TablesOk s c) (htable : s.tables t = some table)
    {input output : NioPtr} {pkt0 pkt1 : Byte} (hdata : frameDlci pkt0 pkt1 ≠ frDlciLmiAnsi)
    (hc : c t (input, frameDlci pkt0 pkt1) = some (output, dlciOut)) (rest : List Byte) :
    ∃ vc, (s.conns vc).dlciOut = dlciOut ∧ frswHandlePkt s table input pkt0 pkt1 rest =
      .send (some output) ((frswDlciSwitch (s.conns vc) pkt0 pkt1).1 ::
        (frswDlciSwitch (s.conns vc) pkt0 pkt1).2 :: rest) := by
  rw [← h.lookup htable, Option.map_eq_some_iff] at hc
  obtain ⟨vc, hvc, hvalue⟩ := hc
  obtain ⟨houtput, hdlci⟩ := Prod.mk.inj hvalue
  refine ⟨vc, hdlci, ?_⟩
  rw [frswHandlePkt]
  simp only [if_neg hdata, hvc, houtput]

theorem ListsOk.createVc_returns (h : ListsOk s lists) (htable : s.tables t = some table) :
    ∃ fuel r, frswCreateVc fuel s t nioInput dlciIn nioOutput dlciOut mem granted = some r := by
  rcases h₁ : netioAcquire s.nios nioInput with ⟨input, n₁⟩
  rcases h₂ : netioAcquire n₁ nioOutput with ⟨output, n₂⟩
  cases mem with
  | none => exact ⟨0, by simp [frswCreateVc, htable]⟩
  | some vc =>
    cases input with
    | none => exact ⟨0, by simp [frswCreateVc, htable, h₁]⟩
    | some i =>
      refine ⟨(lists i).length + 1, ?_⟩
      have hfind := (h.linked.segment i).findCell fun q => decide (dlciIn < (s.conns q).dlciIn)
      cases output with
      | none => simp [frswCreateVc, htable, h₁, h₂]
      | some o =>
        simp only [frswCreateVc, htable, h₁, h₂, hfind, Option.map_some]
        split
        · exact ⟨_, rfl⟩
        · split <;> exact ⟨_, rfl⟩

theorem ListsOk.returns (h : ListsOk s lists) (op : Op) (hen : Enabled s op) :
    ∃ fuel r, perform fuel s op = some r := by
  cases op with
  | createTable t =>
    have hnone : s.tables t = none := hen
    exact ⟨0, by simp [perform, frswCreateTable, hnone]⟩
  | createVc t nioInput dlciIn nioOutput dlciOut mem granted =>
    obtain ⟨⟨table, htable⟩, -⟩ := hen
    exact h.createVc_returns htable
  | deleteVc t nioInput dlciIn nioOutput dlciOut =>
    obtain ⟨table, htable⟩ := hen
    refine ⟨0, ?_⟩
    simp only [perform, frswDeleteVc, htable]
    split
    · split <;> exact ⟨_, rfl⟩
    · exact ⟨_, rfl⟩
  | delete t =>
    obtain ⟨table, htable⟩ := hen
    exact ⟨0, by simp [perform, frswFree, htable]⟩
  | others n => exact ⟨0, _, rfl⟩

theorem exists_listsOk (h : ∀ nio, ∃ l, Segment s.links (.head nio) l ∧
    l.Pairwise (fun a b => (s.conns a).dlciIn ≤ (s.conns b).dlciIn) ∧
    ∀ vc, vc ∈ l ↔ Live s vc ∧ (s.conns vc).input = nio) : ∃ lists, ListsOk s lists := by
  choose lists hlists using h
  refine ⟨lists, ⟨fun nio => (hlists nio).1, fun nio nio' vc hvc hvc' => ?_⟩,
    fun nio => (hlists nio).2.1, fun nio => (hlists nio).2.2⟩
  have hinput := (((hlists nio).2.2 vc).mp hvc).2
  exact hinput.symm.trans (((hlists nio').2.2 vc).mp hvc').2

theorem TablesOk.frOk {w : World} (h : TablesOk w.fr w.config) :
    FrOk w ↔ ∃ lists, ListsOk w.fr lists := by
  constructor
  · intro hok
    exact exists_listsOk hok.lists
  · rintro ⟨lists, hlists⟩
    refine ⟨fun t table ht input dlci => h.lookup ht input dlci,
      fun nio => ⟨lists nio, hlists.linked.segment nio, hlists.sorted nio, hlists.mem nio⟩, ?_,
      hlists.returns⟩
    intro t table ht input pkt0 pkt1 rest output dlciOut hdata hc
    obtain ⟨vc, hdlci, hsend⟩ := h.handlePkt ht hdata hc rest
    have hbits := switch_other_bits (w.fr.conns vc) pkt0 pkt1
    refine ⟨_, _, hsend, ?_, hbits.1, hbits.2⟩
    rw [frameDlci_switch, hdlci]

def NoVcLeft (w : World) : Op → Prop
  | .delete t => ∀ table, w.fr.tables t = some table → ∀ vc, ¬ Mem table vc
  | _ => True

end Dynamips.Frsw
