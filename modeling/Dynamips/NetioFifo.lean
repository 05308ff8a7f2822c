import Dynamips.Lib.Bytes
import Dynamips.Lib.Runs
import Mathlib.Logic.Function.Basic

/-! The FIFO driver of net_io.c: cross-connections, the descriptors they join and
what becomes of them when a descriptor is deleted. -/
set_option autoImplicit false

namespace Dynamips.Fifo
open Runs

/-- The address of a `netio_desc_t`, and of the FIFO descriptor in it. -/
abbrev NioPtr := Nat

structure NetioFifoDesc where
  endpoint : Option NioPtr
  pkts : List (List Byte)

inductive NetioDesc where
  | fifo (nfd : NetioFifoDesc)
  | other

abbrev Netios := NioPtr → Option NetioDesc

def fifoOf (m : Netios) (nio : NioPtr) : Option NetioFifoDesc :=
  match m nio with
  | some (.fifo nfd) => some nfd
  | _ => none

def endpoint (m : Netios) (nio : NioPtr) : Option NioPtr :=
  match fifoOf m nio with
  | some nfd => nfd.endpoint
  | none => none

def setFifo (m : Netios) (nio : NioPtr) (nfd : NetioFifoDesc) : Netios :=
  Function.update m nio (some (.fifo nfd))

def netioFifoCrossconnect (m : Netios) (a b : NioPtr) : Int × Netios :=
  match fifoOf m a, fifoOf m b with
  | some _, some _ =>
    let m := setFifo m a { endpoint := some b, pkts := [] }
    let m := setFifo m b { endpoint := some a, pkts := [] }
    (0, m)
  | _, _ => (-1, m)

/-- `netio_fifo_unbind_endpoint`, which must not be given a freed descriptor. -/
def netioFifoUnbindEndpoint (m : Netios) (nio : NioPtr) : Option Netios :=
  (fifoOf m nio).map fun nfd => setFifo m nio { nfd with endpoint := none }

def netioFifoFree (m : Netios) (nfd : NetioFifoDesc) : Option Netios :=
  match nfd.endpoint with
  | some nio => netioFifoUnbindEndpoint m nio
  | none => some m

def netioFree (m : Netios) (nio : NioPtr) : Option Netios :=
  match m nio with
  | some (.fifo nfd) => (netioFifoFree m nfd).map fun m => Function.update m nio none
  | some .other => some (Function.update m nio none)
  | none => none

/-- `netio_fifo_send`; `granted` tells whether the packet could be allocated. -/
def netioFifoSend (m : Netios) (nio : NioPtr) (pkt : List Byte) (granted : Bool) : Option Netios :=
  match endpoint m nio with
  | none => some m
  | some dst =>
    if granted then (fifoOf m dst).map fun nfd => setFifo m dst { nfd with pkts := nfd.pkts ++ [pkt] }
    else some m

/-- `netio_fifo_recv`, with its effect on the packet list. -/
def netioFifoRecv (m : Netios) (nio : NioPtr) : Option Netios :=
  (fifoOf m nio).map fun nfd => setFifo m nio { nfd with pkts := nfd.pkts.tail }

/-- What `netio_desc_create_fifo` or another constructor records. -/
def newDesc (isFifo : Bool) : NetioDesc :=
  if isFifo then .fifo { endpoint := none, pkts := [] } else .other

inductive Event where
  | create (nio : NioPtr) (isFifo : Bool)
  | crossconnect (a b : NioPtr)
  | delete (nio : NioPtr)
  | send (nio : NioPtr) (pkt : List Byte) (granted : Bool)
  | recv (nio : NioPtr)

/-- One operation, or nothing where it would use a freed descriptor. -/
def step (m : Netios) : Event → Option Netios
  | .create nio isFifo =>
    match m nio with
    | none => some (Function.update m nio (some (newDesc isFifo)))
    | some _ => none
  | .crossconnect a b => some (netioFifoCrossconnect m a b).2
  | .delete nio => netioFree m nio
  | .send nio pkt granted => netioFifoSend m nio pkt granted
  | .recv nio => netioFifoRecv m nio

def Step (m : Netios) (e : Event) (m' : Netios) : Prop := step m e = some m'

/-- The endpoint of `x` is `y` exactly if that of `y` is `x`, and endpoints are
descriptors that exist. -/
structure EndpointsOk (m : Netios) : Prop where
  symm : ∀ x y, endpoint m x = some y ↔ endpoint m y = some x
  exists_endpoint : ∀ x y, endpoint m x = some y → ∃ desc, m y = some desc

/-- Neither side of a cross-connection has a partner outside of it. -/
def PartnersFree (m : Netios) : Event → Prop
  | .crossconnect a b => fifoOf m a ≠ none → fifoOf m b ≠ none →
      ∀ c, endpoint m a = some c ∨ endpoint m b = some c → c = a ∨ c = b
  | _ => True

variable {m m' : Netios} {nio a b : NioPtr}

theorem endpoint_of_fifoOf {nfd : NetioFifoDesc} (h : fifoOf m nio = some nfd) :
    endpoint m nio = nfd.endpoint := by
  rw [endpoint, h]

@[simp] theorem endpoint_setFifo_self (m : Netios) (nio : NioPtr) (nfd : NetioFifoDesc) :
    endpoint (setFifo m nio nfd) nio = nfd.endpoint := by
  simp [endpoint, fifoOf, setFifo]

theorem endpoint_update_ne {x : NioPtr} (desc : Option NetioDesc) (h : x ≠ nio) :
    endpoint (Function.update m nio desc) x = endpoint m x := by
  simp [endpoint, fifoOf, Function.update_of_ne h]

theorem endpoint_setFifo_ne {x : NioPtr} (nfd : NetioFifoDesc) (h : x ≠ nio) :
    endpoint (setFifo m nio nfd) x = endpoint m x :=
  endpoint_update_ne _ h

theorem endpoint_eq_some {x y : NioPtr} (h : endpoint m x = some y) :
    ∃ nfd, m x = some (.fifo nfd) ∧ nfd.endpoint = some y := by
  simp only [endpoint, fifoOf] at h
  cases hm : m x with
  | none => simp [hm] at h
  | some desc =>
    cases desc with
    | fifo nfd => exact ⟨nfd, rfl, by simpa [hm] using h⟩
    | other => simp [hm] at h

theorem EndpointsOk.of_symm (h : ∀ x y, endpoint m x = some y → endpoint m y = some x) :
    EndpointsOk m where
  symm x y := ⟨h x y, h y x⟩
  exists_endpoint x y hxy := by
    obtain ⟨nfd, hm, -⟩ := endpoint_eq_some (h x y hxy)
    exact ⟨_, hm⟩

theorem EndpointsOk.congr (h : EndpointsOk m) (he : ∀ x, endpoint m' x = endpoint m x) :
    EndpointsOk m' :=
  .of_symm fun x y hxy => by
    rw [he] at hxy ⊢
    exact (h.symm x y).mp hxy

theorem endpoint_setPkts {nfd : NetioFifoDesc} (h : fifoOf m nio = some nfd)
    (pkts : List (List Byte)) (x : NioPtr) :
    endpoint (setFifo m nio { nfd with pkts := pkts }) x = endpoint m x := by
  by_cases hx : x = nio
  · subst hx
    rw [endpoint_setFifo_self, endpoint_of_fifoOf h]
  · exact endpoint_setFifo_ne _ hx

theorem endpointsOk_create {isFifo : Bool} (h : EndpointsOk m) (hfree : m nio = none) :
    EndpointsOk (Function.update m nio (some (newDesc isFifo))) := by
  refine h.congr fun x => ?_
  by_cases hx : x = nio
  · subst hx
    cases isFifo <;> simp [endpoint, fifoOf, newDesc, hfree]
  · exact endpoint_update_ne _ hx

theorem endpoint_update_none (m : Netios) (nio : NioPtr) :
    endpoint (Function.update m nio none) nio = none := by
  simp [endpoint, fifoOf]

theorem endpointsOk_delete (h : EndpointsOk m) (hf : netioFree m nio = some m') :
    EndpointsOk m' := by
  have hplain : endpoint m nio = none → EndpointsOk (Function.update m nio none) := by
    intro hnone
    refine h.congr fun x => ?_
    by_cases hx : x = nio
    · rw [hx, hnone, endpoint_update_none]
    · exact endpoint_update_ne _ hx
  simp only [netioFree] at hf
  split at hf
  · rename_i nfd hm
    have hfifo : fifoOf m nio = some nfd := by rw [fifoOf, hm]
    have hend := endpoint_of_fifoOf hfifo
    simp only [netioFifoFree] at hf
    split at hf
    · rename_i q hq
      rw [hq] at hend
      have hback := (h.symm nio q).mp hend
      simp only [netioFifoUnbindEndpoint, Option.map_map, Option.map_eq_some_iff] at hf
      obtain ⟨nq, -, rfl⟩ := hf
      have hother : ∀ x, x ≠ nio → x ≠ q → endpoint (Function.update
          (setFifo m q { nq with endpoint := none }) nio none) x = endpoint m x := by
        intro x hx hxq
        rw [endpoint_update_ne _ hx, endpoint_setFifo_ne _ hxq]
      refine .of_symm fun x y hxy => ?_
      have hx : x ≠ nio := by
        rintro rfl
        simp [endpoint_update_none] at hxy
      have hxq : x ≠ q := by
        rintro rfl
        simp [endpoint_update_ne _ hx] at hxy
      have hmxy : endpoint m x = some y := by rw [← hother x hx hxq]; exact hxy
      have hmyx := (h.symm x y).mp hmxy
      have hy : y ≠ nio := by
        rintro rfl
        rw [hend] at hmyx
        cases hmyx
        exact hxq rfl
      have hyq : y ≠ q := by
        rintro rfl
        rw [hback] at hmyx
        cases hmyx
        exact hx rfl
      simp only [Function.comp_apply]
      rw [hother y hy hyq]
      exact hmyx
    · rename_i hnone
      rw [hnone] at hend
      cases hf
      exact hplain hend
  · rename_i hm
    cases hf
    exact hplain (by rw [endpoint, fifoOf, hm])
  · cases hf

theorem netioFifoCrossconnect_eq (ha : fifoOf m a ≠ none) (hb : fifoOf m b ≠ none) :
    (netioFifoCrossconnect m a b).2 =
      setFifo (setFifo m a { endpoint := some b, pkts := [] }) b
        { endpoint := some a, pkts := [] } := by
  obtain ⟨pa, ha⟩ := Option.ne_none_iff_exists'.mp ha
  obtain ⟨pb, hb⟩ := Option.ne_none_iff_exists'.mp hb
  rw [netioFifoCrossconnect, ha, hb]

theorem endpoint_crossconnect (ha : fifoOf m a ≠ none) (hb : fifoOf m b ≠ none) (x : NioPtr) :
    endpoint (netioFifoCrossconnect m a b).2 x =
      if x = b then some a else if x = a then some b else endpoint m x := by
  rw [netioFifoCrossconnect_eq ha hb]
  split
  · rename_i hx
    rw [hx, endpoint_setFifo_self]
  · rename_i hx
    rw [endpoint_setFifo_ne _ hx]
    split
    · rename_i hxa
      rw [hxa, endpoint_setFifo_self]
    · rename_i hxa
      exact endpoint_setFifo_ne _ hxa

theorem partner_of_symm (h : EndpointsOk m) (ha : fifoOf m a ≠ none) (hb : fifoOf m b ≠ none)
    (h' : EndpointsOk (netioFifoCrossconnect m a b).2) {x c : NioPtr} (hx : x = a ∨ x = b)
    (hc : endpoint m x = some c) : c = a ∨ c = b := by
  by_contra hne
  obtain ⟨hca, hcb⟩ := not_or.mp hne
  have hback := (h.symm x c).mp hc
  have hkeep : endpoint (netioFifoCrossconnect m a b).2 c = some x := by
    rw [endpoint_crossconnect ha hb, if_neg hcb, if_neg hca]
    exact hback
  have hxc := (h'.symm c x).mp hkeep
  rw [endpoint_crossconnect ha hb] at hxc
  split at hxc
  · cases hxc
    exact hca rfl
  · rename_i hxb
    rw [if_pos (hx.resolve_right hxb)] at hxc
    cases hxc
    exact hcb rfl

theorem endpointsOk_crossconnect (h : EndpointsOk m) :
    EndpointsOk (netioFifoCrossconnect m a b).2 ↔ PartnersFree m (.crossconnect a b) := by
  by_cases hab : fifoOf m a ≠ none ∧ fifoOf m b ≠ none
  · obtain ⟨ha, hb⟩ := hab
    constructor
    · intro h' _ _ c hc
      cases hc with
      | inl hc => exact partner_of_symm h ha hb h' (Or.inl rfl) hc
      | inr hc => exact partner_of_symm h ha hb h' (Or.inr rfl) hc
    · intro hfree
      have hpartner := hfree ha hb
      refine .of_symm fun x y hxy => ?_
      rw [endpoint_crossconnect ha hb] at hxy ⊢
      by_cases hxb : x = b
      · subst hxb
        rw [if_pos rfl, Option.some.injEq] at hxy
        subst hxy
        by_cases hax : a = x <;> simp [hax]
      · rw [if_neg hxb] at hxy
        by_cases hxa : x = a
        · subst hxa
          rw [if_pos rfl, Option.some.injEq] at hxy
          rw [if_pos hxy.symm]
        · rw [if_neg hxa] at hxy
          have hyx := (h.symm x y).mp hxy
          have hyb : y ≠ b := by
            rintro rfl
            exact (hpartner x (Or.inr hyx)).elim hxa hxb
          have hya : y ≠ a := by
            rintro rfl
            exact (hpartner x (Or.inl hyx)).elim hxa hxb
          rw [if_neg hyb, if_neg hya]
          exact hyx
  · have hsame : (netioFifoCrossconnect m a b).2 = m := by
      simp only [netioFifoCrossconnect]
      split
      · rename_i ha hb
        exact absurd ⟨by simp [ha], by simp [hb]⟩ hab
      · rfl
    rw [hsame]
    exact iff_of_true h fun ha hb => absurd ⟨ha, hb⟩ hab

theorem endpointsOk_step {e : Event} (h : EndpointsOk m) (hs : Step m e m') :
    EndpointsOk m' ↔ PartnersFree m e := by
  cases e with
  | create nio isFifo =>
    simp only [Step, step] at hs
    split at hs
    · rename_i hfree
      cases hs
      exact iff_of_true (endpointsOk_create h hfree) trivial
    · cases hs
  | crossconnect a b =>
    cases hs
    exact endpointsOk_crossconnect h
  | delete nio => exact iff_of_true (endpointsOk_delete h hs) trivial
  | send nio pkt granted =>
    refine iff_of_true ?_ trivial
    simp only [Step, step, netioFifoSend] at hs
    split at hs
    · cases hs
      exact h
    · split at hs
      · simp only [Option.map_eq_some_iff] at hs
        obtain ⟨nfd, hn, rfl⟩ := hs
        exact h.congr (endpoint_setPkts hn _)
      · cases hs
        exact h
  | recv nio =>
    refine iff_of_true ?_ trivial
    simp only [Step, step, netioFifoRecv, Option.map_eq_some_iff] at hs
    obtain ⟨nfd, hn, rfl⟩ := hs
    exact h.congr (endpoint_setPkts hn _)

/-- A run keeps the endpoints symmetric and existing exactly if no cross-connection
takes a descriptor away from a partner. -/
theorem endpoints_iff {trace : List (Netios × Event)}
    (hrun : Run Step (fun _ => none) trace m) :
    Always EndpointsOk trace m ↔ AllSteps PartnersFree trace := by
  refine hrun.invariant_iff (fun _ _ _ h hs => endpointsOk_step h hs) (.of_symm fun x y h => ?_)
  cases h

/-- Two descriptors are cross-connected, and one of them is deleted. -/
def pairEvents : List Event := [.create 1 true, .create 2 true, .crossconnect 1 2, .delete 2]

theorem endpoints_pair : ∃ trace m, execute step (fun _ => none) pairEvents = some (trace, m) ∧
    Always EndpointsOk trace m := by
  have hex : execute step (fun _ => none) pairEvents = some (_, _) := rfl
  refine ⟨_, _, hex, (endpoints_iff (run_of_execute hex)).mpr ?_⟩
  simp only [AllSteps, List.forall_mem_cons]
  refine ⟨trivial, trivial, ?_, trivial, by simp⟩
  intro _ _ c hc
  simp [endpoint, fifoOf, newDesc, Function.update] at hc

/-- A descriptor is cross-connected a second time and then deleted, while its
first partner still has it as its endpoint. -/
def relinkEvents : List Event :=
  [.create 1 true, .create 2 true, .create 3 true, .crossconnect 1 2, .crossconnect 2 3, .delete 2]

theorem not_endpointsOk : ¬ ∀ trace m, Run Step (fun _ => none) trace m → EndpointsOk m := by
  intro h
  have hex : execute step (fun _ => none) relinkEvents = some (_, _) := rfl
  obtain ⟨desc, hdesc⟩ := (h _ _ (run_of_execute hex)).exists_endpoint 1 2 rfl
  cases hdesc

end Dynamips.Fifo
