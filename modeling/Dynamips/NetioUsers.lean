import Dynamips.NetioRxl

/-! What the switches and the bridge do to the NIOs: the references of the
registry and the receive listeners. -/
set_option autoImplicit false

namespace Dynamips.Nio
open Rxl

def intMax : BitVec 32 := 0x7fffffff

def intMin : BitVec 32 := 0x80000000

structure NioEntry where
  nio : NioPtr
  refCount : BitVec 32

/-- The registered NIOs and the receive listeners. An NIO is registered under its
own name; `udp` tells the types that have their listeners in net_io_udp.cpp. -/
@[ext] structure Nios where
  entries : String → Option NioEntry
  name : NioPtr → String
  udp : NioPtr → Bool
  rxlList : List NetioRxListener
  name_entry : ∀ n e, entries n = some e → name e.nio = n

theorem name_setEntry {n : Nios} {key : String} {e : NioEntry} (h : n.entries key = some e)
    (refCount : BitVec 32) (k : String) (e' : NioEntry)
    (he : Function.update n.entries key (some { e with refCount := refCount }) k = some e') :
    n.name e'.nio = k := by
  by_cases hk : k = key
  · subst hk
    rw [Function.update_self] at he
    cases he
    exact n.name_entry k e h
  · rw [Function.update_of_ne hk] at he
    exact n.name_entry k e' he

def Nios.setRefCount (n : Nios) {key : String} {e : NioEntry} (h : n.entries key = some e)
    (refCount : BitVec 32) : Nios :=
  { n with
    entries := Function.update n.entries key (some { e with refCount := refCount })
    name_entry := name_setEntry h refCount }

/-- `netio_acquire`, which the registry refuses when the count is at its limit. -/
def netioAcquire (n : Nios) (name : String) : Option NioPtr × Nios :=
  match h : n.entries name with
  | none => (none, n)
  | some e =>
    if e.refCount = intMax then (none, n) else (some e.nio, n.setRefCount h (e.refCount + 1))

/-- `netio_release`, of an NIO given by its descriptor. -/
def netioRelease (n : Nios) (nio : NioPtr) : Nios :=
  match h : n.entries (n.name nio) with
  | none => n
  | some e => if e.refCount = intMin then n else n.setRefCount h (e.refCount - 1)

/-- `registry_exists` for an NIO. -/
def registryExists (n : Nios) (name : String) : Option NioPtr := (n.entries name).map NioEntry.nio

/-- `netio_rxl_add`, once the listener thread has taken the request. `granted`
tells whether the listener could be created or armed; the counter of a UDP
listener does not wrap. -/
def netioRxlAdd (n : Nios) (nio : NioPtr) (granted : Bool) : Int × Nios :=
  if ¬ granted then
    (-1, n)
  else if n.udp nio ∧ refCountOf n.rxlList nio = 2 ^ 32 - 1 then
    (-1, n)
  else
    (0, { n with rxlList := netioRxlAddInternal n.rxlList { nio := nio, refCount := 1 } })

/-- `netio_rxl_remove`, once the listener thread has taken the request. -/
def netioRxlRemove (n : Nios) (nio : NioPtr) : Nios :=
  { n with rxlList := (netioRxlRemoveInternal nio n.rxlList).2 }

/-- What the switches do with the NIOs of a connection, whether or not it was ever
a listener of its input. -/
def releaseConn (n : Nios) (input output : Option NioPtr) : Nios :=
  let n := match input with
    | some nio => netioRelease (netioRxlRemove n nio) nio
    | none => n
  match output with
  | some nio => netioRelease n nio
  | none => n

variable {n : Nios} {nio : NioPtr}

@[simp] theorem entries_setRefCount {key : String} {e : NioEntry} (h : n.entries key = some e)
    (refCount : BitVec 32) (k : String) : (n.setRefCount h refCount).entries k =
      if k = key then some { e with refCount := refCount } else n.entries k :=
  Function.update_apply _ _ _ _

theorem netioAcquire_some {name : String} {n' : Nios} (h : netioAcquire n name = (some nio, n')) :
    registryExists n name = some nio ∧ ∀ k, registryExists n' k = registryExists n k := by
  unfold netioAcquire at h
  split at h
  · cases h
  · rename_i e he
    split at h
    · cases h
    · cases h
      refine ⟨by simp [registryExists, he], fun k => ?_⟩
      by_cases hk : k = name
      · simp [registryExists, hk, he]
      · simp [registryExists, hk]

theorem entries_release (n : Nios) (nio : NioPtr) (k : String) : (netioRelease n nio).entries k =
    if k = n.name nio then (n.entries k).map fun e =>
      if e.refCount = intMin then e else { e with refCount := e.refCount - 1 }
    else n.entries k := by
  unfold netioRelease
  split
  · rename_i hnone
    by_cases hk : k = n.name nio
    · subst hk
      simp [hnone]
    · rw [if_neg hk]
  · rename_i e he
    split
    · rename_i hmin
      by_cases hk : k = n.name nio
      · subst hk
        simp [he, hmin]
      · rw [if_neg hk]
    · rename_i hmin
      rw [entries_setRefCount]
      by_cases hk : k = n.name nio
      · subst hk
        simp [he, hmin]
      · rw [if_neg hk, if_neg hk]

theorem release_others (n : Nios) (nio : NioPtr) : (netioRelease n nio).name = n.name ∧
    (netioRelease n nio).udp = n.udp ∧ (netioRelease n nio).rxlList = n.rxlList := by
  unfold netioRelease
  split
  · exact ⟨rfl, rfl, rfl⟩
  · split <;> exact ⟨rfl, rfl, rfl⟩

theorem release_comm (n : Nios) (a b : NioPtr) :
    netioRelease (netioRelease n a) b = netioRelease (netioRelease n b) a := by
  obtain ⟨hna, hua, hra⟩ := release_others n a
  obtain ⟨hnb, hub, hrb⟩ := release_others n b
  obtain ⟨hnab, huab, hrab⟩ := release_others (netioRelease n a) b
  obtain ⟨hnba, huba, hrba⟩ := release_others (netioRelease n b) a
  ext1
  · funext k
    rw [entries_release, entries_release, entries_release, entries_release, hna, hnb]
    by_cases ha : k = n.name a
    · by_cases hb : k = n.name b
      · simp only [if_pos ha, if_pos hb]
      · simp only [if_pos ha, if_neg hb]
    · by_cases hb : k = n.name b
      · simp only [if_neg ha, if_pos hb]
      · simp only [if_neg ha, if_neg hb]
  · rw [hnab, hnba, hna, hnb]
  · rw [huab, huba, hua, hub]
  · rw [hrab, hrba, hra, hrb]

theorem release_rxlRemove (n : Nios) (a b : NioPtr) :
    netioRelease (netioRxlRemove n a) b = netioRxlRemove (netioRelease n b) a := by
  obtain ⟨hname, hudp, hrxl⟩ := release_others n b
  obtain ⟨hname', hudp', hrxl'⟩ := release_others (netioRxlRemove n a) b
  ext1
  · funext k
    rw [entries_release, netioRxlRemove, netioRxlRemove, entries_release]
  · exact hname'.trans hname.symm
  · exact hudp'.trans hudp.symm
  · rw [hrxl', netioRxlRemove, netioRxlRemove, hrxl]

theorem acquire_none {name : String} {n' : Nios} (h : netioAcquire n name = (none, n')) :
    n' = n := by
  unfold netioAcquire at h
  split at h
  · cases h
    rfl
  · split at h
    · cases h
      rfl
    · cases h

theorem acquire_some {name : String} {n' : Nios} (h : netioAcquire n name = (some nio, n')) :
    n' ≠ n ∧ netioRelease n' nio = n := by
  unfold netioAcquire at h
  split at h
  · cases h
  · rename_i e he
    split at h
    · cases h
    · rename_i hmax
      cases h
      have hname := n.name_entry name e he
      have hmin : e.refCount + 1 ≠ intMin := by
        intro hmin
        apply hmax
        rw [← BitVec.add_sub_cancel e.refCount 1, hmin]
        rfl
      have hname' : (n.setRefCount he (e.refCount + 1)).name e.nio = name := hname
      obtain ⟨hn, hu, hr⟩ := release_others (n.setRefCount he (e.refCount + 1)) e.nio
      refine ⟨fun heq => ?_, ?_⟩
      · have hentry := congrArg (fun n => n.entries name) heq
        simp only [entries_setRefCount, if_true, he, Option.some.injEq] at hentry
        have hcount := congrArg NioEntry.refCount hentry
        simp at hcount
      · ext1
        · funext k
          rw [entries_release, entries_setRefCount, hname']
          by_cases hk : k = name
          · subst hk
            simp only [he, if_true, Option.map_some, if_neg hmin, BitVec.add_sub_cancel]
          · rw [if_neg hk, if_neg hk]
        · exact hn
        · exact hu
        · exact hr

theorem rxlRemove_list_eq (nio : NioPtr) (l : List NetioRxListener) :
    (netioRxlRemoveInternal nio l).2 = l ↔ netioRxlFind l nio = none := by
  induction l with
  | nil => simp [netioRxlRemoveInternal, netioRxlFind]
  | cons rxl l ih =>
    rw [netioRxlRemoveInternal, find_cons]
    by_cases hrxl : rxl.nio = nio
    · simp only [if_pos hrxl, reduceCtorEq, iff_false]
      split
      · intro heq
        exact absurd (congrArg List.length heq) (by simp)
      · intro heq
        have hcount := congrArg NetioRxListener.refCount (List.cons.inj heq).1
        simp only at hcount
        bv_omega
    · simp only [if_neg hrxl, List.cons.injEq, true_and]
      exact ih

theorem rxlRemove_eq : netioRxlRemove n nio = n ↔ netioRxlFind n.rxlList nio = none := by
  rw [← rxlRemove_list_eq]
  constructor
  · intro heq
    exact congrArg Nios.rxlList heq
  · intro heq
    rw [netioRxlRemove, heq]

/-- What is left where two NIOs are acquired and a connection is not made. -/
def afterCleanup (n : Nios) (nioInput : String) : Nios :=
  match (netioAcquire n nioInput).1 with
  | some i => netioRxlRemove n i
  | none => n

theorem releaseConn_acquired {a b : String} {input output : Option NioPtr} {n₁ n₂ : Nios}
    (h₁ : netioAcquire n a = (input, n₁)) (h₂ : netioAcquire n₁ b = (output, n₂)) :
    releaseConn n₂ input output = afterCleanup n a := by
  rw [afterCleanup, h₁]
  cases input with
  | none =>
    obtain rfl := acquire_none h₁
    cases output with
    | none => exact acquire_none h₂
    | some o => exact (acquire_some h₂).2
  | some i =>
    cases output with
    | none =>
      obtain rfl := acquire_none h₂
      simp only [releaseConn]
      rw [release_rxlRemove, (acquire_some h₁).2]
    | some o =>
      simp only [releaseConn]
      rw [release_comm, release_rxlRemove, (acquire_some h₂).2, release_rxlRemove,
        (acquire_some h₁).2]

theorem rxlAdd_failed {granted : Bool} {n' : Nios} (h : netioRxlAdd n nio granted = (-1, n')) :
    n' = n := by
  unfold netioRxlAdd at h
  split at h
  · cases h
    rfl
  · split at h
    · cases h
      rfl
    · cases h

def twoNios : Nios where
  entries n :=
    if n = "A" then some { nio := 0, refCount := 0 }
    else if n = "B" then some { nio := 1, refCount := 0 } else none
  name nio := if nio = 0 then "A" else "B"
  udp _ := false
  rxlList := []
  name_entry n e h := by
    split at h
    · rename_i hn
      cases h
      simp [hn]
    · split at h
      · rename_i hn
        cases h
        simp [hn]
      · cases h

end Dynamips.Nio
