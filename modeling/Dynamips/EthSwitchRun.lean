import Dynamips.EthSwitch
import Dynamips.Lib.Runs

/-! Runs of the switch: the critical sections of its control operations, its
receive callbacks and the other users of the NIOs, in any order. -/
set_option autoImplicit false

namespace Dynamips.Ethsw

open Runs

/-- `recvPkt` is one call of `ethsw_recv_pkt`; `locked` says whether
`ETHSW_TRYLOCK` succeeded. `freeNio` is the end of `ethsw_remove_netio`. -/
inductive Event where
  | addNetio (nioName : String)
  | removeNetio (nioName : String)
  | freeNio (nio : NioPtr)
  | setAccessPort (nioName : String) (vlanId : BitVec 32)
  | setDot1qPort (nioName : String) (nativeVlan : BitVec 32)
  | setQinqPort (nioName : String) (outerVlan : BitVec 32) (ethertype : BitVec 16)
  | clearMacAddrTable
  | recvPkt (nio : NioPtr) (pkt : List Byte) (pktLen : Nat) (locked : Bool)
  | netioCreate (nio : NioPtr) (name : String)
  | netioDelete (name : String)
  | netioAcquire (name : String)
  | netioRelease (name : String)

/-- A listener only calls with the bytes that a receive put in the buffer, and
memory that is in use is not allocated again. -/
def Enabled (s : System) : Event → Prop
  | .freeNio nio => nio ∈ s.removing
  | .recvPkt nio pkt pktLen _ => 0 < s.rxl nio ∧ 0 < pktLen ∧ pktLen ≤ pkt.length
  | .netioCreate nio name => s.registry name = none ∧ ∀ n, s.registry n ≠ some nio
  | .netioDelete name => ∀ nio, s.registry name = some nio → s.refCount nio ≤ 0
  | _ => True

/-- The frames that leave the switch; `none` when the process aborts. -/
def Event.run (s : System) : Event → Option (System × List NetioSend)
  | .addNetio nioName => some ((ethswAddNetio s nioName).1, [])
  | .removeNetio nioName => some ((ethswRemoveNetio s nioName).1, [])
  | .freeNio nio => some (ethswFreeNio s nio, [])
  | .setAccessPort nioName vlanId => some ((ethswSetAccessPort s nioName vlanId).1, [])
  | .setDot1qPort nioName nativeVlan => some ((ethswSetDot1qPort s nioName nativeVlan).1, [])
  | .setQinqPort nioName outerVlan ethertype =>
    some ((ethswSetQinqPort s nioName outerVlan ethertype).1, [])
  | .clearMacAddrTable => some (ethswClearMacAddrTable s, [])
  | .recvPkt nio pkt pktLen locked =>
    if locked then
      (ethswReceive s.netio s.table nio pkt pktLen).map fun r => ({ s with table := r.1 }, r.2)
    else
      some (s, [])
  | .netioCreate nio name => some (Ethsw.netioCreate s nio name, [])
  | .netioDelete name => some (Ethsw.netioDelete s name, [])
  | .netioAcquire name =>
    match Ethsw.netioAcquire s name with
    | none => some (s, [])
    | some (_, s) => some (s, [])
  | .netioRelease name => some (Ethsw.netioRelease s name, [])

def Step (s : System) (e : Event) (s' : System) : Prop :=
  Enabled s e ∧ ∃ out, e.run s = some (s', out)

/-- A frame that the switch takes in: `ethsw_receive` gives it a VLAN. -/
def Accepts (s : System) (nio : NioPtr) (pkt : List Byte) (pktLen : Nat) (v : BitVec 16) : Prop :=
  v ≠ 0 ∧ ∃ tag, ethswInputVlan (s.netio nio) pkt pktLen = some (v, tag)

def Attached (t : EthswTable) (nio : NioPtr) : Prop := ∃ i, t.nio i = some nio

theorem netio_netioAcquire {s s' : System} {name : String} {nio : NioPtr}
    (h : netioAcquire s name = some (nio, s')) : s'.netio = s.netio ∧ s'.table = s.table := by
  unfold netioAcquire at h
  split at h
  · cases h
  · split at h
    · cases h
    · cases h
      exact ⟨rfl, rfl⟩

theorem netio_netioRelease (s : System) (name : String) :
    (netioRelease s name).netio = s.netio ∧ (netioRelease s name).table = s.table := by
  unfold netioRelease
  split
  · exact ⟨rfl, rfl⟩
  · split <;> exact ⟨rfl, rfl⟩

theorem netio_ethswFreeNio (s : System) (nio : NioPtr) :
    (ethswFreeNio s nio).netio = s.netio ∧ (ethswFreeNio s nio).table = s.table :=
  netio_netioRelease _ _

theorem ethswReceive_cases {m : Netios} {t t' : EthswTable} {nio : NioPtr} {pkt : List Byte}
    {pktLen : Nat} {out : List NetioSend}
    (h : ethswReceive m t nio pkt pktLen = some (t', out)) :
    (t' = t ∧ out = [] ∧ ∀ v tag, ethswInputVlan (m nio) pkt pktLen = some (v, tag) → v = 0) ∨
    ∃ v tag, v ≠ 0 ∧ ethswInputVlan (m nio) pkt pktLen = some (v, tag) ∧
      t' = ethswLearn t ⟨pkt, pktLen, nio, v, tag⟩ ∧
      ethswForwardTo m t' ⟨pkt, pktLen, nio, v, tag⟩ = some out := by
  cases hv : ethswInputVlan (m nio) pkt pktLen with
  | none =>
    simp only [ethswReceive, hv, Option.some.injEq, Prod.mk.injEq] at h
    exact Or.inl ⟨h.1.symm, h.2.symm, by simp⟩
  | some accepted =>
    obtain ⟨v, tag⟩ := accepted
    by_cases h0 : v = 0
    · simp only [ethswReceive, hv, h0, ne_eq, not_true_eq_false, if_false, Option.some.injEq,
        Prod.mk.injEq] at h
      refine Or.inl ⟨h.1.symm, h.2.symm, ?_⟩
      intro w tag' hw
      simp only [Option.some.injEq, Prod.mk.injEq] at hw
      exact hw.1 ▸ h0
    · simp only [ethswReceive, hv, ne_eq, h0, not_false_eq_true, if_true, ethswForward,
        Option.map_eq_some_iff, Prod.mk.injEq] at h
      obtain ⟨out', hout, rfl, rfl⟩ := h
      exact Or.inr ⟨v, tag, h0, rfl, rfl, hout⟩

theorem port_of_ivAccess {m : Netios} {sp : EthswPacket} {op : NioPtr} {x : NetioSend}
    (h : x ∈ ethswIvAccess m sp op) : x.port = op := by
  unfold ethswIvAccess at h
  split at h
  · rw [List.mem_singleton.mp h]
  · split at h <;> rw [List.mem_singleton.mp h]
  · cases h

theorem port_of_ivDot1q {m : Netios} {sp : EthswPacket} {op : NioPtr} {x : NetioSend}
    (h : x ∈ ethswIvDot1q m sp op) : x.port = op := by
  unfold ethswIvDot1q at h
  split at h
  · exact port_of_ivAccess h
  · split at h
    · rw [List.mem_singleton.mp h]
    · split at h <;> rw [List.mem_singleton.mp h]
    · split at h
      · rw [List.mem_singleton.mp h]
      · cases h
    · cases h

theorem port_of_ivQinq {m : Netios} {sp : EthswPacket} {op : NioPtr} {x : NetioSend}
    (h : x ∈ ethswIvQinq m sp op) : x.port = op := by
  unfold ethswIvQinq at h
  split at h
  · rw [List.mem_singleton.mp h]
  · split at h
    · rw [List.mem_singleton.mp h]
    · cases h
  · cases h

theorem port_of_run {iv : InputVector} {m : Netios} {sp : EthswPacket} {op : NioPtr}
    {x : NetioSend} (h : x ∈ iv.run m sp op) : x.port = op := by
  cases iv with
  | access => exact port_of_ivAccess h
  | dot1q => exact port_of_ivDot1q h
  | qinq => exact port_of_ivQinq h

theorem port_of_flood {m : Netios} {t : EthswTable} {sp : EthswPacket} {out : List NetioSend}
    {x : NetioSend} (h : ethswFlood m t sp = some out) (hx : x ∈ out) :
    Attached t x.port ∧ ((m x.port).vlanPortType = .access → (m x.port).vlanId = sp.inputVlan) := by
  unfold ethswFlood at h
  split at h
  · cases h
  · rename_i iv hiv
    cases h
    obtain ⟨i, -, hi⟩ := List.mem_flatMap.mp hx
    cases hnio : t.nio i with
    | none => simp [hnio, ethswFloodPort] at hi
    | some op =>
      simp only [hnio, ethswFloodPort] at hi
      split at hi
      · cases hi
      · split at hi
        · cases hi
        · rename_i hvlan
          have hport := port_of_run hi
          rw [hport]
          exact ⟨⟨i, hnio⟩, fun ha => by_contra fun hn => hvlan ⟨ha, hn⟩⟩

theorem forwardTo_cases {m : Netios} {t : EthswTable} {sp : EthswPacket} {out : List NetioSend}
    (h : ethswForwardTo m t sp = some out) :
    ethswFlood m t sp = some out ∨
    ∃ i, (t.macAddrTable i).vlanId = sp.inputVlan ∧
      ∀ x ∈ out, (t.macAddrTable i).nio = some x.port := by
  simp only [ethswForwardTo] at h
  split at h
  · exact Or.inl h
  · split at h
    · exact Or.inl h
    · rename_i hmatch
      refine Or.inr ⟨ethswHashIndex sp.daddr sp.inputVlan, ?_, ?_⟩
      · exact by_contra fun hn => hmatch (Or.inr hn)
      · split at h
        · split at h
          · rename_i iv op _ hnio
            cases h
            intro x hx
            rw [hnio, port_of_run hx]
          · cases h
        · cases h
          simp

theorem exists_vector {d : NetioDesc} {pkt : List Byte} {pktLen : Nat} {v : BitVec 16 × Bool}
    (h : ethswInputVlan d pkt pktLen = some v) : ∃ iv, d.vlanInputVector = some iv := by
  rw [d.vector_eq]
  cases ht : d.vlanPortType with
  | unset => simp [ethswInputVlan, ht] at h
  | isl => exact absurd ht d.not_isl
  | access => exact ⟨.access, rfl⟩
  | dot1q => exact ⟨.dot1q, rfl⟩
  | qinq => exact ⟨.qinq, rfl⟩

theorem ethswForwardTo_total {m : Netios} {sp : EthswPacket} {iv : InputVector}
    (hiv : (m sp.inputPort).vlanInputVector = some iv) (h0 : sp.inputVlan ≠ 0) (t : EthswTable) :
    ∃ out, ethswForwardTo m t sp = some out := by
  have hflood : ∃ out, ethswFlood m t sp = some out := by
    simp only [ethswFlood, hiv]
    exact ⟨_, rfl⟩
  simp only [ethswForwardTo]
  split
  · exact hflood
  · split
    · exact hflood
    · rename_i hmatch
      have hvlan : (t.macAddrTable (ethswHashIndex sp.daddr sp.inputVlan)).vlanId = sp.inputVlan :=
        by_contra fun hn => hmatch (Or.inr hn)
      split
      · obtain ⟨op, hop⟩ := Option.ne_none_iff_exists'.mp
          ((t.macAddrTable _).live (hvlan ▸ h0))
        simp only [hiv, hop]
        exact ⟨_, rfl⟩
      · exact ⟨[], rfl⟩

theorem ethswReceive_total (m : Netios) (t : EthswTable) (nio : NioPtr) (pkt : List Byte)
    (pktLen : Nat) : ∃ r, ethswReceive m t nio pkt pktLen = some r := by
  cases hv : ethswInputVlan (m nio) pkt pktLen with
  | none => exact ⟨(t, []), by simp only [ethswReceive, hv]⟩
  | some accepted =>
    obtain ⟨v, tag⟩ := accepted
    by_cases h0 : v = 0
    · exact ⟨(t, []), by simp [ethswReceive, hv, h0]⟩
    · obtain ⟨iv, hiv⟩ := exists_vector hv
      obtain ⟨out, hout⟩ := @ethswForwardTo_total m ⟨pkt, pktLen, nio, v, tag⟩ _ hiv h0
        (ethswLearn t ⟨pkt, pktLen, nio, v, tag⟩)
      simp only [ethswReceive, hv, ne_eq, h0, not_false_eq_true, if_true, ethswForward, hout,
        Option.map_some]
      exact ⟨_, rfl⟩

theorem exists_step {s : System} {e : Event} (h : Enabled s e) : ∃ s', Step s e s' := by
  have hrun : ∃ r, e.run s = some r := by
    cases e with
    | recvPkt nio pkt pktLen locked =>
      cases locked with
      | false => exact ⟨_, rfl⟩
      | true =>
        obtain ⟨r, hr⟩ := ethswReceive_total s.netio s.table nio pkt pktLen
        simp only [Event.run, hr, if_true, Option.map_some]
        exact ⟨_, rfl⟩
    | netioAcquire name =>
      simp only [Event.run]
      split <;> exact ⟨_, rfl⟩
    | _ => exact ⟨_, rfl⟩
  obtain ⟨⟨s', out⟩, hr⟩ := hrun
  exact ⟨s', h, out, hr⟩

theorem run_recvPkt {s s' : System} {nio : NioPtr} {pkt : List Byte} {pktLen : Nat}
    {out : List NetioSend} : Event.run s (.recvPkt nio pkt pktLen true) = some (s', out) ↔
      ∃ t', ethswReceive s.netio s.table nio pkt pktLen = some (t', out) ∧
        { s with table := t' } = s' := by
  simp only [Event.run, if_true, Option.map_eq_some_iff, Prod.exists, Prod.mk.injEq]
  constructor
  · intro ⟨t', out', hr, hs, hout⟩
    exact ⟨t', hout ▸ hr, hs⟩
  · intro ⟨t', hr, hs⟩
    exact ⟨t', out, hr, hs, rfl⟩

theorem run_netioAcquire {s s' : System} {name : String} {out : List NetioSend}
    (h : Event.run s (.netioAcquire name) = some (s', out)) :
    s'.netio = s.netio ∧ s'.table = s.table ∧ out = [] := by
  simp only [Event.run] at h
  split at h
  · cases h
    exact ⟨rfl, rfl, rfl⟩
  · rename_i hacq
    cases h
    obtain ⟨hn, ht⟩ := netio_netioAcquire hacq
    exact ⟨hn, ht, rfl⟩

theorem recvPkt_of_sends {s s' : System} {e : Event} {out : List NetioSend} {x : NetioSend}
    (h : e.run s = some (s', out)) (hx : x ∈ out) :
    ∃ nio pkt pktLen t', e = .recvPkt nio pkt pktLen true ∧
      ethswReceive s.netio s.table nio pkt pktLen = some (t', out) := by
  cases e with
  | recvPkt nio pkt pktLen locked =>
    cases locked with
    | false =>
      cases h
      cases hx
    | true =>
      obtain ⟨t', hr, -⟩ := run_recvPkt.mp h
      exact ⟨nio, pkt, pktLen, t', rfl, hr⟩
  | netioAcquire name =>
    rw [(run_netioAcquire h).2.2] at hx
    cases hx
  | _ =>
    cases h
    cases hx

end Dynamips.Ethsw
