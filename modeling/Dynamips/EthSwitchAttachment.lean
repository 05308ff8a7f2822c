import Dynamips.EthSwitchIsolation

/-! What the MAC address table refers to. `ethsw_remove_netio` clears the slot
and the entries of a NIO under the lock, but its listener still calls until
`ethsw_free_nio` removes it. -/
set_option autoImplicit false

namespace Dynamips.Ethsw

open Runs

/-- Every entry with a VLAN refers to a NIO in a slot of the switch. -/
def MacAttached (t : EthswTable) : Prop :=
  ∀ i, (t.macAddrTable i).vlanId ≠ 0 →
    ∃ nio, (t.macAddrTable i).nio = some nio ∧ Attached t nio

/-- A frame that the switch takes in comes from a NIO in one of its slots. -/
def ReceivesAttached (s : System) (e : Event) : Prop :=
  ∀ nio pkt pktLen v, e = .recvPkt nio pkt pktLen true → Accepts s nio pkt pktLen v →
    Attached s.table nio

def SendsAttached (s : System) (e : Event) : Prop :=
  ∀ s' out x, e.run s = some (s', out) → x ∈ out → Attached s.table x.port

theorem macAttached_mono {t t' : EthswTable} (h : MacAttached t)
    (hmac : t'.macAddrTable = t.macAddrTable)
    (hslots : ∀ nio, Attached t nio → Attached t' nio) : MacAttached t' := by
  intro i hi
  rw [hmac] at hi ⊢
  obtain ⟨nio, hnio, hat⟩ := h i hi
  exact ⟨nio, hnio, hslots nio hat⟩

theorem findSlot_some {t : EthswTable} {p : Option NioPtr → Bool} {i : Fin ETHSW_MAX_NIO}
    (h : findSlot t p = some i) : p (t.nio i) = true :=
  @List.find?_some _ (fun i => p (t.nio i)) _ _ h

theorem attached_update {t : EthswTable} {i : Fin ETHSW_MAX_NIO} {nio : NioPtr}
    {m : BitVec 12 → EthswMacEntry} (o : Option NioPtr) (h : Attached t nio)
    (hi : t.nio i ≠ some nio) : Attached ⟨Function.update t.nio i o, m⟩ nio := by
  obtain ⟨j, hj⟩ := h
  have hne : j ≠ i := fun hji => hi (hji ▸ hj)
  exact ⟨j, (Function.update_of_ne hne o t.nio).trans hj⟩

theorem macAttached_addNetio {s : System} {nioName : String} (h : MacAttached s.table) :
    MacAttached (ethswAddNetio s nioName).1.table := by
  unfold ethswAddNetio
  split
  · exact h
  · rename_i i hslot
    have hfree : s.table.nio i = none := Option.isNone_iff_eq_none.mp (findSlot_some hslot)
    split
    · exact h
    · rename_i nio s' hacq
      have ht := (netio_netioAcquire hacq).2
      have hadd : ∀ n, Attached s'.table n →
          Attached ⟨Function.update s'.table.nio i (some nio), s'.table.macAddrTable⟩ n := by
        intro n hn
        exact attached_update _ hn (by simp [ht, hfree])
      rw [← ht] at h
      exact macAttached_mono h rfl hadd

theorem macAttached_removeNetio {s : System} {nioName : String} (h : MacAttached s.table) :
    MacAttached (ethswRemoveNetio s nioName).1.table := by
  unfold ethswRemoveNetio
  split
  · exact h
  · rename_i nio _
    split
    · exact h
    · rename_i i hslot
      have hnio : s.table.nio i = some nio := of_decide_eq_true (findSlot_some hslot)
      intro j hj
      simp only [System.setSlot, ethswInvalidatePort] at hj ⊢
      split at hj
      · exact absurd rfl hj
      · rename_i hne
        rw [if_neg hne]
        obtain ⟨n, hn, hat⟩ := h j hj
        have hother : s.table.nio i ≠ some n := by
          rw [hnio, ← hn]
          exact fun heq => hne heq.symm
        exact ⟨n, hn, attached_update none hat hother⟩

theorem table_setPort (s : System) (nioName : String) (set : NetioDesc → NetioDesc) :
    (setPort s nioName set).1.table = s.table := by
  unfold setPort
  split <;> rfl

theorem macAttached_control {s s' : System} {e : Event} (h : MacAttached s.table)
    (hstep : Step s e s') (he : ∀ nio pkt pktLen, e ≠ .recvPkt nio pkt pktLen true) :
    MacAttached s'.table := by
  obtain ⟨-, out, hrun⟩ := hstep
  cases e with
  | addNetio nioName =>
    cases hrun
    exact macAttached_addNetio h
  | removeNetio nioName =>
    cases hrun
    exact macAttached_removeNetio h
  | freeNio nio =>
    cases hrun
    rw [(netio_ethswFreeNio s nio).2]
    exact h
  | setAccessPort nioName vlanId =>
    cases hrun
    rw [ethswSetAccessPort, table_setPort]
    exact h
  | setDot1qPort nioName nativeVlan =>
    cases hrun
    rw [ethswSetDot1qPort, table_setPort]
    exact h
  | setQinqPort nioName outerVlan ethertype =>
    cases hrun
    unfold ethswSetQinqPort
    split
    · rw [table_setPort]
      exact h
    · exact h
  | clearMacAddrTable =>
    cases hrun
    exact fun i hi => absurd rfl hi
  | recvPkt nio pkt pktLen locked =>
    cases locked with
    | false =>
      cases hrun
      exact h
    | true => exact absurd rfl (he nio pkt pktLen)
  | netioCreate nio name =>
    cases hrun
    exact h
  | netioDelete name =>
    cases hrun
    exact h
  | netioAcquire name =>
    rw [(run_netioAcquire hrun).2.1]
    exact h
  | netioRelease name =>
    cases hrun
    rw [(netio_netioRelease s name).2]
    exact h

theorem macAttached_learn {t : EthswTable} {sp : EthswPacket} (h : MacAttached t)
    (h0 : sp.inputVlan ≠ 0) : MacAttached (ethswLearn t sp) ↔ Attached t sp.inputPort := by
  constructor
  · intro hlearn
    obtain ⟨nio, hnio, hat⟩ := hlearn (ethswHashIndex sp.saddr sp.inputVlan)
      (by simpa [ethswLearn] using h0)
    have hport : sp.inputPort = nio := by simpa [ethswLearn] using hnio
    exact hport ▸ hat
  · intro hat i hi
    by_cases hslot : i = ethswHashIndex sp.saddr sp.inputVlan
    · exact ⟨sp.inputPort, by simp [ethswLearn, hslot], hat⟩
    · simp only [ethswLearn, Function.update_of_ne hslot] at hi ⊢
      exact h i hi

theorem macAttached_receive {m : Netios} {t t' : EthswTable} {nio : NioPtr} {pkt : List Byte}
    {pktLen : Nat} {out : List NetioSend} (h : MacAttached t)
    (hr : ethswReceive m t nio pkt pktLen = some (t', out)) :
    MacAttached t' ↔
      ∀ v tag, v ≠ 0 → ethswInputVlan (m nio) pkt pktLen = some (v, tag) → Attached t nio := by
  rcases ethswReceive_cases hr with ⟨rfl, -, hnone⟩ | ⟨v, tag, h0, hv, rfl, -⟩
  · exact ⟨fun _ v tag h0 hv => absurd (hnone v tag hv) h0, fun _ => h⟩
  · rw [macAttached_learn h h0]
    exact ⟨fun hat _ _ _ _ => hat, fun hall => hall v tag h0 hv⟩

theorem macAttached_step {s s' : System} {e : Event} (h : MacAttached s.table)
    (hstep : Step s e s') : MacAttached s'.table ↔ ReceivesAttached s e := by
  by_cases he : ∀ nio pkt pktLen, e ≠ .recvPkt nio pkt pktLen true
  · have hcontrol := macAttached_control h hstep he
    exact ⟨fun _ nio pkt pktLen _ hrecv _ => absurd hrecv (he nio pkt pktLen), fun _ => hcontrol⟩
  · push Not at he
    obtain ⟨nio, pkt, pktLen, rfl⟩ := he
    obtain ⟨-, out, hrun⟩ := hstep
    obtain ⟨t', hr, rfl⟩ := run_recvPkt.mp hrun
    rw [macAttached_receive h hr]
    constructor
    · intro hall _ _ _ v heq hacc
      cases heq
      obtain ⟨h0, tag, hv⟩ := hacc
      exact hall v tag h0 hv
    · intro hrecv v tag h0 hv
      exact hrecv nio pkt pktLen v rfl ⟨h0, tag, hv⟩

theorem receive_sends_attached {m : Netios} {t t' : EthswTable} {nio : NioPtr} {pkt : List Byte}
    {pktLen : Nat} {out : List NetioSend} {x : NetioSend} (ht' : MacAttached t')
    (hr : ethswReceive m t nio pkt pktLen = some (t', out)) (hx : x ∈ out) :
    Attached t x.port := by
  rcases ethswReceive_cases hr with ⟨-, rfl, -⟩ | ⟨v, tag, h0, -, rfl, hout⟩
  · cases hx
  · rcases forwardTo_cases hout with hflood | ⟨i, hi, hport⟩
    · exact (port_of_flood hflood hx).1
    · obtain ⟨n, hn, hat⟩ := ht' i (by rw [hi]; exact h0)
      rw [hport x hx, Option.some.injEq] at hn
      rw [hn]
      exact hat

theorem sends_attached {s : System} {e : Event} (h : MacAttached s.table)
    (hrecv : ReceivesAttached s e) : SendsAttached s e := by
  intro s' out x hrun hx
  obtain ⟨nio, pkt, pktLen, t', rfl, hr⟩ := recvPkt_of_sends hrun hx
  have ht' := (macAttached_receive h hr).mpr fun v tag h0 hv =>
    hrecv nio pkt pktLen v rfl ⟨h0, tag, hv⟩
  exact receive_sends_attached ht' hr hx

theorem mac_entries_attached_iff (netio : Netios) (registry : String → Option NioPtr)
    (refCount : NioPtr → Int) {trace : List (System × Event)} {s : System}
    (hrun : Run Step (ethswCreate netio registry refCount) trace s) :
    Always (fun s => MacAttached s.table) trace s ∧ AllSteps SendsAttached trace ↔
      AllSteps ReceivesAttached trace := by
  have hcreate : MacAttached (ethswCreate netio registry refCount).table :=
    fun i hi => absurd rfl hi
  have hiff := hrun.invariant_iff (P := fun s => MacAttached s.table)
    (fun s e s' h hs => macAttached_step h hs) hcreate
  constructor
  · intro h
    exact hiff.mp h.1
  · intro h
    have halways := hiff.mpr h
    exact ⟨halways, fun x hx => sends_attached (halways.2 x hx) (h x hx)⟩

theorem mac_entries_attached_two_ports : AllSteps SendsAttached
    [(noPorts, Event.addNetio "nio1"), (onePort, Event.addNetio "nio2"),
      (twoPorts, Event.recvPkt 2 (frameTo 9 7) 14 true)] := by
  have hrecv : Step twoPorts (.recvPkt 2 (frameTo 9 7) 14 true) learned :=
    ⟨enabled_recv (by decide) rfl, _, rfl⟩
  refine ((mac_entries_attached_iff twoNios twoNames (fun _ => 1)
    (Run.next run_twoPorts hrecv)).mpr ?_).2
  intro x hx nio pkt pktLen v he
  rcases hx with _ | ⟨_, _ | ⟨_, _ | ⟨_, hx⟩⟩⟩
  · cases he
  · cases he
  · cases he
    exact fun _ => ⟨⟨1, by decide⟩, rfl⟩
  · cases hx

/-- The second port is out of its slot and its listener still runs. -/
def halfRemoved : System := (ethswRemoveNetio twoPorts "nio2").1

def relearned : System :=
  { halfRemoved with table := ethswLearn halfRemoved.table ⟨frameTo 9 7, 14, 2, 1, false⟩ }

theorem not_attached_relearned : ¬ MacAttached relearned.table := by
  intro h
  have hempty : MacAttached halfRemoved.table := macAttached_removeNetio
    (macAttached_addNetio (macAttached_addNetio fun i hi => absurd rfl hi))
  have hlearn := (macAttached_learn hempty (by decide)).mp h
  obtain ⟨i, hi⟩ := hlearn
  revert hi
  revert i
  decide

/-- A frame that is received while its port is being removed is learned. -/
theorem not_mac_entries_attached : ¬ ∀ netio registry refCount trace s,
    Run Step (ethswCreate netio registry refCount) trace s →
      Always (fun s => MacAttached s.table) trace s := by
  intro h
  have hremove : Step twoPorts (.removeNetio "nio2") halfRemoved := ⟨trivial, [], rfl⟩
  have hrecv : Step halfRemoved (.recvPkt 2 (frameTo 9 7) 14 true) relearned :=
    ⟨enabled_recv (by decide) rfl, _, rfl⟩
  have hall := h twoNios twoNames (fun _ => 1) _ relearned
    (Run.next (Run.next run_twoPorts hremove) hrecv)
  exact not_attached_relearned hall.1

end Dynamips.Ethsw
