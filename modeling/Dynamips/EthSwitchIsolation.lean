import Dynamips.EthSwitchRun

/-! VLAN isolation. The flood path checks each port. The unicast path trusts the
MAC address table, so isolation rests on what the entries say of their ports. -/
set_option autoImplicit false

namespace Dynamips.Ethsw

open Runs

/-- Every entry of the MAC address table for `nio` has VLAN `w`. -/
def LearnedAs (t : EthswTable) (nio : NioPtr) (w : BitVec 16) : Prop :=
  ∀ i, (t.macAddrTable i).nio = some nio → (t.macAddrTable i).vlanId ≠ 0 →
    (t.macAddrTable i).vlanId = w

def MacVlans (m : Netios) (t : EthswTable) : Prop :=
  ∀ nio, (m nio).vlanPortType = .access → LearnedAs t nio (m nio).vlanId

def accessTarget (s : System) : Event → Option (NioPtr × BitVec 16)
  | .addNetio nioName =>
    if (findSlot s.table (·.isNone)).isSome then (s.registry nioName).map fun nio => (nio, 1)
    else none
  | .setAccessPort nioName vlanId =>
    (portNamed s nioName).map fun nio => (nio, vlanId.setWidth 16)
  | _ => none

/-- A NIO that becomes an access port of VLAN `w` has only been learned in `w`. -/
def AccessVlanKept (s : System) (e : Event) : Prop :=
  ∀ nio w, accessTarget s e = some (nio, w) → LearnedAs s.table nio w

/-- Whatever leaves on an access port was received in the VLAN of that port. -/
def VlanIsolated (s : System) (e : Event) : Prop :=
  ∀ s' out x, e.run s = some (s', out) → x ∈ out →
    (s.netio x.port).vlanPortType = .access →
      ∃ nio pkt pktLen locked, e = .recvPkt nio pkt pktLen locked ∧
        Accepts s nio pkt pktLen (s.netio x.port).vlanId

variable {m : Netios} {t : EthswTable}

theorem macVlans_update {nio : NioPtr} {d : NetioDesc} (h : MacVlans m t)
    (hd : d.vlanPortType = .access → LearnedAs t nio d.vlanId) :
    MacVlans (Function.update m nio d) t := by
  intro n hn
  by_cases hnio : n = nio
  · subst hnio
    rw [Function.update_self] at hn ⊢
    exact hd hn
  · rw [Function.update_of_ne hnio] at hn ⊢
    exact h n hn

theorem learnedAs_invalidatePort {nio n : NioPtr} {w : BitVec 16} (h : LearnedAs t n w) :
    LearnedAs (ethswInvalidatePort t nio) n w := by
  intro i hi h0
  simp only [ethswInvalidatePort] at hi h0 ⊢
  split at hi
  · cases hi
  · rename_i hne
    rw [if_neg hne] at h0 ⊢
    exact h i hi h0

theorem macVlans_learn {sp : EthswPacket} (h : MacVlans m t)
    (hsp : (m sp.inputPort).vlanPortType = .access → (m sp.inputPort).vlanId = sp.inputVlan) :
    MacVlans m (ethswLearn t sp) := by
  intro n hn i hi h0
  by_cases hslot : i = ethswHashIndex sp.saddr sp.inputVlan
  · simp only [ethswLearn, hslot, Function.update_self, Option.some.injEq] at hi ⊢
    rw [← hi] at hn ⊢
    exact (hsp hn).symm
  · simp only [ethswLearn, Function.update_of_ne hslot] at hi h0 ⊢
    exact h n hn i hi h0

theorem inputVlan_access {d : NetioDesc} {pkt : List Byte} {pktLen : Nat} {v : BitVec 16}
    {tag : Bool} (h : ethswInputVlan d pkt pktLen = some (v, tag))
    (ha : d.vlanPortType = .access) : d.vlanId = v := by
  by_cases hrunt : pktLen < nEthHlen
  · simp [ethswInputVlan, hrunt] at h
  · simp only [ethswInputVlan, hrunt, if_false, ha, Option.some.injEq, Prod.mk.injEq] at h
    exact h.1

theorem macVlans_receive {t' : EthswTable} {nio : NioPtr} {pkt : List Byte} {pktLen : Nat}
    {out : List NetioSend} (h : MacVlans m t)
    (hr : ethswReceive m t nio pkt pktLen = some (t', out)) : MacVlans m t' := by
  rcases ethswReceive_cases hr with ⟨rfl, -, -⟩ | ⟨v, tag, -, hv, rfl, -⟩
  · exact h
  · exact macVlans_learn h (inputVlan_access hv)

theorem receive_isolated {t' : EthswTable} {nio : NioPtr} {pkt : List Byte} {pktLen : Nat}
    {out : List NetioSend} {x : NetioSend} (h : MacVlans m t)
    (hr : ethswReceive m t nio pkt pktLen = some (t', out)) (hx : x ∈ out)
    (ha : (m x.port).vlanPortType = .access) :
    (m x.port).vlanId ≠ 0 ∧
      ∃ tag, ethswInputVlan (m nio) pkt pktLen = some ((m x.port).vlanId, tag) := by
  have ht' := macVlans_receive h hr
  rcases ethswReceive_cases hr with ⟨-, rfl, -⟩ | ⟨v, tag, h0, hv, -, hout⟩
  · cases hx
  · have hvlan : (m x.port).vlanId = v := by
      rcases forwardTo_cases hout with hflood | ⟨i, hi, hport⟩
      · exact (port_of_flood hflood hx).2 ha
      · have hentry := ht' x.port ha i (hport x hx) (by rw [hi]; exact h0)
        rw [← hentry, hi]
    rw [hvlan]
    exact ⟨h0, tag, hv⟩

theorem macVlans_setPort {s : System} {nioName : String} {set : NetioDesc → NetioDesc}
    (h : MacVlans s.netio s.table)
    (hset : ∀ nio d, portNamed s nioName = some nio → (set d).vlanPortType = .access →
      LearnedAs s.table nio (set d).vlanId) :
    MacVlans (setPort s nioName set).1.netio (setPort s nioName set).1.table := by
  unfold setPort
  split
  · exact h
  · rename_i nio hnio
    exact macVlans_update h (hset nio _ hnio)

theorem macVlans_addNetio {s : System} {nioName : String} (h : MacVlans s.netio s.table)
    (hkept : AccessVlanKept s (.addNetio nioName)) :
    MacVlans (ethswAddNetio s nioName).1.netio (ethswAddNetio s nioName).1.table := by
  unfold ethswAddNetio
  split
  · exact h
  · rename_i i hslot
    cases hreg : s.registry nioName with
    | none => simpa [netioAcquire, hreg] using h
    | some nio =>
      by_cases hmax : s.refCount nio = INT_MAX
      · simpa [netioAcquire, hreg, hmax] using h
      · have hlearned := hkept nio 1 (by simp [accessTarget, hslot, hreg])
        have hset := @macVlans_update _ _ nio (setAccessPort (s.netio nio) 1) h fun _ => hlearned
        simp only [netioAcquire, hreg, if_neg hmax]
        exact hset

theorem macVlans_removeNetio {s : System} {nioName : String} (h : MacVlans s.netio s.table) :
    MacVlans (ethswRemoveNetio s nioName).1.netio (ethswRemoveNetio s nioName).1.table := by
  unfold ethswRemoveNetio
  split
  · exact h
  · split
    · exact h
    · exact fun n hn => learnedAs_invalidatePort (h n hn)

theorem macVlans_step {s s' : System} {e : Event} (h : MacVlans s.netio s.table)
    (hkept : AccessVlanKept s e) (hstep : Step s e s') : MacVlans s'.netio s'.table := by
  obtain ⟨-, out, hrun⟩ := hstep
  cases e with
  | addNetio nioName =>
    cases hrun
    exact macVlans_addNetio h hkept
  | removeNetio nioName =>
    cases hrun
    exact macVlans_removeNetio h
  | freeNio nio =>
    cases hrun
    obtain ⟨hn, ht⟩ := netio_ethswFreeNio s nio
    rw [hn, ht]
    exact h
  | setAccessPort nioName vlanId =>
    cases hrun
    exact macVlans_setPort h fun nio d hnio _ =>
      hkept nio (vlanId.setWidth 16) (by simp [accessTarget, hnio])
  | setDot1qPort nioName nativeVlan =>
    cases hrun
    exact macVlans_setPort h fun nio d _ ha => PortType.noConfusion ha
  | setQinqPort nioName outerVlan ethertype =>
    cases hrun
    unfold ethswSetQinqPort
    split
    · exact macVlans_setPort h fun nio d _ ha => PortType.noConfusion ha
    · exact h
  | clearMacAddrTable =>
    cases hrun
    exact fun n _ i hi => absurd hi (Option.some_ne_none n).symm
  | recvPkt nio pkt pktLen locked =>
    cases locked with
    | false =>
      cases hrun
      exact h
    | true =>
      obtain ⟨t', hr, rfl⟩ := run_recvPkt.mp hrun
      exact macVlans_receive h hr
  | netioCreate nio name =>
    cases hrun
    exact macVlans_update h fun ha => PortType.noConfusion ha
  | netioDelete name =>
    cases hrun
    exact h
  | netioAcquire name =>
    obtain ⟨hn, ht, -⟩ := run_netioAcquire hrun
    rw [hn, ht]
    exact h
  | netioRelease name =>
    cases hrun
    obtain ⟨hn, ht⟩ := netio_netioRelease s name
    rw [hn, ht]
    exact h

theorem isolated_of_macVlans {s : System} (h : MacVlans s.netio s.table) (e : Event) :
    VlanIsolated s e := by
  intro s' out x hrun hx ha
  obtain ⟨nio, pkt, pktLen, t', rfl, hr⟩ := recvPkt_of_sends hrun hx
  exact ⟨nio, pkt, pktLen, true, rfl, receive_isolated h hr hx ha⟩

theorem macVlans_create (netio : Netios) (registry : String → Option NioPtr)
    (refCount : NioPtr → Int) :
    MacVlans netio (ethswCreate netio registry refCount).table :=
  fun n _ _ hi => absurd hi (Option.some_ne_none n).symm

theorem vlan_isolation (netio : Netios) (registry : String → Option NioPtr)
    (refCount : NioPtr → Int) {trace : List (System × Event)} {s : System}
    (hrun : Run Step (ethswCreate netio registry refCount) trace s)
    (hkept : AllSteps AccessVlanKept trace) : AllSteps VlanIsolated trace := by
  have hinv := hrun.invariant (P := fun s => MacVlans s.netio s.table)
    (fun s e s' h hk hs => macVlans_step h hk hs) (macVlans_create netio registry refCount) hkept
  exact allSteps_of_always (fun s e h => isolated_of_macVlans h e) hinv

def twoNios : Netios := fun nio => if nio = 1 then .zero "nio1" else .zero "nio2"

def twoNames : String → Option NioPtr := fun name =>
  if name = "nio1" then some 1 else if name = "nio2" then some 2 else none

def noPorts : System := ethswCreate twoNios twoNames fun _ => 1

def onePort : System := (ethswAddNetio noPorts "nio1").1

def twoPorts : System := (ethswAddNetio onePort "nio2").1

def frameTo (dst src : Byte) : List Byte :=
  [0, 0, 0, 0, 0, dst, 0, 0, 0, 0, 0, src, 8, 0]

theorem enabled_recv {s : System} {nio : NioPtr} {pkt : List Byte} {locked : Bool}
    (hrxl : 0 < s.rxl nio) (hlen : pkt.length = 14) : Enabled s (.recvPkt nio pkt 14 locked) :=
  ⟨hrxl, by decide, Nat.le_of_eq hlen.symm⟩

theorem run_twoPorts : Run Step noPorts
    [(noPorts, .addNetio "nio1"), (onePort, .addNetio "nio2")] twoPorts :=
  Run.next (Run.next Run.start ⟨trivial, [], rfl⟩) ⟨trivial, [], rfl⟩

theorem vlan_isolation_two_ports : AllSteps VlanIsolated
    [(noPorts, .addNetio "nio1"), (onePort, .addNetio "nio2"),
      (twoPorts, .recvPkt 2 (frameTo 9 7) 14 true)] := by
  obtain ⟨s, hs⟩ := @exists_step twoPorts (.recvPkt 2 (frameTo 9 7) 14 true)
    (enabled_recv (by decide) rfl)
  refine vlan_isolation twoNios twoNames (fun _ => 1) (Run.next run_twoPorts hs) ?_
  intro x hx nio w hw i _ h0
  rcases hx with _ | ⟨_, _ | ⟨_, _ | ⟨_, hx⟩⟩⟩
  · exact absurd rfl h0
  · exact absurd rfl h0
  · cases hw
  · cases hx

/-- The switch once it has learned station 7 behind the second port. -/
def learned : System :=
  { twoPorts with table := ethswLearn twoPorts.table ⟨frameTo 9 7, 14, 2, 1, false⟩ }

def moved : System := (ethswSetAccessPort learned "nio2" 2).1

theorem not_isolated_moved : ¬ VlanIsolated moved (.recvPkt 1 (frameTo 7 9) 14 true) := by
  intro h
  obtain ⟨nio, pkt, pktLen, locked, he, -, tag, hv⟩ :=
    h _ [⟨2, some (frameTo 7 9)⟩] ⟨2, some (frameTo 7 9)⟩ rfl (List.mem_singleton_self _) rfl
  cases he
  cases hv

/-- A frame received in VLAN 1 leaves on an access port of VLAN 2. -/
theorem not_vlan_isolation : ¬ ∀ netio registry refCount trace s,
    Run Step (ethswCreate netio registry refCount) trace s → AllSteps VlanIsolated trace := by
  intro h
  have hlearn : Step twoPorts (.recvPkt 2 (frameTo 9 7) 14 true) learned :=
    ⟨enabled_recv (by decide) rfl, _, rfl⟩
  have hmove : Step learned (.setAccessPort "nio2" 2) moved := ⟨trivial, [], rfl⟩
  obtain ⟨s, hs⟩ := @exists_step moved (.recvPkt 1 (frameTo 7 9) 14 true)
    (enabled_recv (by decide) rfl)
  have hall := h twoNios twoNames (fun _ => 1) _ s
    (Run.next (Run.next (Run.next run_twoPorts hlearn) hmove) hs)
  exact not_isolated_moved (allSteps_snoc.mp hall).2

end Dynamips.Ethsw
