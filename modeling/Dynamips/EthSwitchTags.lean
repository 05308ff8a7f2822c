import Dynamips.EthSwitchDelivery

/-! Tags over a chain of switches: what is pushed and popped on each hop, and what
arrives. -/
set_option autoImplicit false

namespace Dynamips.Ethsw

open Runs

def withTag (ethertype v : BitVec 16) (f : List Byte) : List Byte :=
  f.take 12 ++ mHton16 ethertype ++ mHton16 v ++ f.drop 12

def withoutTag (g : List Byte) : List Byte := g.take 12 ++ g.drop 16

section Frames

variable {e v : BitVec 16} {f : List Byte}

theorem length_withTag (e v : BitVec 16) (h : 12 ≤ f.length) :
    (withTag e v f).length = f.length + 4 := by
  simp only [withTag, List.length_append, List.length_take, List.length_drop, length_mHton16]
  omega

theorem take_withTag (e v : BitVec 16) (h : 12 ≤ f.length) :
    (withTag e v f).take 12 = f.take 12 := by
  have hlen : (f.take 12).length = 12 := List.length_take_of_le h
  rw [withTag, List.append_assoc, List.append_assoc, List.take_left' hlen]

theorem drop_withTag (e v : BitVec 16) (h : 12 ≤ f.length) :
    (withTag e v f).drop 12 = mHton16 e ++ (mHton16 v ++ f.drop 12) := by
  have hlen : (f.take 12).length = 12 := List.length_take_of_le h
  rw [withTag, List.append_assoc, List.append_assoc, List.drop_left' hlen]

theorem drop_withTag_vlan (e v : BitVec 16) (h : 12 ≤ f.length) :
    (withTag e v f).drop 14 = mHton16 v ++ f.drop 12 := by
  have hsplit : (withTag e v f).drop 14 = ((withTag e v f).drop 12).drop 2 := by simp
  rw [hsplit, drop_withTag e v h, List.drop_left' (length_mHton16 e)]

theorem withoutTag_withTag (e v : BitVec 16) (h : 12 ≤ f.length) :
    withoutTag (withTag e v f) = f := by
  have hsplit : (withTag e v f).drop 16 = ((withTag e v f).drop 14).drop 2 := by simp
  rw [withoutTag, take_withTag e v h, hsplit, drop_withTag_vlan e v h,
    List.drop_left' (length_mHton16 v), List.take_append_drop]

theorem tagged_withTag (he : isDot1qEthertype e) (v : BitVec 16) (h : 12 ≤ f.length) :
    Tagged (withTag e v f) := by
  rwa [Tagged, drop_withTag e v h, mNtoh16_mHton16]

theorem vlan_withTag (e : BitVec 16) (hv : v.toNat < 4096) (h : 12 ≤ f.length) :
    mNtoh16 ((withTag e v f).drop 14) &&& 0xFFF = v := by
  rw [drop_withTag_vlan e v h, mNtoh16_mHton16]
  apply BitVec.eq_of_toNat_eq
  rw [BitVec.toNat_and]
  exact Nat.and_two_pow_sub_one_of_lt_two_pow (n := 12) hv

end Frames

def PortOk (d : NetioDesc) : Prop :=
  match d.vlanPortType with
  | .access => d.ethertype = nEthProtoDot1q
  | .dot1q => d.ethertype = nEthProtoDot1q
  | .qinq => isDot1qEthertype d.ethertype
  | _ => True

def PortsOk (m : Netios) (t : EthswTable) : Prop := ∀ nio, Attached t nio → PortOk (m nio)

def Reachable (s : System) : Prop :=
  ∃ netio registry refCount trace, Run Step (ethswCreate netio registry refCount) trace s

section Ports

variable {m : Netios} {t : EthswTable} {s s' : System}

theorem portsOk_update {nio : NioPtr} {d : NetioDesc} (h : PortsOk m t) (hd : PortOk d) :
    PortsOk (Function.update m nio d) t := by
  intro n hn
  by_cases hnio : n = nio
  · rwa [hnio, Function.update_self]
  · rw [Function.update_of_ne hnio]
    exact h n hn

theorem portsOk_setPort {nioName : String} {set : NetioDesc → NetioDesc}
    (h : PortsOk s.netio s.table) (hset : ∀ d, PortOk (set d)) :
    PortsOk (setPort s nioName set).1.netio (setPort s nioName set).1.table := by
  unfold setPort
  split
  · exact h
  · exact portsOk_update h (hset _)

theorem portsOk_setSlot {t : EthswTable} {nio : NioPtr} {i : Fin ETHSW_MAX_NIO}
    (h : PortsOk m t) (hnio : PortOk (m nio)) :
    PortsOk m { t with nio := Function.update t.nio i (some nio) } := by
  rintro n ⟨j, hj⟩
  by_cases hslot : j = i
  · simp only [hslot, Function.update_self, Option.some.injEq] at hj
    rwa [← hj]
  · simp only [Function.update_of_ne hslot] at hj
    exact h n ⟨j, hj⟩

theorem portsOk_addNetio {nioName : String} (h : PortsOk s.netio s.table) :
    PortsOk (ethswAddNetio s nioName).1.netio (ethswAddNetio s nioName).1.table := by
  unfold ethswAddNetio
  split
  · exact h
  · split
    · exact h
    · rename_i nio s' hacq
      obtain ⟨hn, ht⟩ := netio_netioAcquire hacq
      rw [← hn, ← ht] at h
      have hport : PortOk (setAccessPort (s'.netio nio) 1) := rfl
      have hself : PortOk (Function.update s'.netio nio (setAccessPort (s'.netio nio) 1) nio) := by
        rwa [Function.update_self]
      exact portsOk_setSlot (portsOk_update h hport) hself

theorem portsOk_removeNetio {nioName : String} (h : PortsOk s.netio s.table) :
    PortsOk (ethswRemoveNetio s nioName).1.netio (ethswRemoveNetio s nioName).1.table := by
  unfold ethswRemoveNetio
  split
  · exact h
  · split
    · exact h
    · rename_i i _
      rintro n ⟨j, hj⟩
      by_cases hslot : j = i
      · simp [System.setSlot, hslot] at hj
      · simp only [System.setSlot, Function.update_of_ne hslot] at hj
        exact h n ⟨j, hj⟩

theorem nio_receive {t' : EthswTable} {nio : NioPtr} {pkt : List Byte} {pktLen : Nat}
    {out : List NetioSend} (h : ethswReceive m t nio pkt pktLen = some (t', out)) :
    t'.nio = t.nio := by
  rcases ethswReceive_cases h with ⟨rfl, -, -⟩ | ⟨v, tag, -, -, rfl, -⟩
  · rfl
  · rfl

theorem portsOk_step {e : Event} (h : PortsOk s.netio s.table) (hstep : Step s e s') :
    PortsOk s'.netio s'.table := by
  obtain ⟨-, out, hrun⟩ := hstep
  cases e with
  | addNetio nioName =>
    cases hrun
    exact portsOk_addNetio h
  | removeNetio nioName =>
    cases hrun
    exact portsOk_removeNetio h
  | freeNio nio =>
    cases hrun
    obtain ⟨hn, ht⟩ := netio_ethswFreeNio s nio
    rwa [hn, ht]
  | setAccessPort nioName vlanId =>
    cases hrun
    exact portsOk_setPort h fun _ => rfl
  | setDot1qPort nioName nativeVlan =>
    cases hrun
    exact portsOk_setPort h fun _ => rfl
  | setQinqPort nioName outerVlan ethertype =>
    cases hrun
    unfold ethswSetQinqPort
    split
    · rename_i he
      exact portsOk_setPort h fun _ => he
    · exact h
  | recvPkt nio pkt pktLen locked =>
    cases locked with
    | false =>
      cases hrun
      exact h
    | true =>
      obtain ⟨t', hr, rfl⟩ := run_recvPkt.mp hrun
      rintro n ⟨i, hi⟩
      exact h n ⟨i, by rwa [← nio_receive hr]⟩
  | netioCreate nio name =>
    cases hrun
    exact portsOk_update h trivial
  | netioAcquire name =>
    obtain ⟨hn, ht, -⟩ := run_netioAcquire hrun
    rwa [hn, ht]
  | netioRelease name =>
    cases hrun
    obtain ⟨hn, ht⟩ := netio_netioRelease s name
    rwa [hn, ht]
  | clearMacAddrTable | netioDelete =>
    cases hrun
    exact h

theorem portsOk_of_reachable (h : Reachable s) : PortsOk s.netio s.table := by
  obtain ⟨netio, registry, refCount, trace, hrun⟩ := h
  have hstart : PortsOk netio (ethswCreate netio registry refCount).table := by
    rintro n ⟨i, hi⟩
    cases hi
  exact (hrun.always (P := fun s => PortsOk s.netio s.table)
    (fun s e s' h hs => portsOk_step h hs) hstart).1

end Ports

/-- One switch on the way of a frame, with the port it comes in on and one that it
leaves on. -/
structure Hop where
  sys : System
  input : NioPtr
  output : NioPtr

namespace Hop

def inPort (h : Hop) : NetioDesc := h.sys.netio h.input

def outPort (h : Hop) : NetioDesc := h.sys.netio h.output

/-- The switch sends `g'` for the frame `g`. -/
def Sends (h : Hop) (g g' : List Byte) : Prop :=
  ∃ t' out, ethswReceive h.sys.netio h.sys.table h.input g g.length = some (t', out) ∧
    (⟨h.output, some g'⟩ : NetioSend) ∈ out

/-- The frame as it is forwarded in VLAN `v`. -/
def packet (h : Hop) (v : BitVec 16) (tag : Bool) (g : List Byte) : EthswPacket :=
  ⟨g, g.length, h.input, v, tag⟩

/-- The output port is one that the switch sends the frame to in VLAN `v`. -/
def Forwards (h : Hop) (v : BitVec 16) (f : List Byte) : Prop :=
  h.output ∈ outPorts h.sys.netio (ethswLearn h.sys.table (h.packet v false f))
    (h.packet v false f)

instance (h : Hop) (v : BitVec 16) (f : List Byte) : Decidable (h.Forwards v f) :=
  inferInstanceAs (Decidable (_ ∈ _))

instance (pkt : List Byte) : Decidable (Tagged pkt) := inferInstanceAs (Decidable (_ = true))

structure Ready (h : Hop) (v : BitVec 16) (f : List Byte) : Prop where
  reachable : Reachable h.sys
  attached : Attached h.sys.table h.input
  forwards : h.Forwards v f

/-- The frame `f` comes in from a station of VLAN `v`. -/
def StartsAt (h : Hop) (v : BitVec 16) (f : List Byte) : Prop :=
  h.inPort.vlanId = v ∧ (h.inPort.vlanPortType = .access ∨ h.inPort.vlanPortType = .qinq ∧ Tagged f)

/-- The frame goes out to a station: to one of the customer of a tunnel only from a
trunk, and from one not to an access port. -/
def EndsAt (h : Hop) (v : BitVec 16) (f : List Byte) : Prop :=
  h.outPort.vlanPortType = .access ∧ h.inPort.vlanPortType ≠ .qinq ∨
    h.outPort.vlanPortType = .qinq ∧ h.outPort.vlanId = v ∧ Tagged f ∧
      h.inPort.vlanPortType = .dot1q

/-- Two trunk ports that are wired together. A frame that leaves without a tag comes
back to VLAN `v`. -/
def Linked (h h' : Hop) (v : BitVec 16) (f : List Byte) : Prop :=
  h.outPort.vlanPortType = .dot1q ∧ h'.inPort.vlanPortType = .dot1q ∧
    (h.outPort.vlanId = v → h'.inPort.vlanId = v ∧ ¬ Tagged f)

end Hop

/-- From the port of `h` the frame reaches a station over the switches that follow. -/
def Onward (v : BitVec 16) (f : List Byte) : Hop → List Hop → Prop
  | h, [] => h.Ready v f ∧ h.EndsAt v f
  | h, h' :: hops => h.Ready v f ∧ h.Linked h' v f ∧ Onward v f h' hops

/-- What `h` and the switches that follow make of a frame. -/
inductive Carries : Hop → List Hop → List Byte → List Byte → Prop where
  | last {h : Hop} {g g' : List Byte} : h.Sends g g' → Carries h [] g g'
  | next {h h' : Hop} {hops : List Hop} {g g' f' : List Byte} :
      h.Sends g g' → Carries h' hops g' f' → Carries h (h' :: hops) g f'

/-- The frame `f` of VLAN `v` as it comes in on the port. -/
def Incoming (v : BitVec 16) (f : List Byte) (d : NetioDesc) (g : List Byte) : Prop :=
  match d.vlanPortType with
  | .access => d.vlanId = v ∧ g = f
  | .dot1q => (∃ e, isDot1qEthertype e ∧ g = withTag e v f) ∨ d.vlanId = v ∧ g = f ∧ ¬ Tagged f
  | .qinq => d.vlanId = v ∧ g = f ∧ Tagged f
  | _ => False

section Hops

variable {h h' : Hop} {v : BitVec 16} {f g g' f' : List Byte} {hops : List Hop}

theorem outPorts_congr {m : Netios} {t : EthswTable} {sp sp' : EthswPacket}
    (hpkt : sp.pkt.take 12 = sp'.pkt.take 12) (hport : sp.inputPort = sp'.inputPort)
    (hvlan : sp.inputVlan = sp'.inputVlan) :
    outPorts m (ethswLearn t sp) sp = outPorts m (ethswLearn t sp') sp' := by
  have hdst : sp.daddr = sp'.daddr := by
    have htake := congrArg (List.take 6) hpkt
    simp only [List.take_take] at htake
    exact htake
  have hsrc : sp.saddr = sp'.saddr := by
    have hdrop := congrArg (List.drop 6) hpkt
    simp only [List.drop_take] at hdrop
    exact hdrop
  simp only [outPorts, ethswLearn, hdst, hsrc, hport, hvlan, floodTarget]
  rfl

theorem sends_iff {tag : Bool} {iv : InputVector} {g₀ : List Byte}
    (hin : ethswInputVlan h.inPort g g.length = some (v, tag)) (h0 : v ≠ 0)
    (hiv : h.inPort.vlanInputVector = some iv) (hfwd : h.Forwards v f)
    (hpkt : g.take 12 = f.take 12)
    (hrun : iv.run h.sys.netio (h.packet v tag g) h.output = [⟨h.output, some g₀⟩]) :
    h.Sends g g' ↔ g' = g₀ := by
  have hports : h.output ∈ outPorts h.sys.netio (ethswLearn h.sys.table (h.packet v tag g))
      (h.packet v tag g) := by
    have hsame := @outPorts_congr h.sys.netio h.sys.table (h.packet v tag g)
      (h.packet v false f) hpkt rfl rfl
    rwa [hsame]
  rw [Hop.Sends, receive_forward hin h0 hiv]
  constructor
  · rintro ⟨t', out, hout, hx⟩
    cases hout
    obtain ⟨op, -, hop⟩ := List.mem_flatMap.mp hx
    obtain rfl : h.output = op := port_of_run hop
    have hmem := hrun ▸ hop
    simpa using hmem
  · rintro rfl
    refine ⟨_, _, rfl, List.mem_flatMap.mpr ⟨h.output, hports, ?_⟩⟩
    exact hrun ▸ List.mem_singleton_self _

theorem frame_packet (h : Hop) (v : BitVec 16) (tag : Bool) (g : List Byte) :
    (h.packet v tag g).frame = g := List.take_length

theorem push_packet (h : Hop) (v w e : BitVec 16) (tag : Bool) (g : List Byte) :
    dot1qPushTag (h.packet v tag g) w e = withTag e v g := by
  rw [dot1qPushTag, frame_packet]
  rfl

theorem pop_packet (h : Hop) (v : BitVec 16) (tag : Bool) (hlen : 16 ≤ g.length) :
    dot1qPopTag (h.packet v tag g) = some (withoutTag g) := by
  rw [dot1qPopTag, frame_packet]
  exact if_pos hlen

theorem pop_withTag (h : Hop) (v : BitVec 16) (tag : Bool) (e : BitVec 16) (hlen : 14 ≤ f.length) :
    dot1qPopTag (h.packet v tag (withTag e v f)) = some f := by
  have hwith := length_withTag e v (by omega : 12 ≤ f.length)
  rw [pop_packet h v tag (by omega), withoutTag_withTag e v (by omega)]

/-! The VLAN of a frame that comes in. -/

theorem inputVlan_access_port {d : NetioDesc} (hd : d.vlanPortType = .access)
    (hlen : 14 ≤ g.length) : ethswInputVlan d g g.length = some (d.vlanId, false) := by
  rw [ethswInputVlan, if_neg (by simp only [nEthHlen]; omega), hd]

theorem inputVlan_tagged {d : NetioDesc} (hd : d.vlanPortType = .dot1q) (hlen : 14 ≤ g.length)
    (htag : Tagged g) :
    ethswInputVlan d g g.length = some (mNtoh16 (g.drop 14) &&& 0xFFF, true) := by
  rw [ethswInputVlan, if_neg (by simp only [nEthHlen]; omega), hd]
  exact if_pos htag

theorem inputVlan_untagged {d : NetioDesc} (hd : d.vlanPortType = .dot1q) (hlen : 14 ≤ g.length)
    (htag : ¬ Tagged g) : ethswInputVlan d g g.length = some (d.vlanId, false) := by
  rw [ethswInputVlan, if_neg (by simp only [nEthHlen]; omega), hd]
  exact if_neg htag

theorem inputVlan_tunnel {d : NetioDesc} (hd : d.vlanPortType = .qinq) (hlen : 14 ≤ g.length)
    (htag : Tagged g) : ethswInputVlan d g g.length = some (d.vlanId, false) := by
  rw [ethswInputVlan, if_neg (by simp only [nEthHlen]; omega), hd]
  exact if_pos htag

theorem vector_of_type {d : NetioDesc} {type : PortType} (hd : d.vlanPortType = type) :
    d.vlanInputVector = type.vector := by
  rw [d.vector_eq, hd]

theorem ivAccess_trunk (h : Hop) (v : BitVec 16) (tag : Bool) (f : List Byte)
    (hout : h.outPort.vlanPortType = .dot1q) :
    ethswIvAccess h.sys.netio (h.packet v tag f) h.output =
      [⟨h.output, some (if h.outPort.vlanId = v then f
        else withTag h.inPort.ethertype v f)⟩] := by
  rw [Hop.outPort] at hout ⊢
  simp only [ethswIvAccess, hout, frame_packet, push_packet]
  by_cases hnative : (h.sys.netio h.output).vlanId = v
  · simp [Hop.packet, hnative]
  · simp [Hop.packet, hnative, Hop.inPort]

theorem portOk_in (hr : h.Ready v f) : PortOk h.inPort :=
  portsOk_of_reachable hr.reachable h.input hr.attached

theorem access_to_trunk (h0 : v ≠ 0) (hlen : 14 ≤ f.length) (hr : h.Ready v f)
    (hin : h.inPort.vlanPortType = .access) (hvlan : h.inPort.vlanId = v)
    (hout : h.outPort.vlanPortType = .dot1q) :
    h.Sends f g' ↔ g' = if h.outPort.vlanId = v then f else withTag nEthProtoDot1q v f := by
  have hok := portOk_in hr
  simp only [PortOk, hin] at hok
  have hvlan' := inputVlan_access_port hin hlen
  rw [hvlan] at hvlan'
  have hrun := ivAccess_trunk h v false f hout
  rw [hok] at hrun
  exact sends_iff hvlan' h0 (vector_of_type hin) hr.forwards rfl hrun

theorem trunk_to_access (h0 : v ≠ 0) (hlen : 16 ≤ g.length) (hfwd : h.Forwards v g)
    (hin : h.inPort.vlanPortType = .dot1q) (htag : Tagged g)
    (hvlan : mNtoh16 (g.drop 14) &&& 0xFFF = v) (hout : h.outPort.vlanPortType = .access) :
    h.Sends g g' ↔ g' = withoutTag g := by
  have hvlan' := inputVlan_tagged hin (by omega) htag
  rw [hvlan] at hvlan'
  refine sends_iff hvlan' h0 (vector_of_type hin) hfwd rfl ?_
  rw [Hop.outPort] at hout
  simp only [InputVector.run, ethswIvDot1q, hout, pop_packet h v true hlen]
  rfl

theorem incoming_cases {d : NetioDesc} (hin : Incoming v f d g) :
    (d.vlanPortType = .access ∧ d.vlanId = v ∧ g = f) ∨
    (d.vlanPortType = .dot1q ∧ ∃ e, isDot1qEthertype e ∧ g = withTag e v f) ∨
    (d.vlanPortType = .dot1q ∧ d.vlanId = v ∧ g = f ∧ ¬ Tagged f) ∨
    (d.vlanPortType = .qinq ∧ d.vlanId = v ∧ g = f ∧ Tagged f) := by
  rw [Incoming] at hin
  cases htype : d.vlanPortType with
  | unset | isl => simp [htype] at hin
  | access =>
    simp only [htype] at hin
    exact Or.inl ⟨rfl, hin⟩
  | dot1q =>
    simp only [htype] at hin
    rcases hin with htag | hnative
    · exact Or.inr (Or.inl ⟨rfl, htag⟩)
    · exact Or.inr (Or.inr (Or.inl ⟨rfl, hnative⟩))
  | qinq =>
    simp only [htype] at hin
    exact Or.inr (Or.inr (Or.inr ⟨rfl, hin⟩))

theorem incoming_linked {e : BitVec 16} (hlink : h.Linked h' v f) (he : isDot1qEthertype e) :
    Incoming v f h'.inPort (if h.outPort.vlanId = v then f else withTag e v f) := by
  obtain ⟨-, hin, hnative⟩ := hlink
  simp only [Incoming, hin]
  by_cases hv : h.outPort.vlanId = v
  · obtain ⟨hvlan, htag⟩ := hnative hv
    exact Or.inr ⟨hvlan, by simp [hv], htag⟩
  · exact Or.inl ⟨e, he, by simp [hv]⟩

variable (h0 : v ≠ 0) (hv : v.toNat < 4096) (hlen : 14 ≤ f.length)
include h0 hv hlen

theorem trunk_hop (hr : h.Ready v f) (hin : Incoming v f h.inPort g) (hlink : h.Linked h' v f) :
    ∃ g₀, (∀ g', h.Sends g g' ↔ g' = g₀) ∧ Incoming v f h'.inPort g₀ := by
  have hok := portOk_in hr
  have hout : (h.sys.netio h.output).vlanPortType = .dot1q := hlink.1
  rcases incoming_cases hin with ⟨hd, hvlan, rfl⟩ | ⟨hd, e, he, rfl⟩ | ⟨hd, hvlan, rfl, htag⟩ |
    ⟨hd, hvlan, rfl, htag⟩
  · exact ⟨_, fun g' => access_to_trunk h0 hlen hr hd hvlan hlink.1, incoming_linked hlink rfl⟩
  · have h12 : 12 ≤ f.length := by omega
    have hvlan := inputVlan_tagged hd (by rw [length_withTag e v h12]; omega)
      (tagged_withTag he v h12)
    rw [vlan_withTag e hv h12] at hvlan
    refine ⟨_, fun g' => sends_iff hvlan h0 (vector_of_type hd) hr.forwards
      (take_withTag e v h12) ?_, incoming_linked hlink he⟩
    simp only [InputVector.run, ethswIvDot1q, hout, pop_withTag h v true e hlen, frame_packet]
    by_cases hnative : (h.sys.netio h.output).vlanId = v
    · simp [Hop.packet, Hop.outPort, hnative]
    · simp [Hop.packet, Hop.outPort, hnative]
  · have hvlan' := inputVlan_untagged hd hlen htag
    rw [hvlan] at hvlan'
    simp only [PortOk, hd] at hok
    have hrun := ivAccess_trunk h v false g hlink.1
    rw [hok] at hrun
    exact ⟨_, fun g' => sends_iff hvlan' h0 (vector_of_type hd) hr.forwards rfl hrun,
      incoming_linked hlink rfl⟩
  · have hvlan' := inputVlan_tunnel hd hlen htag
    rw [hvlan] at hvlan'
    simp only [PortOk, hd] at hok
    refine ⟨withTag h.inPort.ethertype v g, fun g' =>
      sends_iff hvlan' h0 (vector_of_type hd) hr.forwards rfl ?_, ?_⟩
    · simp only [InputVector.run, ethswIvQinq, hout, push_packet]
      rfl
    · simp only [Incoming, hlink.2.1]
      exact Or.inl ⟨_, hok, rfl⟩

theorem edge_hop (hr : h.Ready v f) (hin : Incoming v f h.inPort g) (hend : h.EndsAt v f) :
    h.Sends g g' ↔ g' = f := by
  rcases incoming_cases hin with ⟨hd, hvlan, rfl⟩ | ⟨hd, e, he, rfl⟩ | ⟨hd, hvlan, rfl, htag⟩ |
    ⟨hd, hvlan, rfl, htag⟩
  · have hvlan' := inputVlan_access_port hd hlen
    rw [hvlan] at hvlan'
    refine sends_iff hvlan' h0 (vector_of_type hd) hr.forwards rfl ?_
    have hout : h.outPort.vlanPortType = .access := by simpa [Hop.EndsAt, hd] using hend
    rw [Hop.outPort] at hout
    simp only [InputVector.run, ethswIvAccess, hout, frame_packet]
  · have h12 : 12 ≤ f.length := by omega
    have hvlan := inputVlan_tagged hd (by rw [length_withTag e v h12]; omega)
      (tagged_withTag he v h12)
    rw [vlan_withTag e hv h12] at hvlan
    refine sends_iff hvlan h0 (vector_of_type hd) hr.forwards (take_withTag e v h12) ?_
    rcases hend with ⟨hout, -⟩ | ⟨hout, houter, -, -⟩
    · rw [Hop.outPort] at hout
      simp only [InputVector.run, ethswIvDot1q, hout, pop_withTag h v true e hlen]
      rfl
    · rw [Hop.outPort] at hout houter
      simp only [InputVector.run, ethswIvDot1q, hout, pop_withTag h v true e hlen]
      simp [Hop.packet, houter]
  · have hvlan' := inputVlan_untagged hd hlen htag
    rw [hvlan] at hvlan'
    refine sends_iff hvlan' h0 (vector_of_type hd) hr.forwards rfl ?_
    have hout : h.outPort.vlanPortType = .access := by simpa [Hop.EndsAt, hd, htag] using hend
    rw [Hop.outPort] at hout
    simp only [InputVector.run, ethswIvDot1q, ethswIvAccess, hout, frame_packet]
    rfl
  · simp [Hop.EndsAt, hd] at hend

theorem carries_iff (hon : Onward v f h hops) (hin : Incoming v f h.inPort g) :
    Carries h hops g f' ↔ f' = f := by
  induction hops generalizing h g with
  | nil =>
    obtain ⟨hr, hend⟩ := hon
    rw [← edge_hop h0 hv hlen hr hin hend]
    constructor
    · intro hc
      cases hc with
      | last hsent => exact hsent
    · exact Carries.last
  | cons h' hops ih =>
    obtain ⟨hr, hlink, hrest⟩ := hon
    obtain ⟨g₀, hsends, hin'⟩ := trunk_hop h0 hv hlen hr hin hlink
    rw [← ih hrest hin']
    constructor
    · intro hc
      cases hc with
      | next hsent hcarries => rwa [← (hsends _).mp hsent]
    · exact Carries.next ((hsends _).mpr rfl)

omit h0 hv hlen in
theorem incoming_start (hstart : h.StartsAt v f) : Incoming v f h.inPort f := by
  obtain ⟨hvlan, hd | ⟨hd, htag⟩⟩ := hstart
  · simp [Incoming, hd, hvlan]
  · simp [Incoming, hd, hvlan, htag]

theorem tags_transparent :
    (∀ h g', Hop.Ready h v f → h.inPort.vlanPortType = .access → h.inPort.vlanId = v →
      h.outPort.vlanPortType = .dot1q →
        (h.Sends f g' ↔ g' = if h.outPort.vlanId = v then f else withTag nEthProtoDot1q v f)) ∧
    (∀ h g g', Hop.Ready h v g → h.inPort.vlanPortType = .dot1q → 16 ≤ g.length → Tagged g →
      mNtoh16 (g.drop 14) &&& 0xFFF = v → h.outPort.vlanPortType = .access →
        (h.Sends g g' ↔ g' = withoutTag g)) ∧
    ∀ h hops f', Hop.StartsAt h v f → Onward v f h hops → (Carries h hops f f' ↔ f' = f) :=
  ⟨fun _ _ hr hin hvlan hout => access_to_trunk h0 hlen hr hin hvlan hout,
    fun _ _ _ hr hin hg htag hvlan hout =>
      trunk_to_access h0 hg hr.forwards hin htag hvlan hout,
    fun _ _ _ hstart hon => carries_iff h0 hv hlen hon (incoming_start hstart)⟩

end Hops

def trunkPorts (vlan native : BitVec 32) : System :=
  (ethswSetDot1qPort (ethswSetAccessPort twoPorts "nio1" vlan).1 "nio2" native).1

theorem reachable_trunkPorts (vlan native : BitVec 32) : Reachable (trunkPorts vlan native) := by
  have haccess : Step twoPorts (.setAccessPort "nio1" vlan)
      (ethswSetAccessPort twoPorts "nio1" vlan).1 := ⟨trivial, [], rfl⟩
  have htrunk : Step (ethswSetAccessPort twoPorts "nio1" vlan).1 (.setDot1qPort "nio2" native)
      (trunkPorts vlan native) := ⟨trivial, [], rfl⟩
  exact ⟨twoNios, twoNames, fun _ => 1, _, Run.next (Run.next run_twoPorts haccess) htrunk⟩

def upHop (vlan native : BitVec 32) : Hop := ⟨trunkPorts vlan native, 1, 2⟩

def downHop (vlan native : BitVec 32) : Hop := ⟨trunkPorts vlan native, 2, 1⟩

theorem ready_up {vlan native : BitVec 32} {v : BitVec 16} {f : List Byte}
    (hfwd : (upHop vlan native).Forwards v f) : (upHop vlan native).Ready v f :=
  ⟨reachable_trunkPorts vlan native, ⟨⟨0, by decide⟩, rfl⟩, hfwd⟩

theorem ready_down {vlan native : BitVec 32} {v : BitVec 16} {f : List Byte}
    (hfwd : (downHop vlan native).Forwards v f) : (downHop vlan native).Ready v f :=
  ⟨reachable_trunkPorts vlan native, ⟨⟨1, by decide⟩, rfl⟩, hfwd⟩

theorem tags_transparent_two_switches :
    Carries (upHop 1 5) [downHop 1 5] (frameTo 7 9) (frameTo 7 9) := by
  have hlink : (upHop 1 5).Linked (downHop 1 5) 1 (frameTo 7 9) := ⟨rfl, rfl, by decide⟩
  have hend : (downHop 1 5).EndsAt 1 (frameTo 7 9) := Or.inl ⟨rfl, PortType.noConfusion⟩
  have hon : Onward 1 (frameTo 7 9) (upHop 1 5) [downHop 1 5] :=
    ⟨ready_up (by decide), hlink, ready_down (by decide), hend⟩
  exact ((tags_transparent (v := 1) (f := frameTo 7 9) (by decide) (by decide) (by decide)).2.2
    _ _ _ ⟨rfl, Or.inl rfl⟩ hon).mpr rfl

theorem not_carries {h h' : Hop} {t t' : EthswTable} {f f' g : List Byte}
    (hup : ethswReceive h.sys.netio h.sys.table h.input f f.length =
      some (t, [⟨h.output, some g⟩]))
    (hdown : ethswReceive h'.sys.netio h'.sys.table h'.input g g.length = some (t', [])) :
    ¬ Carries h [h'] f f' := by
  intro hcarries
  cases hcarries with
  | next hsent hrest =>
    obtain ⟨_, _, hout, hmem⟩ := hsent
    rw [hup] at hout
    cases hout
    cases List.mem_singleton.mp hmem
    cases hrest with
    | last hlast =>
      obtain ⟨_, _, hout, hmem⟩ := hlast
      rw [hdown] at hout
      cases hout
      cases hmem

/-- No tag is added in the native VLAN. Two trunks of different native VLANs move the frame to
another VLAN, and so does a VLAN that does not fit in a tag. -/
theorem not_tags_transparent :
    (¬ ∀ h v f g', v ≠ 0 → 14 ≤ f.length → Hop.Ready h v f → h.inPort.vlanPortType = .access →
      h.inPort.vlanId = v → h.outPort.vlanPortType = .dot1q → h.Sends f g' →
        g' = withTag nEthProtoDot1q v f) ∧
    (¬ ∀ h h' v f, v ≠ 0 → v.toNat < 4096 → 14 ≤ f.length → Hop.Ready h v f → h'.Ready v f →
      h.StartsAt v f → h.outPort.vlanPortType = .dot1q → h'.inPort.vlanPortType = .dot1q →
        h'.EndsAt v f → Carries h [h'] f f) ∧
    ¬ ∀ h h' v f, v ≠ 0 → 14 ≤ f.length → Hop.Ready h v f → h'.Ready v f → h.StartsAt v f →
      h.Linked h' v f → h'.EndsAt v f → Carries h [h'] f f := by
  refine ⟨fun hall => ?_, fun hall => ?_, fun hall => ?_⟩
  · have htag := hall (upHop 1 1) 1 (frameTo 7 9) (frameTo 7 9) (by decide) (by decide)
      (ready_up (by decide)) rfl rfl rfl ⟨_, _, rfl, List.mem_singleton_self _⟩
    exact absurd (congrArg List.length htag) (by decide)
  · have hcarries := hall (upHop 1 1) (downHop 1 5) 1 (frameTo 7 9) (by decide) (by decide)
      (by decide) (ready_up (by decide)) (ready_down (by decide)) ⟨rfl, Or.inl rfl⟩ rfl rfl
      (Or.inl ⟨rfl, PortType.noConfusion⟩)
    exact not_carries rfl rfl hcarries
  · have hcarries := hall (upHop 4097 5) (downHop 4097 5) 4097 (frameTo 7 9) (by decide)
      (by decide) (ready_up (by decide)) (ready_down (by decide)) ⟨rfl, Or.inl rfl⟩
      ⟨rfl, rfl, by decide⟩ (Or.inl ⟨rfl, PortType.noConfusion⟩)
    exact not_carries rfl rfl hcarries

end Dynamips.Ethsw
