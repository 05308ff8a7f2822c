import Dynamips.EthSwitchIsolation

/-! Which bytes of a frame the switch reads, and how long a frame must be. -/
set_option autoImplicit false

namespace Dynamips.Ethsw

def headerReads (nio : NetioDesc) (pkt : List Byte) (pktLen : Nat) : List Nat :=
  if pktLen < nEthHlen then []
  else
    (match nio.vlanPortType with
      | .dot1q => if isDot1qEthertype (mNtoh16 (pkt.drop 12)) then [12, 13, 14, 15] else [12, 13]
      | .qinq => [12, 13]
      | .isl => [0, 1, 2, 3, 4] ++ if ethAddrIsCiscoIsl pkt then
          [14, 15, 16] ++ if ethLlcCheckSnap (pkt.drop 14) then [20, 21] else [] else []
      | _ => []) ++
    match ethswInputVlan nio pkt pktLen with
    | some (inputVlan, _) => if inputVlan ≠ 0 then List.range 12 else []
    | none => []

/-- No header byte past the frame is read, and no length wraps below zero. -/
structure FrameSafe (m : Netios) (t : EthswTable) (nio : NioPtr) (pkt : List Byte) (pktLen : Nat) :
    Prop where
  headers : ∀ o ∈ headerReads (m nio) pkt pktLen, o < pktLen
  lengths : ∀ t' out, ethswReceive m t nio pkt pktLen = some (t', out) →
    ∀ x ∈ out, x.frame ≠ none

def floodTarget (m : Netios) (sp : EthswPacket) (o : Option NioPtr) : Option NioPtr :=
  o.filter fun op =>
    op ≠ sp.inputPort ∧ ¬((m op).vlanPortType = .access ∧ (m op).vlanId ≠ sp.inputVlan)

def outPorts (m : Netios) (t : EthswTable) (sp : EthswPacket) : List NioPtr :=
  let entry := t.macAddrTable (ethswHashIndex sp.daddr sp.inputVlan)
  if ethAddrIsMcast sp.daddr ∨ entry.macAddr ≠ sp.daddr ∨ entry.vlanId ≠ sp.inputVlan then
    (List.finRange ETHSW_MAX_NIO).filterMap fun i => floodTarget m sp (t.nio i)
  else if entry.nio ≠ some sp.inputPort then entry.nio.toList
  else []

def Tagged (pkt : List Byte) : Prop := isDot1qEthertype (mNtoh16 (pkt.drop 12)) = true

def SameTunnel (m : Netios) (t : EthswTable) (nio : NioPtr) (pkt : List Byte) (pktLen : Nat) : Prop :=
  let sp : EthswPacket := ⟨pkt, pktLen, nio, (m nio).vlanId, false⟩
  (m nio).vlanId ≠ 0 ∧ ∃ op ∈ outPorts m (ethswLearn t sp) sp,
    (m op).vlanPortType = .qinq ∧ (m op).vlanId = (m nio).vlanId

def TagFits (m : Netios) (t : EthswTable) (nio : NioPtr) (pkt : List Byte) (pktLen : Nat) : Prop :=
  16 ≤ pktLen ∨ (m nio).vlanPortType = .access ∨ ¬Tagged pkt ∨
    (m nio).vlanPortType = .qinq ∧ ¬SameTunnel m t nio pkt pktLen

variable {m : Netios} {t : EthswTable} {sp : EthswPacket} {nio op : NioPtr} {pkt : List Byte}
  {pktLen : Nat} {iv : InputVector}

theorem flood_eq (hiv : (m sp.inputPort).vlanInputVector = some iv) :
    ethswFlood m t sp = some (((List.finRange ETHSW_MAX_NIO).filterMap fun i =>
      floodTarget m sp (t.nio i)).flatMap (iv.run m sp)) := by
  have hport : ∀ o, ethswFloodPort m sp iv o = (floodTarget m sp o).toList.flatMap (iv.run m sp) := by
    intro o
    cases o with
    | none => rfl
    | some op =>
      rw [ethswFloodPort, floodTarget]
      by_cases hself : op = sp.inputPort
      · simp [hself]
      · by_cases hvlan : (m op).vlanPortType = .access ∧ (m op).vlanId ≠ sp.inputVlan
        · simp [hself, hvlan]
        · rw [if_neg hself, if_neg hvlan, Option.filter_some, if_pos (by simp [hself]; grind)]
          simp
  rw [ethswFlood, hiv]
  simp only [hport, List.filterMap_eq_flatMap_toList, List.flatMap_assoc]

theorem forwardTo_eq (hiv : (m sp.inputPort).vlanInputVector = some iv) (h0 : sp.inputVlan ≠ 0) :
    ethswForwardTo m t sp = some ((outPorts m t sp).flatMap (iv.run m sp)) := by
  rw [ethswForwardTo, outPorts]
  by_cases hcast : ethAddrIsMcast sp.daddr = true
  · rw [if_pos hcast, if_pos (Or.inl hcast)]
    exact flood_eq hiv
  · rw [if_neg hcast]
    by_cases hmiss : (t.macAddrTable (ethswHashIndex sp.daddr sp.inputVlan)).macAddr ≠ sp.daddr ∨
        (t.macAddrTable (ethswHashIndex sp.daddr sp.inputVlan)).vlanId ≠ sp.inputVlan
    · rw [if_pos hmiss, if_pos (Or.inr hmiss)]
      exact flood_eq hiv
    · rw [if_neg hmiss, if_neg (not_or.mpr ⟨hcast, hmiss⟩)]
      split
      · rename_i hother
        rw [not_or, not_not, not_not] at hmiss
        obtain ⟨op, hop⟩ := Option.ne_none_iff_exists'.mp
          ((t.macAddrTable (ethswHashIndex sp.daddr sp.inputVlan)).live (by rwa [hmiss.2]))
        simp [hiv, hop]
      · rfl

/-! The lengths. -/

theorem pop_none : dot1qPopTag sp = none ↔ sp.pktLen < 16 := by
  rw [dot1qPopTag]
  split
  · rename_i h
    simpa using h
  · rename_i h
    simpa using h

theorem frame_of_ivAccess {x : NetioSend} (h : x ∈ ethswIvAccess m sp op) : x.frame ≠ none := by
  unfold ethswIvAccess at h
  split at h
  · rw [List.mem_singleton.mp h]
    exact Option.some_ne_none _
  · split at h <;> rw [List.mem_singleton.mp h] <;> exact Option.some_ne_none _
  · cases h

theorem frame_of_run {x : NetioSend} (hlen : 16 ≤ sp.pktLen) (h : x ∈ iv.run m sp op) :
    x.frame ≠ none := by
  have hpop : dot1qPopTag sp ≠ none := fun hc => Nat.not_lt.mpr hlen (pop_none.mp hc)
  cases iv with
  | access => exact frame_of_ivAccess h
  | dot1q =>
    rw [InputVector.run, ethswIvDot1q] at h
    split at h
    · exact frame_of_ivAccess h
    · split at h
      · rwa [List.mem_singleton.mp h]
      · split at h
        · rwa [List.mem_singleton.mp h]
        · rw [List.mem_singleton.mp h]
          exact Option.some_ne_none _
      · split at h
        · rwa [List.mem_singleton.mp h]
        · cases h
      · cases h
  | qinq =>
    rw [InputVector.run, ethswIvQinq] at h
    split at h
    · rw [List.mem_singleton.mp h]
      exact Option.some_ne_none _
    · split at h
      · rwa [List.mem_singleton.mp h]
      · cases h
    · cases h

theorem ivQinq_none (hlen : sp.pktLen < 16) :
    (∃ x ∈ ethswIvQinq m sp op, x.frame = none) ↔
      (m op).vlanPortType = .qinq ∧ (m op).vlanId = (m sp.inputPort).vlanId := by
  rw [ethswIvQinq]
  split
  · rename_i htype
    simp [htype]
  · rename_i htype
    by_cases hvlan : (m sp.inputPort).vlanId = (m op).vlanId
    · rw [if_pos hvlan]
      simp [htype, hvlan, pop_none.mpr hlen]
    · rw [if_neg hvlan]
      simp [htype, Ne.symm hvlan]
  · rename_i htype
    exact iff_of_false (by simp) fun h => htype h.1

theorem receive_forward {v : BitVec 16} {tag : Bool}
    (hv : ethswInputVlan (m nio) pkt pktLen = some (v, tag)) (h0 : v ≠ 0)
    (hiv : (m nio).vlanInputVector = some iv) :
    ethswReceive m t nio pkt pktLen =
      some (ethswLearn t ⟨pkt, pktLen, nio, v, tag⟩,
        (outPorts m (ethswLearn t ⟨pkt, pktLen, nio, v, tag⟩) ⟨pkt, pktLen, nio, v, tag⟩).flatMap
          (iv.run m ⟨pkt, pktLen, nio, v, tag⟩)) := by
  rw [ethswReceive, hv]
  simp only
  rw [if_pos h0, ethswForward, @forwardTo_eq m _ ⟨pkt, pktLen, nio, v, tag⟩ iv hiv h0]
  rfl

theorem forall_receive {t' : EthswTable} {out : List NetioSend} {P : List NetioSend → Prop}
    (h : ethswReceive m t nio pkt pktLen = some (t', out)) :
    (∀ t' out, ethswReceive m t nio pkt pktLen = some (t', out) → P out) ↔ P out := by
  rw [h]
  constructor
  · exact fun hp => hp _ _ rfl
  · intro hp t'' out' heq
    cases heq
    exact hp

theorem inputVlan_qinq (htype : (m nio).vlanPortType = .qinq) (h14 : 14 ≤ pktLen) :
    ethswInputVlan (m nio) pkt pktLen =
      if isDot1qEthertype (mNtoh16 (pkt.drop 12)) then some ((m nio).vlanId, false) else none := by
  rw [ethswInputVlan, if_neg (by simp only [nEthHlen]; omega), htype]

theorem vector_qinq (htype : (m nio).vlanPortType = .qinq) :
    (m nio).vlanInputVector = some .qinq := by
  rw [(m nio).vector_eq, htype]
  rfl

theorem qinq_lengths (htype : (m nio).vlanPortType = .qinq) (h14 : 14 ≤ pktLen)
    (hshort : pktLen < 16) (htag : Tagged pkt) :
    (∀ t' out, ethswReceive m t nio pkt pktLen = some (t', out) → ∀ x ∈ out, x.frame ≠ none) ↔
      ¬SameTunnel m t nio pkt pktLen := by
  have hv : ethswInputVlan (m nio) pkt pktLen = some ((m nio).vlanId, false) := by
    rw [inputVlan_qinq htype h14]
    exact if_pos htag
  by_cases h0 : (m nio).vlanId = 0
  · have hdrop : ethswReceive m t nio pkt pktLen = some (t, []) := by
      rw [ethswReceive, hv]
      simp [h0]
    rw [forall_receive hdrop]
    exact iff_of_true (by simp) fun h => h.1 h0
  · have hsent := @receive_forward m t nio pkt pktLen .qinq _ _ hv h0 (vector_qinq htype)
    rw [forall_receive hsent, SameTunnel]
    constructor
    · rintro hall ⟨-, op, hop, hpeer⟩
      obtain ⟨x, hx, hnone⟩ := (@ivQinq_none m ⟨pkt, pktLen, nio, (m nio).vlanId, false⟩ op
        hshort).mpr hpeer
      exact hall x (List.mem_flatMap.mpr ⟨op, hop, hx⟩) hnone
    · intro hpeer x hx hnone
      obtain ⟨op, hop, hxop⟩ := List.mem_flatMap.mp hx
      exact hpeer ⟨h0, op, hop, (@ivQinq_none m ⟨pkt, pktLen, nio, (m nio).vlanId, false⟩ op
        hshort).mp ⟨x, hxop, hnone⟩⟩

theorem lengths_of_run (h : ∀ v tag iv op x, ethswInputVlan (m nio) pkt pktLen = some (v, tag) →
      (m nio).vlanInputVector = some iv → x ∈ iv.run m ⟨pkt, pktLen, nio, v, tag⟩ op →
        x.frame ≠ none) :
    ∀ t' out, ethswReceive m t nio pkt pktLen = some (t', out) → ∀ x ∈ out, x.frame ≠ none := by
  intro t' out hout x hx
  rcases ethswReceive_cases hout with ⟨-, rfl, -⟩ | ⟨v, tag, h0, hv, -, -⟩
  · cases hx
  · obtain ⟨iv, hiv⟩ := exists_vector hv
    rw [receive_forward hv h0 hiv] at hout
    cases hout
    obtain ⟨op, -, hxop⟩ := List.mem_flatMap.mp hx
    exact h v tag iv op x hv hiv hxop

theorem headerReads_lt {d : NetioDesc} {b : Nat} (hb : 14 ≤ b)
    (htag : d.vlanPortType = .dot1q → Tagged pkt → 16 ≤ b) :
    ∀ o ∈ headerReads d pkt pktLen, o < b := by
  intro o ho
  rw [headerReads] at ho
  split at ho
  · cases ho
  · rw [List.mem_append] at ho
    rcases ho with ho | ho
    · cases htype : d.vlanPortType with
      | unset => simp [htype] at ho
      | access => simp [htype] at ho
      | isl => exact absurd htype d.not_isl
      | qinq =>
        simp [htype] at ho
        omega
      | dot1q =>
        simp only [htype] at ho
        split at ho
        · rename_i htagged
          have := htag htype htagged
          simp at ho
          omega
        · simp at ho
          omega
    · split at ho
      · split at ho
        · rw [List.mem_range] at ho
          omega
        · cases ho
      · cases ho

theorem headerReads_tagged {d : NetioDesc} (htype : d.vlanPortType = .dot1q) (h14 : 14 ≤ pktLen)
    (htag : Tagged pkt) : 15 ∈ headerReads d pkt pktLen := by
  rw [Tagged] at htag
  rw [headerReads, if_neg (by simp only [nEthHlen]; omega), htype]
  simp [htag]

theorem ivDot1q_untagged (htype : (m nio).vlanPortType = .dot1q) (h14 : 14 ≤ pktLen)
    (htag : ¬Tagged pkt) : ethswInputVlan (m nio) pkt pktLen = some ((m nio).vlanId, false) := by
  rw [ethswInputVlan, if_neg (by simp only [nEthHlen]; omega), htype]
  exact if_neg htag

/-- A frame is safe exactly when its tag is in it or is not looked at. -/
theorem frameSafe_iff (m : Netios) (t : EthswTable) {nio : NioPtr} (pkt : List Byte) {pktLen : Nat}
    (htype : (m nio).vlanPortType ∈ [PortType.access, .dot1q, .qinq]) (h14 : 14 ≤ pktLen) :
    FrameSafe m t nio pkt pktLen ↔ TagFits m t nio pkt pktLen := by
  rw [TagFits]
  by_cases hlen : 16 ≤ pktLen
  · refine iff_of_true ⟨headerReads_lt (by omega) fun _ _ => hlen, ?_⟩ (Or.inl hlen)
    exact lengths_of_run fun v tag iv op x _ _ hx => frame_of_run hlen hx
  · rw [or_iff_right hlen]
    simp only [List.mem_cons, List.not_mem_nil, or_false] at htype
    rcases htype with htype | htype | htype
    · refine iff_of_true ⟨headerReads_lt h14 fun hc => ?_, ?_⟩ (Or.inl htype)
      · rw [htype] at hc
        cases hc
      · refine lengths_of_run fun v tag iv op x _ hiv hx => ?_
        rw [(m nio).vector_eq, htype] at hiv
        cases hiv
        exact frame_of_ivAccess hx
    · by_cases htag : Tagged pkt
      · refine iff_of_false (fun h => ?_) (by simp [htype, htag])
        have hread := h.headers 15 (headerReads_tagged htype h14 htag)
        omega
      · refine iff_of_true ⟨headerReads_lt h14 fun _ hc => absurd hc htag, ?_⟩
          (Or.inr (Or.inl htag))
        refine lengths_of_run fun v tag iv op x hv hiv hx => ?_
        rw [ivDot1q_untagged htype h14 htag] at hv
        cases hv
        rw [(m nio).vector_eq, htype] at hiv
        cases hiv
        exact frame_of_ivAccess hx
    · have hheaders : ∀ o ∈ headerReads (m nio) pkt pktLen, o < pktLen := by
        refine headerReads_lt h14 fun hc => ?_
        rw [htype] at hc
        cases hc
      by_cases htag : Tagged pkt
      · have hlengths := @qinq_lengths m t nio pkt pktLen htype h14 (by omega) htag
        simp only [htype, htag, reduceCtorEq, not_true_eq_false, false_or, true_and]
        exact ⟨fun h => hlengths.mp h.lengths, fun h => ⟨hheaders, hlengths.mpr h⟩⟩
      · refine iff_of_true ⟨hheaders, ?_⟩ (Or.inr (Or.inl htag))
        refine lengths_of_run fun v tag iv op x hv _ _ => ?_
        rw [Tagged] at htag
        rw [inputVlan_qinq htype h14, if_neg htag] at hv
        cases hv

def trunkAndAccess : System :=
  (ethswSetAccessPort (ethswSetDot1qPort twoPorts "nio1" 1).1 "nio2" 2).1

/-- A tagged frame that ends after the type, and the two bytes of the buffer that follow it. -/
def truncatedFrame : List Byte := [0, 0, 0, 0, 0, 7, 0, 0, 0, 0, 0, 9, 0x81, 0, 0, 2]

theorem frameSafe_tagged :
    FrameSafe trunkAndAccess.netio trunkAndAccess.table 1 truncatedFrame 16 :=
  (frameSafe_iff _ _ _ (by decide) (by decide)).mpr (Or.inl (by decide))

theorem not_frameSafe :
    (ethswReceive trunkAndAccess.netio trunkAndAccess.table 1 truncatedFrame 14).map Prod.snd =
        some [⟨2, none⟩] ∧
      14 ∈ headerReads (trunkAndAccess.netio 1) truncatedFrame 14 ∧
        ¬FrameSafe trunkAndAccess.netio trunkAndAccess.table 1 truncatedFrame 14 := by
  have hread : 14 ∈ headerReads (trunkAndAccess.netio 1) truncatedFrame 14 := by decide
  refine ⟨by decide, hread, fun h => ?_⟩
  exact absurd (h.headers 14 hread) (by decide)

end Dynamips.Ethsw
