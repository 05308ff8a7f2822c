import Dynamips.EthSwitchBounds

/-! Where a frame goes: the ports of a flood, the port of a learned station, and
the entry of the source. -/
set_option autoImplicit false

namespace Dynamips.Ethsw

/-- The port of `o` is in the VLAN of a frame, and the input vector of the port of
`d` sends to ports of its type. Access and tunnel ports do not exchange frames. -/
def Eligible (d : NetioDesc) (v : BitVec 16) (tag : Bool) (o : NetioDesc) : Prop :=
  match o.vlanPortType with
  | .access => o.vlanId = v ∧ d.vlanPortType ≠ .qinq
  | .dot1q => True
  | .qinq => o.vlanId = v ∧ (d.vlanPortType = .qinq ∨ d.vlanPortType = .dot1q ∧ tag = true)
  | _ => False

instance (d : NetioDesc) (v : BitVec 16) (tag : Bool) (o : NetioDesc) :
    Decidable (Eligible d v tag o) := by
  unfold Eligible
  split <;> infer_instance

structure Known (t : EthswTable) (v : BitVec 16) (addr : EthAddr) (op : NioPtr) : Prop where
  macAddr : (t.macAddrTable (ethswHashIndex addr v)).macAddr = addr
  vlanId : (t.macAddrTable (ethswHashIndex addr v)).vlanId = v
  nio : (t.macAddrTable (ethswHashIndex addr v)).nio = some op

def slotsOf (t : EthswTable) (op : NioPtr) : Nat :=
  ((List.finRange ETHSW_MAX_NIO).map t.nio).count (some op)

def sentPorts (out : List NetioSend) : List NioPtr := out.map NetioSend.port

structure Delivered (m : Netios) (t : EthswTable) (sp : EthswPacket) (t' : EthswTable)
    (out : List NetioSend) : Prop where
  learned : Known t' sp.inputVlan sp.saddr sp.inputPort
  slots : t'.nio = t.nio
  others : ∀ i, i ≠ ethswHashIndex sp.saddr sp.inputVlan → t'.macAddrTable i = t.macAddrTable i
  flooded : ethAddrIsMcast sp.daddr ∨ (∀ op, ¬ Known t' sp.inputVlan sp.daddr op) →
    ∀ op, (sentPorts out).count op =
      if op ≠ sp.inputPort ∧ Eligible (m sp.inputPort) sp.inputVlan sp.inputTag (m op) then
        slotsOf t op
      else 0
  known : ∀ op, ¬ ethAddrIsMcast sp.daddr → Known t' sp.inputVlan sp.daddr op →
    (∀ o ∈ sentPorts out, o = op) ∧ (op = sp.inputPort → out = []) ∧
      (op ≠ sp.inputPort → Eligible (m sp.inputPort) sp.inputVlan sp.inputTag (m op) →
        sentPorts out = [op])

variable {m : Netios} {t t' : EthswTable} {sp : EthswPacket} {nio op : NioPtr} {pkt : List Byte}
  {pktLen : Nat} {iv : InputVector} {v : BitVec 16} {tag : Bool} {out : List NetioSend}

def OtherVlan (m : Netios) (v : BitVec 16) (op : NioPtr) : Prop :=
  (m op).vlanPortType = .access ∧ (m op).vlanId ≠ v

theorem type_of_vector {d : NetioDesc} (hiv : d.vlanInputVector = some iv) :
    d.vlanPortType.vector = some iv := by
  rw [← d.vector_eq, hiv]

theorem ivAccess_ports (ho : ¬ OtherVlan m sp.inputVlan op) :
    sentPorts (ethswIvAccess m sp op) =
      if (m op).vlanPortType = .dot1q ∨ (m op).vlanPortType = .access ∧ (m op).vlanId = sp.inputVlan
      then [op] else [] := by
  simp only [OtherVlan, not_and, not_not] at ho
  simp only [ethswIvAccess, sentPorts]
  cases htype : (m op).vlanPortType with
  | access => simp [ho htype]
  | dot1q =>
    simp only [true_or, if_true]
    split <;> rfl
  | unset | qinq | isl => simp

theorem run_ports (hiv : (m sp.inputPort).vlanInputVector = some iv)
    (hqinq : (m sp.inputPort).vlanPortType = .qinq → (m sp.inputPort).vlanId = sp.inputVlan)
    (ho : ¬ OtherVlan m sp.inputVlan op) :
    sentPorts (iv.run m sp op) =
      if Eligible (m sp.inputPort) sp.inputVlan sp.inputTag (m op) then [op] else [] := by
  have hvec := type_of_vector hiv
  have haccess := ivAccess_ports ho
  simp only [OtherVlan, not_and, not_not] at ho
  cases hd : (m sp.inputPort).vlanPortType with
  | unset | isl =>
    rw [hd] at hvec
    cases hvec
  | access =>
    rw [hd] at hvec
    cases hvec
    rw [InputVector.run, haccess]
    cases htype : (m op).vlanPortType <;> simp [Eligible, hd, htype]
  | dot1q =>
    rw [hd] at hvec
    cases hvec
    simp only [InputVector.run, ethswIvDot1q]
    cases htag : sp.inputTag with
    | false =>
      simp only [Bool.not_false, if_true, haccess]
      cases htype : (m op).vlanPortType <;> simp [Eligible, hd, htype]
    | true =>
      simp only [Bool.not_true, Bool.false_eq_true, if_false, sentPorts]
      cases htype : (m op).vlanPortType with
      | access => simp [Eligible, hd, htype, ho htype]
      | dot1q =>
        simp only [Eligible, htype, if_true]
        split <;> rfl
      | qinq =>
        by_cases hvlan : (m op).vlanId = sp.inputVlan
        · simp [Eligible, hd, htype, hvlan]
        · simp [Eligible, htype, hvlan]
      | unset | isl => simp [Eligible, htype]
  | qinq =>
    rw [hd] at hvec
    cases hvec
    simp only [InputVector.run, ethswIvQinq, sentPorts, hqinq hd]
    cases htype : (m op).vlanPortType with
    | qinq =>
      by_cases hvlan : sp.inputVlan = (m op).vlanId
      · simp [Eligible, hd, htype, hvlan]
      · simp [Eligible, htype, hvlan, Ne.symm hvlan]
    | dot1q => simp [Eligible, htype]
    | access | unset | isl => simp [Eligible, hd, htype]

theorem flood_count (hrun : ∀ op, ¬ OtherVlan m sp.inputVlan op → sentPorts (iv.run m sp op) =
      if Eligible (m sp.inputPort) sp.inputVlan sp.inputTag (m op) then [op] else [])
    (slots : List (Option NioPtr)) (op : NioPtr) :
    (sentPorts ((slots.filterMap (floodTarget m sp)).flatMap (iv.run m sp))).count op =
      if op ≠ sp.inputPort ∧ Eligible (m sp.inputPort) sp.inputVlan sp.inputTag (m op) then
        slots.count (some op)
      else 0 := by
  induction slots with
  | nil => simp [sentPorts]
  | cons o slots ih =>
    cases o with
    | none => simpa [floodTarget] using ih
    | some q =>
      have hother : OtherVlan m sp.inputVlan q →
          ¬ Eligible (m sp.inputPort) sp.inputVlan sp.inputTag (m q) := by
        intro h hq
        simp only [Eligible, h.1] at hq
        exact h.2 hq.1
      by_cases hskip : q = sp.inputPort ∨ OtherVlan m sp.inputVlan q
      · have htarget : floodTarget m sp (some q) = none := by
          simp only [floodTarget, Option.filter_eq_none_iff, Option.some.injEq, forall_eq',
            decide_eq_true_eq]
          simp only [OtherVlan] at hskip
          grind
        rw [List.filterMap_cons_none htarget, ih, List.count_cons]
        by_cases hq : q = op
        · subst hq
          have hnot : ¬ (q ≠ sp.inputPort ∧
              Eligible (m sp.inputPort) sp.inputVlan sp.inputTag (m q)) := by
            rintro ⟨hne, helig⟩
            exact hskip.elim hne fun h => hother h helig
          rw [if_neg hnot, if_neg hnot]
        · simp [hq]
      · obtain ⟨hself, hvlan⟩ := not_or.mp hskip
        have htarget : floodTarget m sp (some q) = some q := by
          rw [floodTarget, Option.filter_some, if_pos]
          simp only [OtherVlan] at hvlan
          simp [hself, hvlan]
        rw [List.filterMap_cons_some htarget, List.flatMap_cons, sentPorts, List.map_append,
          List.count_append, List.count_cons]
        simp only [sentPorts] at ih hrun
        rw [ih, hrun q hvlan]
        by_cases hq : q = op
        · subst hq
          by_cases helig : Eligible (m sp.inputPort) sp.inputVlan sp.inputTag (m q)
          · simp [hself, helig, Nat.add_comm]
          · simp [helig]
        · by_cases helig : Eligible (m sp.inputPort) sp.inputVlan sp.inputTag (m q)
          · simp [helig, hq]
          · simp [helig, hq]

theorem inputVlan_qinq_eq (hv : ethswInputVlan (m nio) pkt pktLen = some (v, tag))
    (hd : (m nio).vlanPortType = .qinq) : (m nio).vlanId = v := by
  simp only [ethswInputVlan, hd] at hv
  split at hv
  · cases hv
  · split at hv
    · cases hv
      rfl
    · cases hv

theorem known_learn (t : EthswTable) (sp : EthswPacket) :
    Known (ethswLearn t sp) sp.inputVlan sp.saddr sp.inputPort := by
  constructor <;> simp [ethswLearn]

theorem outPorts_flood (h0 : sp.inputVlan ≠ 0)
    (h : ethAddrIsMcast sp.daddr ∨ ∀ op, ¬ Known t sp.inputVlan sp.daddr op) :
    outPorts m t sp =
      ((List.finRange ETHSW_MAX_NIO).map t.nio).filterMap (floodTarget m sp) := by
  have hmiss : ethAddrIsMcast sp.daddr ∨
      (t.macAddrTable (ethswHashIndex sp.daddr sp.inputVlan)).macAddr ≠ sp.daddr ∨
      (t.macAddrTable (ethswHashIndex sp.daddr sp.inputVlan)).vlanId ≠ sp.inputVlan := by
    refine h.imp id fun hunknown => ?_
    by_contra hmatch
    simp only [not_or, not_not] at hmatch
    obtain ⟨hmac, hvlan⟩ := hmatch
    obtain ⟨op, hop⟩ := Option.ne_none_iff_exists'.mp
      ((t.macAddrTable (ethswHashIndex sp.daddr sp.inputVlan)).live (by rwa [hvlan]))
    exact hunknown op ⟨hmac, hvlan, hop⟩
  simp only [outPorts, if_pos hmiss, List.filterMap_map]
  rfl

theorem outPorts_known (hcast : ¬ ethAddrIsMcast sp.daddr)
    (h : Known t sp.inputVlan sp.daddr op) :
    outPorts m t sp = if op = sp.inputPort then [] else [op] := by
  simp only [outPorts, hcast, h.macAddr, h.vlanId, h.nio, ne_eq, not_true_eq_false, or_false,
    if_false, Bool.false_eq_true, Option.some.injEq, Option.toList]
  split <;> simp_all

/-- Every frame that is taken in is delivered. -/
theorem frame_delivered (t : EthswTable) (h0 : v ≠ 0)
    (hv : ethswInputVlan (m nio) pkt pktLen = some (v, tag)) :
    ∃ t' out, ethswReceive m t nio pkt pktLen = some (t', out) ∧
      Delivered m t ⟨pkt, pktLen, nio, v, tag⟩ t' out := by
  obtain ⟨iv, hiv⟩ := exists_vector hv
  refine ⟨_, _, receive_forward hv h0 hiv, ?_⟩
  have hrun : ∀ op, ¬ OtherVlan m v op → sentPorts (iv.run m ⟨pkt, pktLen, nio, v, tag⟩ op) =
      if Eligible (m nio) v tag (m op) then [op] else [] := fun op ho =>
    @run_ports m ⟨pkt, pktLen, nio, v, tag⟩ op iv hiv (inputVlan_qinq_eq hv) ho
  refine ⟨known_learn _ _, rfl, fun i hi => Function.update_of_ne hi _ _, ?_, ?_⟩
  · intro hunknown op
    rw [outPorts_flood h0 hunknown, flood_count hrun]
    rfl
  · intro op hcast hknown
    rw [outPorts_known hcast hknown]
    refine ⟨fun o ho => ?_, fun hself => ?_, fun hother helig => ?_⟩
    · simp only [sentPorts, List.mem_map, List.mem_flatMap] at ho
      obtain ⟨x, ⟨q, hq, hx⟩, rfl⟩ := ho
      rw [port_of_run hx]
      split at hq
      · cases hq
      · exact List.mem_singleton.mp hq
    · rw [if_pos hself, List.flatMap_nil]
    · have hvlan : ¬ OtherVlan m v op := by
        intro h
        simp only [Eligible, h.1] at helig
        exact h.2 helig.1
      rw [if_neg hother, List.flatMap_singleton, hrun op hvlan, if_pos helig]

theorem frame_delivered_two_ports :
    ∃ t' out, ethswReceive twoPorts.netio learned.table 1 (frameTo 7 9) 14 = some (t', out) ∧
      Delivered twoPorts.netio learned.table ⟨frameTo 7 9, 14, 1, 1, false⟩ t' out :=
  frame_delivered learned.table (by decide) rfl

/-- A frame from the port of the station that it is for is sent nowhere. -/
theorem not_frame_delivered : ¬ ∀ (m : Netios) (t t' : EthswTable) (nio op : NioPtr)
    (pkt : List Byte) (pktLen : Nat) (v : BitVec 16) (tag : Bool) (out : List NetioSend), v ≠ 0 →
      ethswInputVlan (m nio) pkt pktLen = some (v, tag) →
      ethswReceive m t nio pkt pktLen = some (t', out) → ¬ ethAddrIsMcast (pkt.take 6) →
      Known t' v (pkt.take 6) op → sentPorts out = [op] := by
  intro h
  have hsent := h twoPorts.netio learned.table _ 2 2 (frameTo 7 9) 14 1 false [] (by decide) rfl rfl
    (by decide) ⟨rfl, rfl, rfl⟩
  cases hsent

end Dynamips.Ethsw
