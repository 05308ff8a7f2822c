import Dynamips.Bcm5600Forward

/-! The ports that the BCM5600 sends a received frame on, and the tags of what
it sends there. -/
set_option autoImplicit false

namespace Dynamips.Bcm5600

def sentPorts (l : List Sent) : List (Nat × Frame) :=
  l.filterMap fun
    | .port i frame => some (i, frame)
    | _ => none

def Nm16esw.InTrunk (d : Nm16esw) (trunkId : BitVec 32) (i : Nat) : Prop :=
  (d.ptable i).trunkId = some trunkId ∧ (d.tbmap trunkId.toNat).getLsbD i = true

def Nm16esw.Apart (d : Nm16esw) (a b : Nat × Frame) : Prop :=
  a.1 ≠ b.1 ∧ ∀ t, ¬(d.InTrunk t a.1 ∧ d.InTrunk t b.1)

variable {d : Nm16esw} {p : Pkt}

/-! What is not sent on a port. -/

def Pkt.rewritten (p : Pkt) : Frame :=
  match p.origVlan with
  | none => p.pushDot1q
  | some _ => p.popDot1q

def Nm16esw.SameTrunks (d d' : Nm16esw) : Prop := d'.ptable = d.ptable ∧ d'.tbmap = d.tbmap

theorem SameTrunks.trans {d' d'' : Nm16esw} (h : d.SameTrunks d') (h' : d'.SameTrunks d'') :
    d.SameTrunks d'' :=
  ⟨h'.1.trans h.1, h'.2.trans h.2⟩

end Dynamips.Bcm5600
