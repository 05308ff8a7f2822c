import Dynamips.VttyIoChannel
import Mathlib.Logic.Relation

/-! Every run of the asynchronous terminals: what holds of each channel, of the
buffer being written, and of the events that are delivered. -/
set_option autoImplicit false

namespace Dynamips.VttyIo

open Runs

abbrev Channel.Moves : Channel → Channel → Prop := Relation.ReflTransGen Channel.Move

variable {s s' t : Terminals} {ch ch' : Channel}

theorem Channel.Moves.inv (hm : Channel.Moves ch ch') (h : ch.Inv) : ch'.Inv := by
  induction hm with
  | refl => exact h
  | tail _ hm ih => exact hm.inv ih

theorem Channel.Moves.keeps (hm : Channel.Moves ch ch') (h : ch.Inv) : ch.Keeps ch' := by
  induction hm with
  | refl => exact Channel.Keeps.same rfl rfl
  | tail hms hm ih => exact ih.trans (hm.keeps (Channel.Moves.inv hms h))

theorem Channel.Moves.inactive (hm : Channel.Moves ch ch') (h : ch.active = false) :
    ch'.active = false := by
  induction hm with
  | refl => exact h
  | tail _ hm ih => exact hm.inactive ih

theorem Channel.Moves.named (hm : Channel.Moves ch ch') :
    ch'.fd = ch.fd ∧ ch'.owner = ch.owner := by
  induction hm with
  | refl => exact ⟨rfl, rfl⟩
  | tail _ hm ih => exact ⟨hm.named.1.trans ih.1, hm.named.2.trans ih.2⟩

/-- A channel as `accept` and `add` make it -/
def Channel.Born (ch : Channel) : Prop :=
  ∃ (e : Nat) (fd : Int) (ready reading failing : Bool),
    ch = { Channel.new e fd with ready := ready, reading := reading, failing := failing }

theorem Channel.Born.inv (h : ch.Born) : ch.Inv := by
  obtain ⟨e, fd, ready, reading, failing, rfl⟩ := h
  exact Channel.new_inv e fd ready reading failing

def Terminals.flags (s : Terminals) (e : Nat) : Bool × Bool :=
  ((s.endpoint e).active, (s.endpoint e).closing)

/-- The maps of the endpoints hold their own channels, under their descriptors. -/
def Terminals.Mapped (s : Terminals) : Prop :=
  ∀ e, ∀ x ∈ (s.endpoint e).channels,
    x.2 < s.channelCount ∧ (s.channel x.2).fd = x.1 ∧ (s.channel x.2).owner = e

/-- The channels of `s` took steps, and those of `s'` that are new were made.
The endpoints outside of `D` are as active as before, and those in it no more. -/
structure Lift (D : Nat → Prop) (s s' : Terminals) : Prop where
  count : s.channelCount ≤ s'.channelCount
  old : ∀ c, c < s.channelCount → Channel.Moves (s.channel c) (s'.channel c)
  new : ∀ c, s.channelCount ≤ c → c < s'.channelCount →
    ∃ ch, Channel.Born ch ∧ Channel.Moves ch (s'.channel c)
  grow : s.endpointCount ≤ s'.endpointCount
  flags : ∀ e, ¬ D e → s'.flags e = s.flags e
  fades : ∀ e, e < s.endpointCount ∨ s'.endpointCount ≤ e →
    (s'.endpoint e).active ≤ (s.endpoint e).active ∧
      (s.endpoint e).closing ≤ (s'.endpoint e).closing
  mapped : s.Mapped → s'.Mapped

variable {D D' : Nat → Prop}

theorem fades_of_flags {e : Nat} (h : s'.flags e = s.flags e) :
    (s'.endpoint e).active ≤ (s.endpoint e).active ∧
      (s.endpoint e).closing ≤ (s'.endpoint e).closing := by
  simp only [Terminals.flags, Prod.mk.injEq] at h
  rw [h.1, h.2]
  exact ⟨Bool.le_refl _, Bool.le_refl _⟩

theorem Lift.mono (h : Lift D s s') (hD : ∀ e, D e → D' e) : Lift D' s s' :=
  ⟨h.count, h.old, h.new, h.grow, fun e he => h.flags e fun hd => he (hD e hd), h.fades,
    h.mapped⟩

theorem Lift.same (hcount : s'.channelCount = s.channelCount) (hch : s'.channel = s.channel)
    (hgrow : s'.endpointCount = s.endpointCount) (hend : s'.endpoint = s.endpoint) :
    Lift D s s' where
  count := Nat.le_of_eq hcount.symm
  old := fun _ _ => hch ▸ Relation.ReflTransGen.refl
  new := fun _ hc hc' => absurd hc' (hcount ▸ Nat.not_lt.mpr hc)
  grow := Nat.le_of_eq hgrow.symm
  flags := fun _ _ => by simp only [Terminals.flags, hend]
  fades := fun _ _ => fades_of_flags (by simp only [Terminals.flags, hend])
  mapped := by
    intro hm e x hx
    rw [hend] at hx
    rw [hcount, hch]
    exact hm e x hx

theorem Lift.trans (h₁ : Lift D s s') (h₂ : Lift D s' t) : Lift D s t where
  count := h₁.count.trans h₂.count
  old := fun c hc => (h₁.old c hc).trans (h₂.old c (Nat.lt_of_lt_of_le hc h₁.count))
  new := by
    intro c hc hct
    by_cases hc' : c < s'.channelCount
    · obtain ⟨ch, hborn, hm⟩ := h₁.new c hc hc'
      exact ⟨ch, hborn, hm.trans (h₂.old c hc')⟩
    · exact h₂.new c (Nat.le_of_not_lt hc') hct
  grow := h₁.grow.trans h₂.grow
  flags := fun e he => (h₂.flags e he).trans (h₁.flags e he)
  fades := by
    intro e he
    have hfirst := h₁.fades e (he.imp_right h₂.grow.trans)
    have hsecond := h₂.fades e (he.imp_left fun hlt => Nat.lt_of_lt_of_le hlt h₁.grow)
    exact ⟨Bool.le_trans hsecond.1 hfirst.1, Bool.le_trans hfirst.2 hsecond.2⟩
  mapped := fun hm => h₂.mapped (h₁.mapped hm)

theorem Lift.update {c : Nat} (hcount : s'.channelCount = s.channelCount)
    (hch : s'.channel = Function.update s.channel c ch) (hm' : Channel.Moves (s.channel c) ch)
    (hgrow : s'.endpointCount = s.endpointCount) (hflags : ∀ e, s'.flags e = s.flags e)
    (hmap : ∀ e, (s'.endpoint e).channels ⊆ (s.endpoint e).channels) : Lift D s s' where
  count := Nat.le_of_eq hcount.symm
  old := by
    intro x _
    by_cases hx : x = c
    · rw [hch, hx, Function.update_self]
      exact hm'
    · rw [hch, Function.update_of_ne hx]
  new := fun _ hc hc' => absurd hc' (hcount ▸ Nat.not_lt.mpr hc)
  grow := Nat.le_of_eq hgrow.symm
  flags := fun e _ => hflags e
  fades := fun e _ => fades_of_flags (hflags e)
  mapped := by
    intro hm e x hx
    obtain ⟨hlt, hfd, howner⟩ := hm e x (hmap e hx)
    rw [hcount, hch]
    by_cases heq : x.2 = c
    · rw [heq, Function.update_self, hm'.named.1, hm'.named.2, ← heq]
      exact ⟨heq ▸ hlt, hfd, howner⟩
    · rw [Function.update_of_ne heq]
      exact ⟨hlt, hfd, howner⟩

/-- What the threads hold: none of it is changed by what happens to the channels. -/
def Terminals.threads (s : Terminals) : Phase × Bool × Option (Nat × Nat) :=
  (s.phase, s.running, s.removing)

namespace Terminals

theorem flags_update (s : Terminals) (e x : Nat) (m : List (Int × Nat)) :
    ({ s with endpoint := Function.update s.endpoint e { s.endpoint e with channels := m } }
      : Terminals).flags x = s.flags x := by
  by_cases hx : x = e
  · simp only [flags, hx, Function.update_self]
  · simp only [flags, Function.update_of_ne hx]

theorem erase_subset {κ : Type} [DecidableEq κ] (key : κ) (m : List (κ × Nat)) :
    erase key m ⊆ m :=
  fun _ hx => (List.mem_filter.mp hx).1

theorem cancel_subset (s : Terminals) (c e : Nat) :
    ((s.cancel c).endpoint e).channels ⊆ (s.endpoint e).channels := by
  by_cases he : e = (s.channel c).owner
  · simp only [cancel, he, Function.update_self]
    exact erase_subset _ _
  · simp only [cancel, Function.update_of_ne he]
    exact fun _ hx => hx

theorem mem_emplace {κ : Type} [LT κ] [DecidableEq κ] [DecidableLT κ] {key : κ} {y : Nat}
    {m : List (κ × Nat)} {x : κ × Nat} (hx : x ∈ emplace key y m) : x ∈ m ∨ x = (key, y) := by
  induction m with
  | nil => exact Or.inr (List.mem_singleton.mp hx)
  | cons z m ih =>
    simp only [emplace] at hx
    split_ifs at hx with heq hlt
    · exact Or.inl hx
    · simp only [List.mem_cons] at hx ⊢
      exact hx.elim Or.inr fun h => Or.inl h
    · simp only [List.mem_cons] at hx ⊢
      cases hx with
      | inl hz => exact Or.inl (Or.inl hz)
      | inr hx => exact (ih hx).imp_left Or.inr

theorem lift_cancel (s : Terminals) (c : Nat) : Lift D s (s.cancel c) :=
  Lift.update rfl rfl (Relation.ReflTransGen.single (Channel.Move.cancel _)) rfl
    (s.flags_update _ · _) (s.cancel_subset c)

theorem lift_enqueue (s : Terminals) (c : Nat) (data : List Byte) (fault : Bool) :
    Lift D s (s.enqueue c data fault).2 := by
  unfold enqueue
  cases he : (s.channel c).enqueue data fault with
  | some ch =>
    exact Lift.update rfl rfl (Relation.ReflTransGen.single (Channel.Move.enqueue he)) rfl
      (fun _ => rfl) fun _ _ hx => hx
  | none => exact s.lift_cancel c

theorem threads_enqueue (s : Terminals) (c : Nat) (data : List Byte) (fault : Bool) :
    (s.enqueue c data fault).2.threads = s.threads := by
  unfold enqueue
  split
  · rfl
  · rfl

theorem lift_connect (s : Terminals) (e : Nat) (fd : Int) (hborn : ch.Born)
    (hnamed : ch.fd = fd ∧ ch.owner = e) : Lift D s (s.connect e fd ch) where
  count := Nat.le_succ _
  old := by
    intro c hc
    simp only [connect]
    rw [Function.update_of_ne (Nat.ne_of_lt hc)]
  new := by
    intro c hc hc'
    have heq : c = s.channelCount := Nat.le_antisymm (Nat.le_of_lt_succ hc') hc
    refine ⟨ch, hborn, ?_⟩
    simp only [connect, heq, Function.update_self]
    exact Relation.ReflTransGen.refl
  grow := Nat.le_refl _
  flags := fun x _ => s.flags_update e x _
  fades := fun x _ => fades_of_flags (s.flags_update e x _)
  mapped := by
    intro hm y x hx
    have hold : x ∈ (s.endpoint y).channels → x.2 < s.channelCount + 1 ∧
        (Function.update s.channel s.channelCount ch x.2).fd = x.1 ∧
        (Function.update s.channel s.channelCount ch x.2).owner = y := by
      intro hx
      obtain ⟨hlt, hfd, howner⟩ := hm y x hx
      rw [Function.update_of_ne (Nat.ne_of_lt hlt)]
      exact ⟨Nat.lt_succ_of_lt hlt, hfd, howner⟩
    by_cases heq : y = e
    · subst heq
      simp only [connect, Function.update_self] at hx ⊢
      cases mem_emplace hx with
      | inl hx => exact hold hx
      | inr hx =>
        subst hx
        simp only [Function.update_self]
        exact ⟨Nat.lt_succ_self _, hnamed⟩
    · simp only [connect, Function.update_of_ne heq] at hx ⊢
      exact hold hx

theorem lift_opened (e : Nat) (fds : List Int) (s : Terminals) :
    Lift D s (opened e fds s) ∧ (opened e fds s).threads = s.threads := by
  induction fds generalizing s with
  | nil => exact ⟨Lift.same rfl rfl rfl rfl, rfl⟩
  | cons fd fds ih =>
    obtain ⟨hl, ht⟩ := ih (s.connect e fd { Channel.new e fd with ready := true, reading := true })
    exact ⟨(s.lift_connect e fd ⟨e, fd, true, true, false, rfl⟩ ⟨rfl, rfl⟩).trans hl, ht⟩

theorem lift_cancelChannels (e n : Nat) (s : Terminals) :
    Lift D s (cancelChannels e n s) ∧ (cancelChannels e n s).threads = s.threads := by
  induction n generalizing s with
  | zero => exact ⟨Lift.same rfl rfl rfl rfl, rfl⟩
  | succ n ih =>
    simp only [cancelChannels]
    split
    · exact ⟨Lift.same rfl rfl rfl rfl, rfl⟩
    · rename_i x _ _
      obtain ⟨hl, ht⟩ := ih (s.cancel x.2)
      exact ⟨(s.lift_cancel _).trans hl, ht⟩

theorem lift_setEndpoint (s : Terminals) (e : Nat) (x : Endpoint)
    (hx : x.active ≤ (s.endpoint e).active ∧ (s.endpoint e).closing ≤ x.closing)
    (hmap : x.channels = (s.endpoint e).channels) :
    Lift (· = e) s (s.setEndpoint e x) where
  count := Nat.le_refl _
  old := fun _ _ => Relation.ReflTransGen.refl
  new := fun _ hc hc' => absurd hc' (Nat.not_lt.mpr hc)
  grow := Nat.le_refl _
  flags := by
    intro y hy
    simp only [flags, setEndpoint, Function.update_of_ne hy]
  fades := by
    intro y _
    by_cases heq : y = e
    · subst heq
      simp only [setEndpoint, Function.update_self]
      exact hx
    · simp only [setEndpoint, Function.update_of_ne heq]
      exact ⟨Bool.le_refl _, Bool.le_refl _⟩
  mapped := by
    intro hm y z hz
    by_cases heq : y = e
    · subst heq
      simp only [setEndpoint, Function.update_self, hmap] at hz
      exact hm y z hz
    · simp only [setEndpoint, Function.update_of_ne heq] at hz
      exact hm y z hz

theorem lift_cancelOwner (s : Terminals) (e : Nat) :
    Lift (· = e) s (s.cancelOwner e) ∧ (s.cancelOwner e).threads = s.threads := by
  have hclose := s.lift_setEndpoint e { s.endpoint e with active := false, closing := true }
    ⟨Bool.false_le _, Bool.le_true _⟩ rfl
  obtain ⟨hl, ht⟩ := lift_cancelChannels (D := (· = e)) e (s.endpoint e).channels.length
    (s.setEndpoint e { s.endpoint e with active := false, closing := true })
  exact ⟨hclose.trans hl, ht⟩

theorem lift_stopEndpoints (m : List (Nat × Nat)) (s : Terminals) :
    Lift (fun _ => True) s (stopEndpoints m s) ∧ (stopEndpoints m s).threads = s.threads := by
  induction m generalizing s with
  | nil => exact ⟨Lift.same rfl rfl rfl rfl, rfl⟩
  | cons x m ih =>
    obtain ⟨hc, htc⟩ := s.lift_cancelOwner x.2
    obtain ⟨hl, ht⟩ := ih (s.cancelOwner x.2)
    exact ⟨(hc.mono fun _ _ => trivial).trans hl, ht.trans htc⟩

theorem lift_writeAll (data : List Byte) (faults : Nat → Bool) (cs : List Nat) (s : Terminals) :
    Lift D s (writeAll data faults cs s) ∧ (writeAll data faults cs s).threads = s.threads := by
  induction cs generalizing s with
  | nil => exact ⟨Lift.same rfl rfl rfl rfl, rfl⟩
  | cons c cs ih =>
    obtain ⟨hl, ht⟩ := ih (s.enqueue c data (faults c)).2
    exact ⟨(s.lift_enqueue c data _).trans hl, ht.trans (s.threads_enqueue c data _)⟩

theorem lift_add (s : Terminals) (native : Nat) (fds : List Int) (configured : Bool) :
    Lift (· = s.endpointCount) s (s.add native fds configured) ∧
      (s.add native fds configured).threads = s.threads := by
  unfold add
  dsimp only
  split
  · exact ⟨Lift.same rfl rfl rfl rfl, rfl⟩
  · generalize hs₁ : ({ s.setEndpoint s.endpointCount ⟨native, true, false, []⟩ with
        endpointCount := s.endpointCount + 1
        endpoints := emplace native s.endpointCount s.endpoints } : Terminals) = s₁
    have hfirst : Lift (· = s.endpointCount) s s₁ := by
      rw [← hs₁]
      refine ⟨Nat.le_refl _, fun _ _ => Relation.ReflTransGen.refl,
        fun _ hc hc' => absurd hc' (Nat.not_lt.mpr hc), Nat.le_succ _, fun e he => ?_, ?_, ?_⟩
      · simp only [flags, setEndpoint, Function.update_of_ne he]
      · intro e he
        have hne : e ≠ s.endpointCount := by
          simp only at he
          omega
        simp only [setEndpoint, Function.update_of_ne hne]
        exact ⟨Bool.le_refl _, Bool.le_refl _⟩
      · intro hm e x hx
        by_cases heq : e = s.endpointCount
        · simp [setEndpoint, heq] at hx
        · simp only [setEndpoint, Function.update_of_ne heq] at hx
          exact hm e x hx
    have hthreads : s₁.threads = s.threads := by
      rw [← hs₁]
      rfl
    obtain ⟨hl, ht⟩ := lift_opened (D := (· = s.endpointCount)) s.endpointCount fds s₁
    split
    · exact ⟨hfirst.trans hl, ht.trans hthreads⟩
    · obtain ⟨hc, htc⟩ := (opened s.endpointCount fds s₁).lift_cancelOwner s.endpointCount
      exact ⟨((hfirst.trans hl).trans hc).trans (Lift.same rfl rfl rfl rfl),
        htc.trans (ht.trans hthreads)⟩

theorem lift_accepted (s : Terminals) (e : Nat) (connection : Option Int) (armed : Bool) :
    Lift D s (s.accepted e connection armed) ∧
      (s.accepted e connection armed).threads = s.threads := by
  unfold accepted
  dsimp only
  split
  · exact ⟨Lift.same rfl rfl rfl rfl, rfl⟩
  · cases connection with
    | none => exact ⟨Lift.same rfl rfl rfl rfl, rfl⟩
    | some fd =>
      exact ⟨(s.lift_connect e fd ⟨e, fd, false, false, !armed, rfl⟩ ⟨rfl, rfl⟩).trans
        (Lift.same rfl rfl rfl rfl), rfl⟩

theorem lift_armed (s : Terminals) (c : Nat) (ready reading : Bool) :
    Lift D s (s.setChannel c { s.channel c with ready := ready, reading := reading }) :=
  Lift.update rfl rfl (Relation.ReflTransGen.single (Channel.Move.armed _ _ _)) rfl
    (fun _ => rfl) fun _ _ hx => hx

theorem lift_readDone (s : Terminals) (c : Nat) (size : Option Nat) :
    Lift D s (s.readDone c size) ∧ (s.readDone c size).threads = s.threads := by
  have harmed := s.lift_armed (D := D) c (s.channel c).ready false
  unfold readDone
  dsimp only
  split
  · exact ⟨harmed, rfl⟩
  · split
    · exact ⟨harmed.trans (lift_cancel _ c), rfl⟩
    · exact ⟨harmed.trans (lift_cancel _ c), rfl⟩
    · exact ⟨harmed.trans (Lift.same rfl rfl rfl rfl), rfl⟩

theorem lift_complete (s : Terminals) (ev : Input) (armed : Bool) :
    Lift D s (s.complete ev armed) := by
  unfold complete
  dsimp only
  split
  · exact Lift.same rfl rfl rfl rfl
  · have harmed := s.lift_armed (D := D) ev.source
      ((s.channel ev.source).ready || ev.connected) armed
    split
    · exact harmed
    · exact harmed.trans (lift_cancel _ _)

theorem lift_write (s : Terminals) (native : Nat) (data : List Byte) (faults : Nat → Bool) :
    Lift D s (s.write native data faults) ∧
      (s.write native data faults).threads = s.threads := by
  unfold write
  split
  · exact ⟨Lift.same rfl rfl rfl rfl, rfl⟩
  · split_ifs
    · exact ⟨Lift.same rfl rfl rfl rfl, rfl⟩
    · exact ⟨Lift.same rfl rfl rfl rfl, rfl⟩
    · exact lift_writeAll _ _ _ _

theorem lift_advance {i : Nat} {fault : Bool} (h : s.advance i fault = some s') :
    Lift D s s' ∧ s'.threads = s.threads := by
  unfold advance at h
  split at h
  · cases h
  · split at h
    · cases h
      exact ⟨Lift.same rfl rfl rfl rfl, rfl⟩
    · rename_i w _ _ c rest _
      dsimp only at h
      split_ifs at h with hdone hroom
      · cases h
        exact ⟨Lift.same rfl rfl rfl rfl, rfl⟩
      · have henq := s.lift_enqueue (D := D) c
          (w.remaining.take (min w.remaining.length BUFFER_SIZE)) fault
        have hthr := s.threads_enqueue c
          (w.remaining.take (min w.remaining.length BUFFER_SIZE)) fault
        split at h
        · rename_i heq
          cases h
          rw [heq] at henq hthr
          exact ⟨henq.trans (Lift.same rfl rfl rfl rfl), hthr⟩
        · rename_i heq
          cases h
          rw [heq] at henq hthr
          exact ⟨henq.trans (Lift.same rfl rfl rfl rfl), hthr⟩

theorem lift_timeout {i : Nat} (h : s.timeout i = some s') :
    Lift D s s' ∧ s'.threads = s.threads := by
  unfold timeout at h
  split at h
  · cases h
  · split at h
    · cases h
    · split_ifs at h
      cases h
      exact ⟨(s.lift_cancel _).trans (Lift.same rfl rfl rfl rfl), rfl⟩

theorem lift_write_fd (s : Terminals) (fd : Int) (data : List Byte) (fault : Bool) :
    Lift D s (s.write_fd fd data fault) ∧ (s.write_fd fd data fault).threads = s.threads := by
  unfold write_fd
  split
  · exact ⟨Lift.same rfl rfl rfl rfl, rfl⟩
  · exact ⟨s.lift_enqueue _ data fault, s.threads_enqueue _ data fault⟩

theorem lift_remove (s : Terminals) (native : Nat) :
    Lift (fun _ => True) s (s.remove native) := by
  unfold remove
  split
  · exact Lift.same rfl rfl rfl rfl
  · rename_i e _
    have hset := s.lift_setEndpoint e { s.endpoint e with closing := true }
      ⟨Bool.le_refl _, Bool.le_true _⟩ rfl
    exact (hset.mono fun _ _ => trivial).trans (Lift.same rfl rfl rfl rfl)

theorem lift_removed (h : s.removed = some s') :
    Lift (fun _ => True) s s' ∧ s'.phase = s.phase ∧ s.removing ≠ none := by
  unfold removed at h
  split at h
  · cases h
  · rename_i native e hremoving
    cases h
    obtain ⟨hl, ht⟩ := s.lift_cancelOwner e
    refine ⟨(hl.mono fun _ _ => trivial).trans (Lift.same rfl rfl rfl rfl),
      congrArg Prod.fst ht, ?_⟩
    rw [hremoving]
    nofun

theorem lift_stop (s : Terminals) : Lift (fun _ => True) s s.stop ∧ s.stop.phase = s.phase := by
  unfold stop
  split
  · exact ⟨Lift.same rfl rfl rfl rfl, rfl⟩
  · obtain ⟨hl, ht⟩ := lift_stopEndpoints s.endpoints s
    exact ⟨hl.trans (Lift.same rfl rfl rfl rfl), congrArg Prod.fst ht⟩

theorem written_spec {c k : Nat} {ok fault : Bool} (h : s.written c k ok fault = some s') :
    s'.channelCount = s.channelCount ∧ (∀ x, x ≠ c → s'.channel x = s.channel x) ∧
      s'.endpointCount = s.endpointCount ∧ (∀ e, s'.flags e = s.flags e) ∧
      s'.threads = s.threads ∧ (∀ e, (s'.endpoint e).channels ⊆ (s.endpoint e).channels) ∧
      Channel.Finish k (s.channel c) (s'.channel c) := by
  unfold written at h
  cases hw : (s.channel c).writing[k]? with
  | none => simp [hw] at h
  | some w =>
    simp only [hw] at h
    split_ifs at h with hpart hact hok hempty hfault
    · cases h
      refine ⟨rfl, fun x hx => Function.update_of_ne hx _ _, rfl, fun _ => rfl, rfl,
        fun _ _ hx => hx, ?_⟩
      simp only [setChannel, Function.update_self]
      exact Channel.Finish.dropped hw hact
    · cases h
      refine ⟨rfl, fun x hx => ?_, rfl, (flags_update _ _ · _), rfl,
        (cancel_subset _ c), ?_⟩
      · simp only [cancel, setChannel]
        rw [Function.update_of_ne hx, Function.update_of_ne hx]
      · simp only [cancel, setChannel, Function.update_self]
        exact Channel.Finish.cancelled hw
    all_goals
      cases h
      refine ⟨rfl, fun x hx => ?_, rfl, fun _ => rfl, rfl, fun _ _ hx => hx, ?_⟩
      · simp only [setChannel]
        rw [Function.update_of_ne hx, Function.update_of_ne hx]
      simp only [setChannel, Function.update_self]
      have ha : (s.channel c).active = true := by simpa using hact
      have hoff : w.offset = w.size := by simpa [hok] using hpart
    · have hlast := Channel.Finish.stopped false hw ha hoff
        fun _ => List.isEmpty_iff.mp hempty
      rw [Bool.or_false] at hlast
      exact hlast
    · have hfailed := Channel.Finish.stopped true hw ha hoff nofun
      rw [Bool.or_true] at hfailed
      exact hfailed
    · obtain ⟨b, rest, htail⟩ := List.exists_cons_of_ne_nil fun hnil =>
        hempty (List.isEmpty_iff.mpr hnil)
      exact Channel.Finish.next hw ha hoff htail

end Terminals

open Terminals

inductive Turn (s s' : Terminals) : Prop where
  | calm : (∀ e, e ≠ s.endpointCount → s'.flags e = s.flags e) → s'.threads = s.threads →
    Turn s s'
  | away : (∀ ev, s'.phase ≠ Phase.handling ev) → Turn s s'
  | ending : s.removing ≠ none ∨ s.running = false → s'.phase = s.phase → Turn s s'
  | handle (ev : Input) : s'.phase = Phase.handling ev → s.io_active ev → s.running →
    s.listFree → s'.threads = (Phase.handling ev, s.running, s.removing) →
    s'.endpoint = s.endpoint → Turn s s'

theorem Turn.of_lift (h : Lift (· = s.endpointCount) s s' ∧ s'.threads = s.threads) :
    Turn s s' :=
  Turn.calm (fun e he => h.1.flags e he) h.2

theorem listFree_phase (h : s.listFree) (ev : Input) : s.phase ≠ Phase.handling ev := by
  intro hp
  simp [listFree, hp] at h

/-- Every step: the handler of a write, or steps of channels. -/
theorem step_spec {a : Action} (h : step s a = some s') :
    Turn s s' ∧ (Lift (fun _ => True) s s' ∨ ∃ c k ok fault,
      a = Action.written c k ok fault ∧ s.written c k ok fault = some s') := by
  have hall : ∀ {D : Nat → Prop}, Lift D s s' → Lift (fun _ => True) s s' :=
    fun hl => hl.mono fun _ _ => trivial
  cases a with
  | written c k ok fault =>
    obtain ⟨-, -, -, hflags, hthreads, -, -⟩ := written_spec h
    exact ⟨Turn.calm (fun e _ => hflags e) hthreads, Or.inr ⟨c, k, ok, fault, rfl, h⟩⟩
  | init =>
    simp only [step] at h
    split_ifs at h
    cases h
    exact ⟨Turn.away nofun, Or.inl (Lift.same rfl rfl rfl rfl)⟩
  | quit =>
    simp only [step] at h
    split_ifs at h with hfree
    cases h
    exact ⟨Turn.away (listFree_phase hfree), Or.inl (Lift.same rfl rfl rfl rfl)⟩
  | stop =>
    simp only [step] at h
    split_ifs at h with hrun
    cases h
    obtain ⟨hl, hphase⟩ := s.lift_stop
    exact ⟨Turn.ending (Or.inr (by simpa using hrun)) hphase, Or.inl hl⟩
  | add native fds configured =>
    cases h
    exact ⟨Turn.of_lift (s.lift_add native fds configured),
      Or.inl (hall (s.lift_add native fds configured).1)⟩
  | remove native =>
    simp only [step] at h
    split_ifs at h with hfree
    cases h
    refine ⟨Turn.away fun ev => ?_, Or.inl (s.lift_remove native)⟩
    have hphase := listFree_phase hfree ev
    unfold remove
    split
    · exact hphase
    · exact hphase
  | removed =>
    obtain ⟨hl, hphase, hremoving⟩ := lift_removed h
    exact ⟨Turn.ending (Or.inl hremoving) hphase, Or.inl hl⟩
  | write native data faults =>
    cases h
    have hl := s.lift_write (D := (· = s.endpointCount)) native data faults
    exact ⟨Turn.of_lift hl, Or.inl (hall hl.1)⟩
  | advance i fault =>
    have hl := lift_advance (D := (· = s.endpointCount)) h
    exact ⟨Turn.of_lift hl, Or.inl (hall hl.1)⟩
  | timeout i =>
    have hl := lift_timeout (D := (· = s.endpointCount)) h
    exact ⟨Turn.of_lift hl, Or.inl (hall hl.1)⟩
  | write_fd fd data fault =>
    cases h
    have hl := s.lift_write_fd (D := (· = s.endpointCount)) fd data fault
    exact ⟨Turn.of_lift hl, Or.inl (hall hl.1)⟩
  | accepted e connection armed =>
    simp only [step] at h
    split_ifs at h
    cases h
    have hl := s.lift_accepted (D := (· = s.endpointCount)) e connection armed
    exact ⟨Turn.of_lift hl, Or.inl (hall hl.1)⟩
  | readDone c size =>
    simp only [step] at h
    split_ifs at h
    cases h
    have hl := s.lift_readDone (D := (· = s.endpointCount)) c size
    exact ⟨Turn.of_lift hl, Or.inl (hall hl.1)⟩
  | transfer c k n =>
    simp only [step, Option.map_eq_some_iff] at h
    obtain ⟨ch, ht, rfl⟩ := h
    have hl : Lift (· = s.endpointCount) s (s.setChannel c ch) :=
      Lift.update rfl rfl (Relation.ReflTransGen.single (Channel.Move.transfer ht)) rfl
        (fun _ => rfl) fun _ _ hx => hx
    exact ⟨Turn.of_lift ⟨hl, rfl⟩, Or.inl (hall hl)⟩
  | failed c =>
    simp only [step] at h
    split_ifs at h
    cases h
    have hfailed := Channel.Move.failed (s.channel c)
    have hl : Lift (· = s.endpointCount) s
        ((s.setChannel c { s.channel c with failing := false }).cancel c) := by
      refine @Lift.update _ _ _ _ c rfl ?_ (Relation.ReflTransGen.single hfailed) rfl
        (flags_update _ _ · _) (cancel_subset _ c)
      simp only [cancel, setChannel, Function.update_self, Function.update_idem]
    exact ⟨Turn.of_lift ⟨hl, rfl⟩, Or.inl (hall hl)⟩
  | take =>
    simp only [step] at h
    split at h
    · split_ifs at h
      · cases h
        exact ⟨Turn.away nofun, Or.inl (Lift.same rfl rfl rfl rfl)⟩
      · cases h
        exact ⟨Turn.away nofun, Or.inl (Lift.same rfl rfl rfl rfl)⟩
    · split_ifs at h
      cases h
      exact ⟨Turn.away nofun, Or.inl (Lift.same rfl rfl rfl rfl)⟩
    · cases h
  | check listed armed =>
    simp only [step] at h
    split at h
    · split_ifs at h
      cases h
      exact ⟨Turn.away nofun, Or.inl (Lift.same rfl rfl rfl rfl)⟩
    · rename_i ev hphase
      split_ifs at h with hfree hrun hactive
      · cases h
        exact ⟨Turn.away nofun, Or.inl ((s.lift_complete _ armed).trans
          (Lift.same rfl rfl rfl rfl))⟩
      · cases h
        rw [Bool.and_eq_true] at hactive
        refine ⟨Turn.handle ev rfl hactive.1 (by simpa using hrun) (by simpa using hfree) rfl
          rfl, Or.inl (Lift.same rfl rfl rfl rfl)⟩
      · cases h
        exact ⟨Turn.away nofun, Or.inl (Lift.same rfl rfl rfl rfl)⟩
    · cases h
  | process =>
    simp only [step] at h
    split at h
    · cases h
      exact ⟨Turn.away nofun, Or.inl (Lift.same rfl rfl rfl rfl)⟩
    · cases h
  | complete armed =>
    simp only [step] at h
    split at h
    · cases h
      exact ⟨Turn.away nofun, Or.inl ((s.lift_complete _ armed).trans
        (Lift.same rfl rfl rfl rfl))⟩
    · cases h

structure Terminals.Safe (s : Terminals) : Prop where
  channels : ∀ c, c < s.channelCount → (s.channel c).Inv
  fresh : ∀ e, s.endpointCount ≤ e → (s.endpoint e).active = false
  handling : ∀ ev, s.phase = Phase.handling ev →
    s.running ∧ s.removing = none ∧ s.flags ev.owner = (true, false)
  mapped : s.Mapped

theorem new_safe : Terminals.new.Safe where
  channels := nofun
  fresh := fun _ _ => rfl
  handling := nofun
  mapped := fun _ _ hx => absurd hx List.not_mem_nil

theorem Lift.safe (h : Lift D s s') (hs : s.Safe) :
    (∀ c, c < s'.channelCount → (s'.channel c).Inv) ∧
      ∀ e, s'.endpointCount ≤ e → (s'.endpoint e).active = false := by
  refine ⟨fun c hc => ?_, fun e he => ?_⟩
  · by_cases hold : c < s.channelCount
    · exact (h.old c hold).inv (hs.channels c hold)
    · obtain ⟨ch, hborn, hm⟩ := h.new c (Nat.le_of_not_lt hold) hc
      exact Channel.Moves.inv hm hborn.inv
  · have hfade := (h.fades e (Or.inr he)).1
    rw [hs.fresh e (h.grow.trans he)] at hfade
    exact Bool.eq_false_of_le_false hfade

theorem Turn.safe (h : Turn s s') (hs : s.Safe) (ev : Input)
    (hphase : s'.phase = Phase.handling ev) :
    s'.running ∧ s'.removing = none ∧ s'.flags ev.owner = (true, false) := by
  cases h with
  | calm hflags hthreads =>
    simp only [threads, Prod.mk.injEq] at hthreads
    obtain ⟨hp, hr, hm⟩ := hthreads
    obtain ⟨hrun, hremoving, hflag⟩ := hs.handling ev (hp ▸ hphase)
    refine ⟨hr.trans hrun, hm.trans hremoving, ?_⟩
    rw [hflags, hflag]
    intro heq
    have hfresh := hs.fresh ev.owner (Nat.le_of_eq heq.symm)
    simp [flags, hfresh] at hflag
  | away hno => exact absurd hphase (hno ev)
  | ending hend hp =>
    obtain ⟨hrun, hremoving, -⟩ := hs.handling ev (hp ▸ hphase)
    cases hend with
    | inl hne => exact absurd hremoving hne
    | inr hstop =>
      rw [hrun] at hstop
      cases hstop
  | handle ev' hp hactive hrun hfree hthreads hend =>
    rw [hphase] at hp
    cases hp
    simp only [threads, Prod.mk.injEq] at hthreads
    refine ⟨hthreads.2.1.trans hrun, ?_, ?_⟩
    · rw [hthreads.2.2]
      simp only [listFree, Bool.and_eq_true, Option.isNone_iff_eq_none] at hfree
      exact hfree.1
    · simp only [io_active, Bool.and_eq_true, Bool.not_eq_eq_eq_not, Bool.not_true] at hactive
      simp only [flags, hend, hactive.1.1, hactive.1.2]

theorem step_safe {a : Action} (h : step s a = some s') (hs : s.Safe) : s'.Safe := by
  obtain ⟨hturn, hlift⟩ := step_spec h
  cases hlift with
  | inl hl =>
    obtain ⟨hch, hfresh⟩ := hl.safe hs
    exact ⟨hch, hfresh, hturn.safe hs, hl.mapped hs.mapped⟩
  | inr hw =>
    obtain ⟨c, k, ok, fault, -, hw⟩ := hw
    obtain ⟨hcount, hother, hgrow, hflags, -, hmap, hfinish⟩ := written_spec hw
    refine ⟨fun x hx => ?_, fun e he => ?_, hturn.safe hs, fun e x hx => ?_⟩
    · rw [hcount] at hx
      by_cases heq : x = c
      · rw [heq] at hx ⊢
        exact hfinish.inv (hs.channels c hx)
      · rw [hother x heq]
        exact hs.channels x hx
    · have hflag := hflags e
      simp only [flags, Prod.mk.injEq] at hflag
      rw [hflag.1]
      exact hs.fresh e (hgrow ▸ he)
    · obtain ⟨hlt, hfd, howner⟩ := hs.mapped e x (hmap e hx)
      rw [hcount]
      by_cases heq : x.2 = c
      · rw [heq, hfinish.named.1, hfinish.named.2, ← heq]
        exact ⟨hlt, hfd, howner⟩
      · rw [hother _ heq]
        exact ⟨hlt, hfd, howner⟩

theorem Reachable.safe (h : Reachable s) : s.Safe := by
  obtain ⟨trace, hrun⟩ := h
  exact (hrun.always (fun _ _ _ hp hs => step_safe hs hp) new_safe).1

theorem Reachable.step {a : Action} (h : Reachable s) (hs : step s a = some s') :
    Reachable s' := by
  obtain ⟨trace, hrun⟩ := h
  exact ⟨_, hrun.next hs⟩

def Channel.Accounted (ch : Channel) : Prop :=
  ch.pending = ch.queued.length ∧ ch.pending ≤ queue_limit ∧
    (ch.active → ch.pending = ch.offset + ch.unsent.length)

def Channel.Ordered (ch : Channel) : Prop :=
  ch.wire <+: ch.accepted ∧ (ch.active → ch.accepted = ch.wire ++ ch.unsent)

theorem Channel.Inv.accounted (h : ch.Inv) : ch.Accounted := by
  refine ⟨h.held, h.limit, fun ha => ?_⟩
  have hle : ch.offset ≤ ch.queued.length := by
    cases h.single with
    | inl hw => simp [Channel.offset, hw]
    | inr hw =>
      obtain ⟨w, hw, hsize, hoff, hhead⟩ := hw
      rw [Channel.queued_eq (hhead ha), List.length_append]
      simp only [Channel.offset, hw]
      omega
  rw [h.held, Channel.unsent, List.length_drop]
  omega

theorem Channel.Inv.ordered (h : ch.Inv) : ch.Ordered :=
  ⟨(List.prefix_append _ _).trans h.sent, h.whole⟩

def BuffersKept (s : Terminals) (a : Action) (s' : Terminals) : Prop :=
  ∀ c, c < s.channelCount → ∀ w ∈ (s.channel c).writing,
    0 < (s.channel c).useCount w.buffer ∧
      ((∃ k ok fault, a = Action.written c k ok fault) ∨
        (s'.channel c).buffers w.buffer = (s.channel c).buffers w.buffer ∧
          ∃ v ∈ (s'.channel c).writing, v.buffer = w.buffer)

theorem step_buffers {a : Action} (h : step s a = some s') (hs : s.Safe) :
    BuffersKept s a s' := by
  intro c hc w hw
  have hcount : 0 < (s.channel c).useCount w.buffer := by
    have hpos : 0 < (s.channel c).writing.countP fun v => v.buffer = w.buffer :=
      List.countP_pos_iff.mpr ⟨w, hw, by simp⟩
    simp only [Channel.useCount]
    omega
  refine ⟨hcount, ?_⟩
  cases (step_spec h).2 with
  | inl hl =>
    obtain ⟨hbuf, v, hv, hb, -⟩ := (hl.old c hc).keeps (hs.channels c hc) w hw
    exact Or.inr ⟨hbuf, v, hv, hb⟩
  | inr hwritten =>
    obtain ⟨x, k, ok, fault, ha, hwritten⟩ := hwritten
    by_cases heq : c = x
    · exact Or.inl ⟨k, ok, fault, heq ▸ ha⟩
    · have hother := (written_spec hwritten).2.1 c heq
      rw [hother]
      exact Or.inr ⟨rfl, w, hw, rfl⟩

def Delivers (s : Terminals) (a : Action) (ev : Input) : Prop :=
  ∃ listed armed, a = Action.check listed armed ∧ s.phase = Phase.taken ev ∧ s.io_active ev

def Handles (s : Terminals) (a : Action) (ev : Input) : Prop :=
  a = Action.process ∧ s.phase = Phase.handling ev

def Removed (s : Terminals) (c : Nat) : Prop :=
  c < s.channelCount ∧ (s.channel c).active = false

def Detached (s : Terminals) (e : Nat) : Prop :=
  e < s.endpointCount ∧ (s.endpoint e).closing

theorem step_removed {a : Action} {c : Nat} (h : step s a = some s') (hr : Removed s c) :
    Removed s' c := by
  obtain ⟨hc, hact⟩ := hr
  cases (step_spec h).2 with
  | inl hl => exact ⟨Nat.lt_of_lt_of_le hc hl.count, (hl.old c hc).inactive hact⟩
  | inr hw =>
    obtain ⟨x, k, ok, fault, -, hw⟩ := hw
    obtain ⟨hcount, hother, -, -, -, -, hfinish⟩ := written_spec hw
    refine ⟨hcount ▸ hc, ?_⟩
    by_cases heq : c = x
    · subst heq
      exact hfinish.inactive hact
    · rw [hother c heq]
      exact hact

theorem step_detached {a : Action} {e : Nat} (h : step s a = some s') (hd : Detached s e) :
    Detached s' e := by
  obtain ⟨he, hclosing⟩ := hd
  cases (step_spec h).2 with
  | inl hl =>
    have hfade := (hl.fades e (Or.inl he)).2
    rw [hclosing] at hfade
    exact ⟨Nat.lt_of_lt_of_le he hl.grow, Bool.eq_true_of_true_le hfade⟩
  | inr hw =>
    obtain ⟨x, k, ok, fault, -, hw⟩ := hw
    obtain ⟨-, -, hgrow, hflags, -⟩ := written_spec hw
    have hflag := hflags e
    simp only [flags, Prod.mk.injEq] at hflag
    exact ⟨hgrow ▸ he, hflag.2.trans hclosing⟩

theorem step_handling {a : Action} {ev : Input} (h : step s a = some s')
    (hr : Removed s ev.source) (hphase : s'.phase = Phase.handling ev) :
    s.phase = Phase.handling ev := by
  cases (step_spec h).1 with
  | calm _ hthreads =>
    rw [← hphase]
    exact (congrArg Prod.fst hthreads).symm
  | away hno => exact absurd hphase (hno ev)
  | ending _ hp => exact hp ▸ hphase
  | handle ev' hp hactive =>
    rw [hphase] at hp
    cases hp
    simp [io_active, hr.2] at hactive

theorem run_delivers {trace : List (Terminals × Action)} {a : Action} {ev : Input}
    (hs : Reachable s) (h : Run (fun s a s' => step s a = some s') s trace t) :
    (Removed s ev.source → ¬ Delivers t a ev ∧
      (Handles t a ev → s.phase = Phase.handling ev)) ∧
    (Detached s ev.owner → ¬ Delivers t a ev ∧ ¬ Handles t a ev) := by
  constructor
  · intro hr
    have hrun := h.always (P := fun t => Removed t ev.source ∧
        (t.phase = Phase.handling ev → s.phase = Phase.handling ev))
      (fun x l x' hp hs => ⟨step_removed hs hp.1, fun hph => hp.2 (step_handling hs hp.1 hph)⟩)
      ⟨hr, fun hph => hph⟩
    obtain ⟨⟨hremoved, hphase⟩, -⟩ := hrun
    refine ⟨fun hd => ?_, fun hh => hphase hh.2⟩
    obtain ⟨_, _, -, -, hactive⟩ := hd
    simp [io_active, hremoved.2] at hactive
  · intro hd
    have hrun := h.always (P := fun t => Reachable t ∧ Detached t ev.owner)
      (fun x l x' hp hs => ⟨hp.1.step hs, step_detached hs hp.2⟩) ⟨hs, hd⟩
    obtain ⟨⟨hreach, -, hclosing⟩, -⟩ := hrun
    refine ⟨fun hd => ?_, fun hh => ?_⟩
    · obtain ⟨_, _, -, -, hactive⟩ := hd
      simp [io_active, hclosing] at hactive
    · obtain ⟨-, -, hflags⟩ := hreach.safe.handling ev hh.2
      simp [flags, hclosing] at hflags

/-- In every reachable state the counts are those of the queues and within the
limit, and the sockets have taken the accepted bytes in order; each step keeps
the buffers in flight; and no event is delivered after its channel was removed
or its terminal detached, but one that was being handled then. -/
theorem vtty_io_ok (h : Reachable s) :
    (∀ c, c < s.channelCount → (s.channel c).Accounted ∧ (s.channel c).Ordered) ∧
    (∀ a s', step s a = some s' → BuffersKept s a s') ∧
    ∀ trace t a ev, Run (fun s a s' => step s a = some s') s trace t →
      (Removed s ev.source → ¬ Delivers t a ev ∧
        (Handles t a ev → s.phase = Phase.handling ev)) ∧
      (Detached s ev.owner → ¬ Delivers t a ev ∧ ¬ Handles t a ev) := by
  refine ⟨fun c hc => ?_, fun a s' hs => step_buffers hs h.safe, fun _ _ _ _ => run_delivers h⟩
  have hinv := h.safe.channels c hc
  exact ⟨hinv.accounted, hinv.ordered⟩

theorem reachable_of_execute {actions : List Action} {p : Terminals → Bool}
    (h : (execute step Terminals.new actions).any (fun r => p r.2) = true) :
    ∃ s, Reachable s ∧ p s = true := by
  cases hex : execute step Terminals.new actions with
  | none => simp [hex] at h
  | some r =>
    rw [hex] at h
    exact ⟨r.2, ⟨r.1, run_of_execute hex⟩, h⟩

def writing : List Action :=
  [Action.init, Action.add 7 [5] true, Action.write_fd 5 [0x41, 0x42] false]

theorem vtty_io_ok_writing : ∃ s, Reachable s ∧ (s.channel 0).wire = [0x41] ∧
    (s.channel 0).Accounted ∧ (s.channel 0).Ordered := by
  obtain ⟨s, hs, hp⟩ := @reachable_of_execute (writing ++ [Action.transfer 0 0 1])
    (fun s => s.channelCount = 1 ∧ (s.channel 0).wire = [0x41]) (by decide)
  simp only [Bool.decide_and, Bool.and_eq_true, decide_eq_true_eq] at hp
  exact ⟨s, hs, hp.2, (vtty_io_ok hs).1 0 (by omega)⟩

/-- The count of a channel is more than its unsent bytes while the socket has
taken a part of the first buffer, and an event that was found active is handled
after its channel is removed. -/
theorem not_vtty_io_strict :
    ¬ (∀ s, Reachable s → ∀ c, c < s.channelCount →
      (s.channel c).pending = (s.channel c).unsent.length) ∧
    ¬ (∀ s, Reachable s → ∀ a ev, Handles s a ev → ¬ Removed s ev.source) := by
  constructor
  · intro hall
    obtain ⟨s, hs, hp⟩ := @reachable_of_execute (writing ++ [Action.transfer 0 0 1])
      (fun s => s.channelCount = 1 ∧ (s.channel 0).pending ≠ (s.channel 0).unsent.length)
      (by decide)
    simp only [Bool.decide_and, Bool.and_eq_true, decide_eq_true_eq] at hp
    exact hp.2 (hall s hs 0 (by omega))
  · intro hall
    obtain ⟨s, hs, hp⟩ := @reachable_of_execute
      (writing ++ [Action.readDone 0 (some 1), Action.take, Action.check true true,
        Action.written 0 0 false false])
      (fun s => s.phase = Phase.handling ⟨0, 0, false, 1⟩ ∧ s.channelCount = 1 ∧
        (s.channel 0).active = false) (by decide)
    simp only [Bool.decide_and, Bool.and_eq_true, decide_eq_true_eq] at hp
    exact hall s hs Action.process _ ⟨rfl, hp.1⟩ ⟨by rw [hp.2.1]; exact Nat.one_pos, hp.2.2⟩

end Dynamips.VttyIo
