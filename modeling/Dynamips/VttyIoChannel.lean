import Dynamips.VttyIo
import Mathlib.Tactic.SplitIfs

/-! One channel of the asynchronous terminals: its queue, its count of pending
bytes, and the write in flight. -/
set_option autoImplicit false

namespace Dynamips.VttyIo

def Channel.queued (ch : Channel) : List Byte := ch.output.flatMap ch.buffers

def Channel.offset (ch : Channel) : Nat :=
  match ch.writing with
  | [] => 0
  | w :: _ => w.offset

def Channel.unsent (ch : Channel) : List Byte := ch.queued.drop ch.offset

def Channel.inflight (ch : Channel) : List Byte :=
  match ch.writing with
  | [] => []
  | w :: _ => (ch.buffers w.buffer).drop w.offset

def Channel.useCount (ch : Channel) (b : Nat) : Nat :=
  ch.output.count b + ch.writing.countP fun w => w.buffer = b

structure Channel.Shape (ch : Channel) : Prop where
  distinct : ch.output.Nodup
  allocated : ∀ b ∈ ch.output, b < ch.allocated
  size : ∀ b, (ch.buffers b).length ≤ BUFFER_SIZE
  fresh : ∀ b, ch.allocated ≤ b → ch.buffers b = []

variable {ch ch' : Channel} {data : List Byte}

/-- What `enqueue` does to the queue: the data is added at its end, and the
buffer at its front stays as it is. -/
structure Channel.Appended (ch ch' : Channel) (data : List Byte) : Prop where
  shape : ch'.Shape
  queued : ch'.queued = ch.queued ++ data
  pending : ch'.pending = ch.pending + data.length
  head : ∀ b, ch.output.head? = some b → ch'.output.head? = some b
  kept : ∀ b, ch.output.head? = some b → ch'.buffers b = ch.buffers b
  rest : ch' = { ch with
    output := ch'.output, buffers := ch'.buffers, allocated := ch'.allocated,
    pending := ch'.pending }

theorem Channel.Appended.nil (h : ch.Shape) : ch.Appended ch [] where
  shape := h
  queued := by simp
  pending := rfl
  head := fun _ hb => hb
  kept := fun _ _ => rfl
  rest := rfl

theorem Channel.Appended.trans {ch₁ ch₂ : Channel} {d₁ d₂ : List Byte}
    (h₁ : ch.Appended ch₁ d₁) (h₂ : ch₁.Appended ch₂ d₂) : ch.Appended ch₂ (d₁ ++ d₂) where
  shape := h₂.shape
  queued := by rw [h₂.queued, h₁.queued, List.append_assoc]
  pending := by rw [h₂.pending, h₁.pending, List.length_append, Nat.add_assoc]
  head := fun b hb => h₂.head b (h₁.head b hb)
  kept := fun b hb => (h₂.kept b (h₁.head b hb)).trans (h₁.kept b hb)
  rest := by rw [h₂.rest, h₁.rest]

theorem Channel.Shape.push (h : ch.Shape) :
    ({ ch with output := ch.output ++ [ch.allocated], allocated := ch.allocated + 1 }
      : Channel).Shape where
  distinct := by
    rw [List.nodup_append]
    refine ⟨h.distinct, by simp, fun a ha b hb => ?_⟩
    have hlt := h.allocated a ha
    simp only [List.mem_singleton] at hb
    omega
  allocated := by
    intro b hb
    simp only [List.mem_append, List.mem_singleton] at hb
    cases hb with
    | inl hb => exact Nat.lt_succ_of_lt (h.allocated b hb)
    | inr hb => simp [hb]
  size := h.size
  fresh := fun b hb => h.fresh b (Nat.le_of_succ_le hb)

theorem Channel.make_spec (h : ch.Shape) :
    ch.Appended ch.make [] ∧ ∃ front b, ch.make.output = front ++ [b] ∧
      (ch.buffers b).length < BUFFER_SIZE ∧ ch.make.buffers = ch.buffers ∧
      ∀ x, ch.output.head? = some x → x ≠ b := by
  have hnew : ch.buffers ch.allocated = [] := h.fresh _ (Nat.le_refl _)
  have hsize : (ch.buffers ch.allocated).length < BUFFER_SIZE := by simp [hnew, BUFFER_SIZE]
  have hpush : ch.Appended
      { ch with output := ch.output ++ [ch.allocated], allocated := ch.allocated + 1 } [] := by
    constructor
    · exact h.push
    · simp [Channel.queued, hnew]
    · rfl
    · intro b hb
      simp [hb]
    · simp
    · rfl
  have hother : ∀ x, ch.output.head? = some x → x ≠ ch.allocated := by
    intro x hx
    have hlt := h.allocated x (List.mem_of_head? hx)
    omega
  unfold Channel.make
  cases hlast : ch.output.getLast? with
  | none =>
    have hnil := List.getLast?_eq_none_iff.mp hlast
    rw [hnil, List.nil_append] at hpush
    exact ⟨hpush, [], ch.allocated, rfl, hsize, rfl, hother⟩
  | some b =>
    obtain ⟨front, hout⟩ := List.getLast?_eq_some_iff.mp hlast
    by_cases hnext : ch.output.length < 2 ∨ (ch.buffers b).length = BUFFER_SIZE
    · simp only [hnext, ↓reduceIte]
      exact ⟨hpush, ch.output, ch.allocated, rfl, hsize, trivial, hother⟩
    · simp only [hnext, ↓reduceIte]
      rw [not_or, Nat.not_lt] at hnext
      refine ⟨Channel.Appended.nil h, front, b, hout, ?_, trivial, ?_⟩
      · have := h.size b
        omega
      · intro x hx hxb
        have hnodup := h.distinct
        rw [hout] at hx hnodup hnext
        cases front with
        | nil => simp at hnext
        | cons y front =>
          simp only [List.cons_append, List.head?_cons, Option.some.injEq] at hx
          simp [hx, hxb] at hnodup

theorem flatMap_update {front : List Nat} {b : Nat} {f : Nat → List Byte} {x : List Byte}
    (hb : b ∉ front) : front.flatMap (Function.update f b x) = front.flatMap f := by
  induction front with
  | nil => rfl
  | cons y front ih =>
    simp only [List.mem_cons, not_or] at hb
    rw [List.flatMap_cons, List.flatMap_cons, ih hb.2,
      Function.update_of_ne (Ne.symm hb.1)]

theorem Channel.appended_turn (h : ch.Shape) :
    ch.Appended (ch.make.insert (data.take (min data.length ch.make.room)))
      (data.take (min data.length ch.make.room)) ∧ 0 < ch.make.room := by
  obtain ⟨hmake, front, b, hout, hroom, hbuf, hne⟩ := Channel.make_spec h
  have hlast : ch.make.output.getLast? = some b := by simp [hout]
  have hr : ch.make.room = BUFFER_SIZE - (ch.buffers b).length := by
    simp only [Channel.room, hlast, hbuf]
  generalize hd : data.take (min data.length ch.make.room) = d
  have hlen : (ch.buffers b ++ d).length ≤ BUFFER_SIZE := by
    rw [← hd, hr, List.length_append, List.length_take]
    omega
  have hins : ch.make.insert d = { ch.make with
      buffers := Function.update ch.buffers b (ch.buffers b ++ d)
      pending := ch.make.pending + d.length } := by
    simp only [Channel.insert, hlast, hbuf]
  have hnodup := hmake.shape.distinct
  rw [hout, List.nodup_append] at hnodup
  have hfront : b ∉ front := fun hb => hnodup.2.2 b hb b (by simp) rfl
  rw [hins]
  refine ⟨⟨⟨hmake.shape.distinct, hmake.shape.allocated, ?_, ?_⟩, ?_, ?_, hmake.head, ?_, ?_⟩,
    by omega⟩
  · intro x
    by_cases hx : x = b
    · simp only [hx, Function.update_self]
      exact hlen
    · simp only [Function.update_of_ne hx]
      exact h.size x
  · intro x hx
    have hlt : b < ch.make.allocated := hmake.shape.allocated b (by simp [hout])
    simp only at hx ⊢
    rw [Function.update_of_ne (by omega), ← hbuf]
    exact hmake.shape.fresh x hx
  · have hq : front.flatMap ch.buffers ++ ch.buffers b = ch.queued := by
      have := hmake.queued
      simpa [Channel.queued, hout, hbuf] using this
    simp only [Channel.queued, hout, List.flatMap_append, flatMap_update hfront]
    rw [← Channel.queued, ← hq]
    simp
  · have hp : ch.make.pending = ch.pending := by simpa using hmake.pending
    simp only [hp]
  · intro x hx
    simp only
    rw [Function.update_of_ne (hne x hx)]
  · simp only
    rw [hmake.rest]

theorem Channel.append_appended {n : Nat} (h : ch.Shape) (hn : data.length ≤ n) :
    ch.Appended (Channel.append n ch data) data := by
  induction n generalizing ch data with
  | zero =>
    rw [List.length_eq_zero_iff.mp (Nat.le_zero.mp hn)]
    exact Channel.Appended.nil h
  | succ n ih =>
    cases data with
    | nil => exact Channel.Appended.nil h
    | cons x rest =>
      obtain ⟨hturn, hroom⟩ := @Channel.appended_turn ch (x :: rest) h
      have hlen : ((x :: rest).drop (min (x :: rest).length ch.make.room)).length ≤ n := by
        simp only [List.length_drop, List.length_cons] at hn ⊢
        omega
      have := hturn.trans (ih hturn.shape hlen)
      rw [List.take_append_drop] at this
      exact this

structure Channel.Inv (ch : Channel) : Prop where
  shape : ch.Shape
  held : ch.pending = ch.queued.length
  limit : ch.pending ≤ queue_limit
  cancelled : ch.active = false → ch.output = []
  single : ch.writing = [] ∨ ∃ w, ch.writing = [w] ∧ w.size = (ch.buffers w.buffer).length ∧
    w.offset ≤ w.size ∧ (ch.active → ch.output.head? = some w.buffer)
  idle : ch.active → ch.writing = [] → ch.failing = false → ch.output = []
  whole : ch.active → ch.accepted = ch.wire ++ ch.unsent
  sent : ch.wire ++ ch.inflight <+: ch.accepted

theorem Channel.idle_inv (hshape : ch.Shape) (hw : ch.writing = []) (ha : ch.active)
    (hheld : ch.pending = ch.queued.length) (hlimit : ch.pending ≤ queue_limit)
    (hacc : ch.accepted = ch.wire ++ ch.queued) (hidle : ch.failing = false → ch.output = []) :
    ch.Inv where
  shape := hshape
  held := hheld
  limit := hlimit
  cancelled := by simp [ha]
  single := Or.inl hw
  idle := fun _ _ hf => hidle hf
  whole := by simp [Channel.unsent, Channel.offset, hw, hacc]
  sent := by simp [Channel.inflight, hw, hacc]

theorem Channel.new_inv (owner : Nat) (fd : Int) (ready reading failing : Bool) :
    ({ Channel.new owner fd with ready := ready, reading := reading, failing := failing }
      : Channel).Inv := by
  apply Channel.idle_inv
  · exact ⟨List.nodup_nil, by simp [Channel.new], by simp [Channel.new], by simp [Channel.new]⟩
  all_goals simp [Channel.new, Channel.queued]

theorem Channel.cancel_inv (h : ch.Inv) : ch.cancel.Inv where
  shape := ⟨List.nodup_nil, by simp [Channel.cancel], h.shape.size, h.shape.fresh⟩
  held := rfl
  limit := Nat.zero_le _
  cancelled := fun _ => rfl
  single := by
    cases h.single with
    | inl hw => exact Or.inl hw
    | inr hw =>
      obtain ⟨w, hw, hsize, hoff, -⟩ := hw
      exact Or.inr ⟨w, hw, hsize, hoff, nofun⟩
  idle := nofun
  whole := nofun
  sent := h.sent

theorem Channel.queued_eq {b : Nat} (hb : ch.output.head? = some b) :
    ch.queued = ch.buffers b ++ ch.output.tail.flatMap ch.buffers := by
  rw [List.head?_eq_some_iff] at hb
  obtain ⟨rest, hout⟩ := hb
  simp only [Channel.queued, hout, List.flatMap_cons, List.tail_cons]

theorem Channel.unsent_eq {w : Write} (hw : ch.writing = [w])
    (hoff : w.offset ≤ (ch.buffers w.buffer).length) (hb : ch.output.head? = some w.buffer) :
    ch.unsent = ch.inflight ++ ch.output.tail.flatMap ch.buffers := by
  simp only [Channel.unsent, Channel.offset, Channel.inflight, hw]
  rw [Channel.queued_eq hb, List.drop_append_of_le_length hoff]

def Channel.completed (ch : Channel) (k : Nat) : Channel :=
  { ch with writing := ch.writing.eraseIdx k }

/-- What the handler of `send` does after a write without an error -/
def Channel.popped (ch : Channel) (size : Nat) : Channel :=
  { ch with pending := ch.pending - size, output := ch.output.tail }

theorem Channel.Inv.write (h : ch.Inv) {k : Nat} {w : Write} (hw : ch.writing[k]? = some w) :
    k = 0 ∧ ch.writing = [w] ∧ w.size = (ch.buffers w.buffer).length ∧ w.offset ≤ w.size ∧
      (ch.active → ch.output.head? = some w.buffer) := by
  cases h.single with
  | inl hnil => simp [hnil] at hw
  | inr hone =>
    obtain ⟨v, hv, hrest⟩ := hone
    cases k with
    | succ k => simp [hv] at hw
    | zero =>
      simp only [hv, List.getElem?_cons_zero, Option.some.injEq] at hw
      subst hw
      exact ⟨rfl, hv, hrest⟩

theorem Channel.completed_cancel_inv (h : ch.Inv) {k : Nat} {w : Write}
    (hw : ch.writing[k]? = some w) : (ch.completed k).cancel.Inv := by
  obtain ⟨rfl, hone, -⟩ := h.write hw
  have hnone : (ch.completed 0).cancel.writing = [] := by
    simp [Channel.completed, Channel.cancel, hone]
  have hc := (Channel.cancel_inv h).shape
  constructor
  · exact ⟨hc.distinct, hc.allocated, hc.size, hc.fresh⟩
  · rfl
  · exact Nat.zero_le _
  · exact fun _ => rfl
  · exact Or.inl hnone
  · nofun
  · nofun
  · simp only [Channel.inflight, hnone, List.append_nil]
    exact (List.prefix_append _ _).trans h.sent

theorem Channel.completed_inv (h : ch.Inv) {k : Nat} {w : Write} (hw : ch.writing[k]? = some w)
    (ha : ch.active = false) : (ch.completed k).Inv := by
  have hout := h.cancelled ha
  have hp : ch.pending = 0 := by simp [h.held, Channel.queued, hout]
  have heq : (ch.completed k).cancel = ch.completed k := by
    simp only [Channel.cancel, Channel.completed]
    rw [← ha, ← hout, ← hp]
  rw [← heq]
  exact Channel.completed_cancel_inv h hw

theorem Channel.popped_spec (h : ch.Inv) (ha : ch.active) {k : Nat} {w : Write}
    (hw : ch.writing[k]? = some w) (hoff : w.offset = w.size) :
    (ch.completed k).writing = [] ∧ ch.output = w.buffer :: ch.output.tail ∧
      ch.accepted = ch.wire ++ ch.output.tail.flatMap ch.buffers ∧
      ch.pending - (ch.buffers w.buffer).length = (ch.output.tail.flatMap ch.buffers).length := by
  obtain ⟨rfl, hone, hsize, hle, hhead⟩ := h.write hw
  have hhead := hhead ha
  refine ⟨by simp [Channel.completed, hone], ?_, ?_, ?_⟩
  · obtain ⟨rest, hout⟩ := List.head?_eq_some_iff.mp hhead
    simp [hout]
  · rw [h.whole ha, Channel.unsent_eq hone (hsize ▸ hle) hhead]
    simp [Channel.inflight, hone, hoff, hsize]
  · rw [h.held, Channel.queued_eq hhead, List.length_append]
    omega

theorem Channel.popped_shape (h : ch.Shape) (k size : Nat) :
    ((ch.completed k).popped size).Shape where
  distinct := h.distinct.sublist (List.tail_sublist _)
  allocated := fun b hb => h.allocated b (List.mem_of_mem_tail hb)
  size := h.size
  fresh := h.fresh

theorem Channel.popped_inv (h : ch.Inv) (ha : ch.active) {k : Nat} {w : Write}
    (hw : ch.writing[k]? = some w) (hoff : w.offset = w.size) (failing : Bool)
    (hidle : failing = false → ch.failing = false → ch.output.tail = []) :
    ({ (ch.completed k).popped (ch.buffers w.buffer).length with
        failing := ch.failing || failing } : Channel).Inv := by
  obtain ⟨hnone, -, hacc, hpend⟩ := Channel.popped_spec h ha hw hoff
  have hshape := Channel.popped_shape h.shape k (ch.buffers w.buffer).length
  apply Channel.idle_inv
  · exact ⟨hshape.distinct, hshape.allocated, hshape.size, hshape.fresh⟩
  · exact hnone
  · exact ha
  · exact hpend
  · exact Nat.le_trans (Nat.sub_le _ _) h.limit
  · exact hacc
  · intro hf
    simp only [Bool.or_eq_false_iff] at hf
    exact hidle hf.2 hf.1

theorem Channel.send_inv {b : Nat} {rest : List Nat} (hshape : ch.Shape)
    (hout : ch.output = b :: rest) (hw : ch.writing = []) (ha : ch.active)
    (hheld : ch.pending = ch.queued.length) (hlimit : ch.pending ≤ queue_limit)
    (hacc : ch.accepted = ch.wire ++ ch.queued) : ch.send.Inv := by
  have hsend : ch.send = { ch with writing := [⟨b, (ch.buffers b).length, 0⟩] } := by
    simp only [Channel.send, hout, hw, List.nil_append]
  rw [hsend]
  constructor
  · exact ⟨hshape.distinct, hshape.allocated, hshape.size, hshape.fresh⟩
  · exact hheld
  · exact hlimit
  · intro hact
    rw [show ch.active = false from hact] at ha
    cases ha
  · exact Or.inr ⟨_, rfl, rfl, Nat.zero_le _, fun _ => by simp [hout]⟩
  · intro _ hnone
    cases hnone
  · intro _
    exact hacc
  · refine ⟨rest.flatMap ch.buffers, ?_⟩
    simp only [Channel.inflight, List.drop_zero]
    rw [hacc, List.append_assoc]
    simp only [Channel.queued, hout, List.flatMap_cons]

theorem Channel.enqueue_inv {fault : Bool} (h : ch.Inv)
    (he : ch.enqueue data fault = some ch') : ch'.Inv := by
  unfold Channel.enqueue at he
  split_ifs at he with hact hroom
  simp only [Option.some.injEq] at he
  have ha : ch.active = true := by simpa using hact
  have happ := Channel.append_appended h.shape (Nat.le_refl data.length)
  generalize Channel.append data.length ch data = ch₁ at he happ
  have hrest := happ.rest
  have hlimit : ch₁.pending ≤ queue_limit := by
    have := h.limit
    rw [happ.pending]
    omega
  have hheld : ch₁.pending = ch₁.queued.length := by
    rw [happ.pending, happ.queued, List.length_append, h.held]
  have hfields : ch₁.active = ch.active ∧ ch₁.writing = ch.writing ∧ ch₁.wire = ch.wire ∧
      ch₁.failing = ch.failing := by
    rw [hrest]
    exact ⟨rfl, rfl, rfl, rfl⟩
  obtain ⟨hact₁, hw₁, hwire₁, hfail₁⟩ := hfields
  have hshape : ({ ch₁ with accepted := ch.accepted ++ data } : Channel).Shape :=
    ⟨happ.shape.distinct, happ.shape.allocated, happ.shape.size, happ.shape.fresh⟩
  split_ifs at he with hsend
  · -- the queue was empty: no write is in flight, and the first one starts
    rw [Bool.and_eq_true, List.isEmpty_iff] at hsend
    obtain ⟨hnil, hne⟩ := hsend
    have hw : ch.writing = [] := by
      cases h.single with
      | inl hw => exact hw
      | inr hw =>
        obtain ⟨w, -, -, -, hhead⟩ := hw
        simp [hnil] at hhead
        rw [ha] at hhead
        cases hhead
    have hacc : ch.accepted = ch.wire := by
      rw [h.whole ha]
      simp [Channel.unsent, Channel.queued, hnil]
    cases hout : ch₁.output with
    | nil => simp [hout] at hne
    | cons b rest =>
      rw [← he]
      apply Channel.send_inv hshape hout (hw₁.trans hw) (hact₁.trans ha) hheld hlimit
      have hq := happ.queued
      have hq₀ : ch.queued = [] := by simp [Channel.queued, hnil]
      rw [hq₀, List.nil_append] at hq
      simp only [hacc, hwire₁]
      rw [← hq]
      rfl
  · rw [← he]
    have hsingle : ch₁.writing = [] ∨ ∃ w, ch₁.writing = [w] ∧
        w.size = (ch₁.buffers w.buffer).length ∧ w.offset ≤ w.size ∧
        (ch₁.active → ch₁.output.head? = some w.buffer) := by
      cases h.single with
      | inl hw => exact Or.inl (hw₁.trans hw)
      | inr hw =>
        obtain ⟨w, hw, hsize, hoff, hhead⟩ := hw
        have hhead := hhead ha
        refine Or.inr ⟨w, hw₁.trans hw, ?_, hoff, fun _ => happ.head _ hhead⟩
        rw [happ.kept _ hhead]
        exact hsize
    have hoffset : ch₁.offset = ch.offset := by simp only [Channel.offset, hw₁]
    have hle : ch.offset ≤ ch.queued.length := by
      cases h.single with
      | inl hw => simp [Channel.offset, hw]
      | inr hw =>
        obtain ⟨w, hw, hsize, hoff, hhead⟩ := hw
        rw [Channel.queued_eq (hhead ha), List.length_append]
        simp only [Channel.offset, hw]
        omega
    have hunsent : ch₁.unsent = ch.unsent ++ data := by
      rw [Channel.unsent, hoffset, happ.queued, List.drop_append_of_le_length hle]
      rfl
    have hinflight : ch₁.inflight = ch.inflight := by
      cases h.single with
      | inl hw => simp [Channel.inflight, hw₁, hw]
      | inr hw =>
        obtain ⟨w, hw, -, -, hhead⟩ := hw
        simp only [Channel.inflight, hw₁, hw]
        rw [happ.kept _ (hhead ha)]
    constructor
    · exact hshape
    · exact hheld
    · exact hlimit
    · intro hact'
      rw [show ch₁.active = false from hact'] at hact₁
      rw [← hact₁] at ha
      cases ha
    · exact hsingle
    · intro _ hnone hf
      have hnil := h.idle ha (hw₁ ▸ hnone) (hfail₁ ▸ hf)
      simpa [hnil] using hsend
    · intro _
      simp only [h.whole ha, hwire₁, List.append_assoc]
      rw [← hunsent]
      rfl
    · refine List.IsPrefix.trans ?_ (List.prefix_append ch.accepted data)
      have := h.sent
      rw [← hinflight, ← hwire₁] at this
      exact this

theorem Channel.transfer_inv {k n : Nat} (h : ch.Inv) (ht : ch.transfer k n = some ch') :
    ch'.Inv := by
  unfold Channel.transfer at ht
  cases hw : ch.writing[k]? with
  | none => simp [hw] at ht
  | some w =>
    obtain ⟨rfl, hone, hsize, -, hhead⟩ := h.write hw
    simp only [hw] at ht
    split_ifs at ht with hlt
    simp only [Option.some.injEq, hone, List.set_cons_zero] at ht
    have hle : w.offset + n ≤ w.size := Nat.le_of_not_lt hlt
    have hsplit : ((ch.buffers w.buffer).drop w.offset).take n ++
        (ch.buffers w.buffer).drop (w.offset + n) = (ch.buffers w.buffer).drop w.offset := by
      rw [← List.drop_drop, List.take_append_drop]
    have hsent := h.sent
    simp only [Channel.inflight, hone] at hsent
    rw [← ht]
    constructor
    · exact ⟨h.shape.distinct, h.shape.allocated, h.shape.size, h.shape.fresh⟩
    · exact h.held
    · exact h.limit
    · exact h.cancelled
    · exact Or.inr ⟨_, rfl, hsize, hle, hhead⟩
    · intro _ hnone
      cases hnone
    · intro ha
      have hq := Channel.queued_eq (hhead ha)
      have hacc := h.whole ha
      rw [Channel.unsent_eq hone (by omega) (hhead ha)] at hacc
      simp only [Channel.inflight, hone] at hacc
      simp only [Channel.unsent, Channel.offset]
      change ch.accepted = _ ++ List.drop (w.offset + n) ch.queued
      rw [hacc, hq, List.drop_append_of_le_length (by omega), List.append_assoc ch.wire,
        ← List.append_assoc (List.take _ _), hsplit]
    · simp only [Channel.inflight, List.append_assoc, hsplit]
      exact hsent

inductive Channel.Move : Channel → Channel → Prop where
  | cancel (ch : Channel) : Channel.Move ch ch.cancel
  | armed (ch : Channel) (ready reading : Bool) :
    Channel.Move ch { ch with ready := ready, reading := reading }
  | failed (ch : Channel) : Channel.Move ch ({ ch with failing := false } : Channel).cancel
  | enqueue {ch ch' : Channel} {data : List Byte} {fault : Bool} :
    ch.enqueue data fault = some ch' → Channel.Move ch ch'
  | transfer {ch ch' : Channel} {k n : Nat} : ch.transfer k n = some ch' → Channel.Move ch ch'

def Channel.Keeps (ch ch' : Channel) : Prop :=
  ∀ w ∈ ch.writing, ch'.buffers w.buffer = ch.buffers w.buffer ∧
    ∃ v ∈ ch'.writing, v.buffer = w.buffer ∧ v.size = w.size ∧ w.offset ≤ v.offset

theorem Channel.Keeps.trans {ch₁ ch₂ : Channel} (h₁ : ch.Keeps ch₁) (h₂ : ch₁.Keeps ch₂) :
    ch.Keeps ch₂ := by
  intro w hw
  obtain ⟨hbuf, v, hv, hb, hs, ho⟩ := h₁ w hw
  obtain ⟨hbuf', x, hx, hb', hs', ho'⟩ := h₂ v hv
  rw [hb] at hbuf'
  exact ⟨hbuf'.trans hbuf, x, hx, hb'.trans hb, hs'.trans hs, ho.trans ho'⟩

theorem Channel.Keeps.same (hbuf : ch'.buffers = ch.buffers) (hw : ch'.writing = ch.writing) :
    ch.Keeps ch' :=
  fun w hmem => ⟨by rw [hbuf], w, hw ▸ hmem, rfl, rfl, Nat.le_refl _⟩

theorem Channel.enqueue_keeps {fault : Bool} (h : ch.Inv)
    (he : ch.enqueue data fault = some ch') : ch.Keeps ch' := by
  unfold Channel.enqueue at he
  split_ifs at he with hact hroom
  simp only [Option.some.injEq] at he
  have ha : ch.active = true := by simpa using hact
  have happ := Channel.append_appended h.shape (Nat.le_refl data.length)
  generalize Channel.append data.length ch data = ch₁ at he happ
  have hw₁ : ch₁.writing = ch.writing := by rw [happ.rest]
  intro w hmem
  cases h.single with
  | inl hw => simp [hw] at hmem
  | inr hw =>
    obtain ⟨v, hv, -, -, hhead⟩ := hw
    have hhead := hhead ha
    have heq : w = v := by simpa [hv] using hmem
    subst heq
    have hne : ch.output.isEmpty = false := by
      cases hout : ch.output with
      | nil => simp [hout] at hhead
      | cons => rfl
    simp only [hne, Bool.false_and, Bool.false_eq_true, ↓reduceIte] at he
    subst he
    refine ⟨happ.kept _ hhead, w, ?_, rfl, rfl, Nat.le_refl _⟩
    change w ∈ ch₁.writing
    rw [hw₁]
    exact hmem

theorem Channel.transfer_keeps {k n : Nat} (h : ch.Inv) (ht : ch.transfer k n = some ch') :
    ch.Keeps ch' := by
  unfold Channel.transfer at ht
  cases hw : ch.writing[k]? with
  | none => simp [hw] at ht
  | some w =>
    obtain ⟨rfl, hone, -⟩ := h.write hw
    simp only [hw] at ht
    split_ifs at ht
    simp only [Option.some.injEq, hone, List.set_cons_zero] at ht
    subst ht
    intro v hv
    have heq : v = w := by simpa [hone] using hv
    subst heq
    exact ⟨rfl, _, List.mem_singleton.mpr rfl, rfl, rfl, Nat.le_add_right _ _⟩

theorem Channel.Move.inv (hm : Channel.Move ch ch') (h : ch.Inv) : ch'.Inv := by
  cases hm with
  | cancel => exact Channel.cancel_inv h
  | armed ready reading =>
    have hshape := h.shape
    exact ⟨⟨hshape.distinct, hshape.allocated, hshape.size, hshape.fresh⟩, h.held, h.limit,
      h.cancelled, h.single, h.idle, h.whole, h.sent⟩
  | failed =>
    have hc := Channel.cancel_inv h
    have hshape := hc.shape
    exact ⟨⟨hshape.distinct, hshape.allocated, hshape.size, hshape.fresh⟩, hc.held, hc.limit,
      hc.cancelled, hc.single, nofun, nofun, hc.sent⟩
  | enqueue he => exact Channel.enqueue_inv h he
  | transfer ht => exact Channel.transfer_inv h ht

theorem Channel.Move.keeps (hm : Channel.Move ch ch') (h : ch.Inv) : ch.Keeps ch' := by
  cases hm with
  | cancel => exact Channel.Keeps.same rfl rfl
  | armed => exact Channel.Keeps.same rfl rfl
  | failed => exact Channel.Keeps.same rfl rfl
  | enqueue he => exact Channel.enqueue_keeps h he
  | transfer ht => exact Channel.transfer_keeps h ht

theorem Channel.Move.inactive (hm : Channel.Move ch ch') (h : ch.active = false) :
    ch'.active = false := by
  cases hm with
  | cancel => rfl
  | armed => exact h
  | failed => rfl
  | enqueue he => simp [Channel.enqueue, h] at he
  | transfer ht =>
    unfold Channel.transfer at ht
    split at ht
    · cases ht
    · split_ifs at ht
      simp only [Option.some.injEq] at ht
      rw [← ht]
      exact h

theorem Channel.append_named (n : Nat) (ch : Channel) (data : List Byte) :
    (Channel.append n ch data).fd = ch.fd ∧ (Channel.append n ch data).owner = ch.owner := by
  induction n generalizing ch data with
  | zero => exact ⟨rfl, rfl⟩
  | succ n ih =>
    cases data with
    | nil => exact ⟨rfl, rfl⟩
    | cons x data =>
      have hmake : ch.make.fd = ch.fd ∧ ch.make.owner = ch.owner := by
        unfold Channel.make
        split
        · exact ⟨rfl, rfl⟩
        · split_ifs
          · exact ⟨rfl, rfl⟩
          · exact ⟨rfl, rfl⟩
      have hins : ∀ d, (ch.make.insert d).fd = ch.fd ∧ (ch.make.insert d).owner = ch.owner := by
        intro d
        unfold Channel.insert
        split
        · exact hmake
        · exact hmake
      simp only [Channel.append, ih, hins, and_self]

theorem Channel.Move.named (hm : Channel.Move ch ch') :
    ch'.fd = ch.fd ∧ ch'.owner = ch.owner := by
  cases hm with
  | cancel => exact ⟨rfl, rfl⟩
  | armed => exact ⟨rfl, rfl⟩
  | failed => exact ⟨rfl, rfl⟩
  | @enqueue _ data fault he =>
    unfold Channel.enqueue at he
    split_ifs at he
    simp only [Option.some.injEq] at he
    have happ := Channel.append_named data.length ch data
    split_ifs at he
    · rw [← he]
      unfold Channel.send
      split
      · exact happ
      · exact happ
    · rw [← he]
      exact happ
  | transfer ht =>
    unfold Channel.transfer at ht
    split at ht
    · cases ht
    · split_ifs at ht
      simp only [Option.some.injEq] at ht
      rw [← ht]
      exact ⟨rfl, rfl⟩

/-- What the handler of the `k`th write does to its channel -/
inductive Channel.Finish (k : Nat) : Channel → Channel → Prop where
  | dropped {ch : Channel} {w : Write} : ch.writing[k]? = some w → ch.active = false →
    Channel.Finish k ch (ch.completed k)
  | cancelled {ch : Channel} {w : Write} : ch.writing[k]? = some w →
    Channel.Finish k ch (ch.completed k).cancel
  | stopped {ch : Channel} {w : Write} (failing : Bool) : ch.writing[k]? = some w → ch.active →
    w.offset = w.size → (failing = false → ch.output.tail = []) →
    Channel.Finish k ch { (ch.completed k).popped (ch.buffers w.buffer).length with
      failing := ch.failing || failing }
  | next {ch : Channel} {w : Write} {b : Nat} {rest : List Nat} : ch.writing[k]? = some w →
    ch.active → w.offset = w.size → ch.output.tail = b :: rest →
    Channel.Finish k ch ((ch.completed k).popped (ch.buffers w.buffer).length).send

theorem Channel.Finish.inv {k : Nat} (hf : Channel.Finish k ch ch') (h : ch.Inv) : ch'.Inv := by
  cases hf with
  | dropped hw ha => exact Channel.completed_inv h hw ha
  | cancelled hw => exact Channel.completed_cancel_inv h hw
  | stopped failing hw ha hoff hidle =>
    exact Channel.popped_inv h ha hw hoff failing fun hf _ => hidle hf
  | @next w b rest hw ha hoff htail =>
    obtain ⟨hnone, -, hacc, hpend⟩ := Channel.popped_spec h ha hw hoff
    have hshape := Channel.popped_shape h.shape k (ch.buffers w.buffer).length
    exact Channel.send_inv hshape htail hnone ha hpend
      (Nat.le_trans (Nat.sub_le _ _) h.limit) hacc

theorem Channel.Finish.named {k : Nat} (hf : Channel.Finish k ch ch') :
    ch'.fd = ch.fd ∧ ch'.owner = ch.owner := by
  cases hf with
  | dropped => exact ⟨rfl, rfl⟩
  | cancelled => exact ⟨rfl, rfl⟩
  | stopped => exact ⟨rfl, rfl⟩
  | next =>
    unfold Channel.send
    split
    · exact ⟨rfl, rfl⟩
    · exact ⟨rfl, rfl⟩

theorem Channel.Finish.inactive {k : Nat} (hf : Channel.Finish k ch ch')
    (h : ch.active = false) : ch'.active = false := by
  cases hf with
  | dropped => exact h
  | cancelled => rfl
  | stopped failing hw ha =>
    rw [ha] at h
    cases h
  | next hw ha =>
    rw [ha] at h
    cases h

end Dynamips.VttyIo
