import Dynamips.Lib.Links

/-! Linked lists whose nodes point back to the link that leads to them, so that a
node can be taken out without its list being known. -/
set_option autoImplicit false

namespace Dynamips.BackLinks
open Links

variable {H P : Type}

/-- Where a link is stored: the head of a list, or a node. -/
inductive Cell (H P : Type) where
  | head (k : H)
  | next (x : P)
deriving DecidableEq

structure Heap (H P : Type) where
  head : H → Option P
  next : P → Option P
  pprev : P → Option (Cell H P)

def Heap.empty (H P : Type) : Heap H P where
  head := fun _ => none
  next := fun _ => none
  pprev := fun _ => none

def Heap.read (h : Heap H P) : Cell H P → Option P
  | .head k => h.head k
  | .next x => h.next x

/-- The nodes of the list, linked from a cell and back to it. -/
def Segment (h : Heap H P) : Cell H P → List P → Prop
  | c, [] => h.read c = none
  | c, x :: l => h.read c = some x ∧ h.pprev x = some c ∧ Segment h (.next x) l

/-- The cell that the list ends in. -/
def endCell : Cell H P → List P → Cell H P
  | c, [] => c
  | _, x :: l => endCell (.next x) l

/-- The first cell whose node meets a condition, or that has no node. -/
def findCell (h : Heap H P) (stop : P → Bool) : Nat → Cell H P → Option (Cell H P)
  | 0, _ => none
  | fuel + 1, c =>
    match h.read c with
    | none => some c
    | some x => if stop x then some c else findCell h stop fuel (.next x)

variable {h h' : Heap H P} {c c' : Cell H P} {l l₁ l₂ : List P} {x y : P}

theorem read_next (h : Heap H P) (x : P) : h.read (.next x) = h.next x := rfl

theorem segment_empty (c : Cell H P) : Segment (Heap.empty H P) c [] := by
  cases c <;> rfl

theorem Segment.chain (hs : Segment h c l) : Chain h.next (h.read c) l := by
  induction l generalizing c with
  | nil => exact hs
  | cons x l ih => exact ⟨hs.1, ih hs.2.2⟩

theorem Segment.nodup (hs : Segment h c l) : l.Nodup := hs.chain.nodup

theorem Segment.unique {l' : List P} (hs : Segment h c l) (hs' : Segment h c l') : l = l' :=
  hs.chain.unique hs'.chain

theorem Segment.congr (hs : Segment h c l) (hread : h'.read c = h.read c)
    (hnext : ∀ x ∈ l, h'.next x = h.next x) (hpprev : ∀ x ∈ l, h'.pprev x = h.pprev x) :
    Segment h' c l := by
  induction l generalizing c with
  | nil => exact hread.trans hs
  | cons x l ih =>
    refine ⟨hread.trans hs.1, (hpprev x List.mem_cons_self).trans hs.2.1, ?_⟩
    exact ih hs.2.2 (hnext x List.mem_cons_self) (fun y hy => hnext y (List.mem_cons_of_mem x hy))
      fun y hy => hpprev y (List.mem_cons_of_mem x hy)

/-- The cell in front of the second part leads to it. -/
theorem Segment.read_endCell (hs : Segment h c (l₁ ++ l₂)) :
    h.read (endCell c l₁) = l₂.head? := by
  induction l₁ generalizing c with
  | nil =>
    cases l₂ with
    | nil => exact hs
    | cons x l₂ => exact hs.1
  | cons x l₁ ih => exact ih hs.2.2

theorem Segment.pprev_endCell (hs : Segment h c (l₁ ++ x :: l₂)) :
    h.pprev x = some (endCell c l₁) := by
  induction l₁ generalizing c with
  | nil => exact hs.2.1
  | cons y l₁ ih => exact ih hs.2.2

theorem endCell_cases (c : Cell H P) (l : List P) : endCell c l = c ∨ ∃ x ∈ l, endCell c l = .next x := by
  induction l generalizing c with
  | nil => exact Or.inl rfl
  | cons x l ih =>
    right
    cases ih (.next x) with
    | inl heq => exact ⟨x, List.mem_cons_self, heq⟩
    | inr hex =>
      obtain ⟨y, hy, heq⟩ := hex
      exact ⟨y, List.mem_cons_of_mem x hy, heq⟩

theorem endCell_append (c : Cell H P) (l l' : List P) :
    endCell c (l ++ l') = endCell (endCell c l) l' := by
  induction l generalizing c with
  | nil => rfl
  | cons x l ih => exact ih _

/-- The search stops at the cell behind the nodes that do not meet the condition. -/
theorem Segment.findCell (hs : Segment h c l) (stop : P → Bool) :
    findCell h stop (l.length + 1) c = some (endCell c (l.takeWhile fun x => !stop x)) := by
  induction l generalizing c with
  | nil =>
    have hnone : h.read c = none := hs
    simp [BackLinks.findCell, hnone, endCell]
  | cons x l ih =>
    rw [BackLinks.findCell, hs.1]
    cases hx : stop x with
    | true => simp [hx, endCell]
    | false => simpa [hx, endCell] using ih hs.2.2

theorem findCell_mono {stop : P → Bool} {fuel : Nat}
    (hf : BackLinks.findCell h stop fuel c = some c') {fuel' : Nat} (hle : fuel ≤ fuel') :
    BackLinks.findCell h stop fuel' c = some c' := by
  induction fuel generalizing c fuel' with
  | zero => cases hf
  | succ fuel ih =>
    obtain ⟨k, rfl⟩ := Nat.exists_eq_add_of_le hle
    rw [Nat.add_right_comm]
    rw [BackLinks.findCell] at hf ⊢
    cases hread : h.read c with
    | none => simpa [hread] using hf
    | some x =>
      simp only [hread] at hf ⊢
      by_cases hx : stop x = true
      · simpa [hx] using hf
      · simp only [hx] at hf ⊢
        exact ih hf (Nat.le_add_right _ _)

theorem Segment.findCell_eq (hs : Segment h c l) {stop : P → Bool} {fuel : Nat}
    (hf : BackLinks.findCell h stop fuel c = some c') :
    c' = endCell c (l.takeWhile fun x => !stop x) := by
  have hlong := findCell_mono hf (Nat.le_max_left fuel (l.length + 1))
  have hlong' := findCell_mono (hs.findCell stop) (Nat.le_max_right fuel (l.length + 1))
  exact Option.some.inj (hlong.symm.trans hlong')

/-- A node in front of the first one with a larger key keeps the list sorted. -/
theorem sorted_insert {key : P → Nat} {stop : P → Bool}
    (h : l.Pairwise fun a b => key a ≤ key b) (hstop : ∀ y ∈ l, stop y = true ↔ key x < key y) :
    ((l.takeWhile fun y => !stop y) ++ x :: l.dropWhile fun y => !stop y).Pairwise
      fun a b => key a ≤ key b := by
  induction l with
  | nil => simp
  | cons y l ih =>
    obtain ⟨hy, hl⟩ := List.pairwise_cons.mp h
    have hstopy := hstop y List.mem_cons_self
    cases hs : stop y with
    | true =>
      have hlt := hstopy.mp hs
      simp only [List.takeWhile_cons, List.dropWhile_cons, hs, Bool.not_true, Bool.false_eq_true,
        if_false, List.nil_append]
      refine List.pairwise_cons.mpr ⟨fun z hz => ?_, h⟩
      cases List.mem_cons.mp hz with
      | inl heq => exact heq ▸ hlt.le
      | inr hz => exact hlt.le.trans (hy z hz)
    | false =>
      have hle : key y ≤ key x := Nat.not_lt.mp fun hlt => by simp [hstopy.mpr hlt] at hs
      simp only [List.takeWhile_cons, List.dropWhile_cons, hs, Bool.not_false, if_true,
        List.cons_append]
      refine List.pairwise_cons.mpr
        ⟨fun z hz => ?_, ih hl fun z hz => hstop z (List.mem_cons_of_mem y hz)⟩
      rw [List.mem_append, List.mem_cons] at hz
      rcases hz with hz | rfl | hz
      · exact hy z (List.takeWhile_subset _ hz)
      · exact hle
      · exact hy z ((List.dropWhile_sublist _).subset hz)

/-- Lists with a head each and no node in common. -/
structure Lists (h : Heap H P) (lists : H → List P) : Prop where
  segment : ∀ k, Segment h (.head k) (lists k)
  disjoint : ∀ k k' x, x ∈ lists k → x ∈ lists k' → k = k'

variable {lists : H → List P} {k : H}

theorem lists_empty : Lists (Heap.empty H P) fun _ => [] where
  segment _ := segment_empty _
  disjoint _ _ _ hx := absurd hx List.not_mem_nil

theorem Lists.endCell_ne (hl : Lists h lists) (hlist : lists k = l₁ ++ l₂) {k' : H} (hk : k' ≠ k) :
    (∀ y ∈ lists k', endCell (.head k) l₁ ≠ .next y) ∧
      (.head k' : Cell H P) ≠ endCell (.head k) l₁ := by
  cases endCell_cases (.head k : Cell H P) l₁ with
  | inl heq =>
    rw [heq]
    exact ⟨fun y hy => by simp, by simpa using hk⟩
  | inr hex =>
    obtain ⟨z, hz, heq⟩ := hex
    rw [heq]
    refine ⟨fun y hy hzy => ?_, by simp⟩
    cases hzy
    have hzk : z ∈ lists k := hlist ▸ List.mem_append_left l₂ hz
    exact hk (hl.disjoint k' k z hy hzk)

variable [DecidableEq P]

def Heap.write [DecidableEq H] (h : Heap H P) (c : Cell H P) (v : Option P) : Heap H P :=
  match c with
  | .head k => { h with head := Function.update h.head k v }
  | .next x => { h with next := Function.update h.next x v }

def Heap.setPprev (h : Heap H P) (x : P) (c : Option (Cell H P)) : Heap H P :=
  { h with pprev := Function.update h.pprev x c }

@[simp] theorem read_setPprev (h : Heap H P) (x : P) (p : Option (Cell H P)) (c : Cell H P) :
    (h.setPprev x p).read c = h.read c := by
  cases c <;> rfl

@[simp] theorem pprev_setPprev (h : Heap H P) (x y : P) (p : Option (Cell H P)) :
    (h.setPprev x p).pprev y = if y = x then p else h.pprev y := by
  simp [Heap.setPprev, Function.update_apply]

variable [DecidableEq H]

@[simp] theorem read_write (h : Heap H P) (c c' : Cell H P) (v : Option P) :
    (h.write c v).read c' = if c' = c then v else h.read c' := by
  cases c with
  | head k =>
    cases c' with
    | head k' => simp [Heap.write, Heap.read, Function.update_apply]
    | next y => simp [Heap.write, Heap.read]
  | next x =>
    cases c' with
    | head k' => simp [Heap.write, Heap.read]
    | next y => simp [Heap.write, Heap.read, Function.update_apply]

@[simp] theorem pprev_write (h : Heap H P) (c : Cell H P) (v : Option P) :
    (h.write c v).pprev = h.pprev := by
  cases c <;> rfl

/-- A new node behind a cell -/
def insertAt (h : Heap H P) (c : Cell H P) (x : P) : Heap H P :=
  let h := h.write (.next x) (h.read c)
  let h := match h.read c with
    | some y => h.setPprev y (some (.next x))
    | none => h
  let h := h.setPprev x (some c)
  h.write c (some x)

/-- A node taken out of its list -/
def unlink (h : Heap H P) (x : P) : Heap H P :=
  let h := match h.next x with
    | some y => h.setPprev y (h.pprev x)
    | none => h
  match h.pprev x with
  | some c => h.write c (h.next x)
  | none => h

theorem read_insertAt (h : Heap H P) (c : Cell H P) (x : P) (c' : Cell H P) :
    (insertAt h c x).read c' =
      if c' = c then some x else if c' = .next x then h.read c else h.read c' := by
  cases hread : h.read c <;> simp [insertAt, hread]

theorem pprev_insertAt (hc : c ≠ .next x) (y : P) :
    (insertAt h c x).pprev y =
      if y = x then some c else if h.read c = some y then some (.next x) else h.pprev y := by
  simp only [insertAt, read_write, if_neg hc, pprev_write, pprev_setPprev]
  by_cases hy : y = x
  · simp [hy]
  · simp only [if_neg hy]
    cases hread : h.read c with
    | none => simp
    | some z =>
      by_cases hz : y = z
      · simp [hz]
      · simp [hz, Ne.symm hz]

theorem read_unlink (hp : h.pprev x = some c) (c' : Cell H P) :
    (unlink h x).read c' = if c' = c then h.next x else h.read c' := by
  cases hn : h.next x with
  | none => simp [unlink, hn, hp]
  | some y =>
    have hp' : (h.setPprev y (h.pprev x)).pprev x = some c := by
      rw [pprev_setPprev]
      split
      · exact hp
      · exact hp
    have hn' : (h.setPprev y (h.pprev x)).next x = some y := hn
    simp only [unlink, hn, hp', hn', read_write, read_setPprev]

theorem pprev_unlink (hp : h.pprev x = some c) (y : P) :
    (unlink h x).pprev y = if h.next x = some y then h.pprev x else h.pprev y := by
  cases hn : h.next x with
  | none => simp [unlink, hn, hp]
  | some z =>
    have hp' : (h.setPprev z (h.pprev x)).pprev x = some c := by
      rw [pprev_setPprev]
      split
      · exact hp
      · exact hp
    simp only [unlink, hn, hp', pprev_write, pprev_setPprev, Option.some.injEq]
    simp only [eq_comm]

/-- An insertion changes its cell, the node behind it and the new node. -/
theorem Segment.insertAt_other (hs : Segment h c' l) (hx : x ∉ l) (hcx : c ≠ .next x)
    (hcx' : c' ≠ .next x) (hne : c' ≠ c) (hcell : ∀ y ∈ l, c ≠ .next y)
    (hread : ∀ y ∈ l, h.read c ≠ some y) : Segment (insertAt h c x) c' l := by
  refine hs.congr ?_ (fun y hy => ?_) fun y hy => ?_
  · rw [read_insertAt, if_neg hne, if_neg hcx']
  · have hyx : y ≠ x := fun heq => hx (heq ▸ hy)
    rw [← read_next, read_insertAt, if_neg (Ne.symm (hcell y hy)), if_neg (by simpa using hyx)]
    rfl
  · have hyx : y ≠ x := fun heq => hx (heq ▸ hy)
    rw [pprev_insertAt hcx, if_neg hyx, if_neg (hread y hy)]

theorem Segment.unlink_other (hs : Segment h c' l) (hp : h.pprev x = some c) (hne : c' ≠ c)
    (hcell : ∀ y ∈ l, c ≠ .next y) (hnext : ∀ y ∈ l, h.next x ≠ some y) :
    Segment (unlink h x) c' l := by
  refine hs.congr ?_ (fun y hy => ?_) fun y hy => ?_
  · rw [read_unlink hp, if_neg hne]
  · rw [← read_next, read_unlink hp, if_neg (Ne.symm (hcell y hy))]
    rfl
  · rw [pprev_unlink hp, if_neg (hnext y hy)]

theorem Segment.insertAt (hs : Segment h c (l₁ ++ l₂)) (hx : x ∉ l₁ ++ l₂) (hcx : c ≠ .next x)
    (hc : ∀ y ∈ l₁ ++ l₂, c ≠ .next y) :
    Segment (insertAt h (endCell c l₁) x) c (l₁ ++ x :: l₂) := by
  have hnodup := hs.nodup
  induction l₁ generalizing c with
  | nil =>
    simp only [List.nil_append, endCell] at *
    refine ⟨by rw [read_insertAt, if_pos rfl], by rw [pprev_insertAt hcx, if_pos rfl], ?_⟩
    have hbehind : (BackLinks.insertAt h c x).read (.next x) = h.read c := by
      rw [read_insertAt, if_neg (Ne.symm hcx), if_pos rfl]
    cases l₂ with
    | nil => exact hbehind.trans hs
    | cons y l =>
      obtain ⟨hread, hpprev, htail⟩ := hs
      obtain ⟨hyl, -⟩ := List.nodup_cons.mp hnodup
      obtain ⟨hxy, hxl⟩ := List.ne_and_not_mem_of_not_mem_cons hx
      refine ⟨hbehind.trans hread, ?_, ?_⟩
      · rw [pprev_insertAt hcx, if_neg (Ne.symm hxy), if_pos hread]
      · refine htail.insertAt_other hxl hcx (by simpa using Ne.symm hxy)
          (Ne.symm (hc y List.mem_cons_self)) (fun z hz => hc z (List.mem_cons_of_mem y hz)) ?_
        intro z hz heq
        rw [hread] at heq
        cases heq
        exact hyl hz
  | cons y l₁ ih =>
    simp only [List.cons_append, endCell] at *
    obtain ⟨hread, hpprev, htail⟩ := hs
    obtain ⟨hyl, hnodup⟩ := List.nodup_cons.mp hnodup
    obtain ⟨hxy, hxl⟩ := List.ne_and_not_mem_of_not_mem_cons hx
    have hnexty : ∀ z ∈ l₁ ++ l₂, (Cell.next y : Cell H P) ≠ .next z := by
      intro z hz heq
      cases heq
      exact hyl hz
    have hend : ∃ z ∈ y :: l₁, endCell (Cell.next y : Cell H P) l₁ = .next z := by
      cases endCell_cases (Cell.next y : Cell H P) l₁ with
      | inl heq => exact ⟨y, List.mem_cons_self, heq⟩
      | inr hex =>
        obtain ⟨z, hz, heq⟩ := hex
        exact ⟨z, List.mem_cons_of_mem y hz, heq⟩
    obtain ⟨z, hz, heq⟩ := hend
    have hzmem : z ∈ y :: (l₁ ++ l₂) := by
      rw [← List.cons_append]
      exact List.mem_append_left l₂ hz
    have hendx : endCell (Cell.next y : Cell H P) l₁ ≠ .next x := by
      rw [heq]
      intro hzx
      cases hzx
      exact hx hzmem
    refine ⟨?_, ?_, ih htail hxl (by simpa using Ne.symm hxy) hnexty hnodup⟩
    · rw [read_insertAt, if_neg (by rw [heq]; exact hc z hzmem), if_neg hcx]
      exact hread
    · rw [pprev_insertAt hendx, if_neg (Ne.symm hxy), if_neg, hpprev]
      rw [htail.read_endCell]
      intro hhead
      exact hyl (List.mem_append_right l₁ (List.mem_of_mem_head? hhead))

theorem Segment.unlink (hs : Segment h c (l₁ ++ x :: l₂)) (hc : ∀ y ∈ l₁ ++ x :: l₂, c ≠ .next y) :
    Segment (unlink h x) c (l₁ ++ l₂) := by
  have hnodup := hs.nodup
  have hnext : h.next x = l₂.head? := by
    have hread : h.read (endCell c (l₁ ++ [x])) = l₂.head? :=
      Segment.read_endCell (by simpa using hs)
    rwa [endCell_append] at hread
  induction l₁ generalizing c with
  | nil =>
    simp only [List.nil_append] at *
    obtain ⟨hread, hpprev, htail⟩ := hs
    have hfirst : (BackLinks.unlink h x).read c = h.next x := by
      rw [read_unlink hpprev, if_pos rfl]
    cases l₂ with
    | nil => exact hfirst.trans htail
    | cons y l =>
      obtain ⟨hready, hpprevy, htail⟩ := htail
      have hyl := (List.nodup_cons.mp (List.nodup_cons.mp hnodup).2).1
      refine ⟨hfirst.trans hready, ?_, ?_⟩
      · rw [pprev_unlink hpprev, if_pos ((read_next h x).symm.trans hready)]
        exact hpprev
      · refine htail.unlink_other hpprev (Ne.symm (hc y (by simp)))
          (fun z hz => hc z (by simp [hz])) ?_
        intro z hz heq
        rw [hnext] at heq
        cases heq
        exact hyl hz
  | cons y l₁ ih =>
    simp only [List.cons_append] at *
    have hp := Segment.pprev_endCell hs.2.2
    obtain ⟨hread, hpprev, htail⟩ := hs
    obtain ⟨hyl, hnodup⟩ := List.nodup_cons.mp hnodup
    have hnexty : ∀ z ∈ l₁ ++ x :: l₂, (Cell.next y : Cell H P) ≠ .next z := by
      intro z hz heq
      cases heq
      exact hyl hz
    refine ⟨?_, ?_, ih htail hnexty hnodup⟩
    · rw [read_unlink hp, if_neg, hread]
      cases endCell_cases (Cell.next y : Cell H P) l₁ with
      | inl heq =>
        rw [heq]
        exact hc y List.mem_cons_self
      | inr hex =>
        obtain ⟨z, hz, heq⟩ := hex
        rw [heq]
        exact hc z (by simp [hz])
    · rw [pprev_unlink hp, if_neg, hpprev]
      rw [hnext]
      intro hhead
      have hmem := List.mem_of_mem_head? hhead
      exact hyl (by simp [hmem])

theorem Lists.insertAt (hl : Lists h lists) (hlist : lists k = l₁ ++ l₂)
    (hx : ∀ k, x ∉ lists k) :
    Lists (insertAt h (endCell (.head k) l₁) x) (Function.update lists k (l₁ ++ x :: l₂)) := by
  constructor
  · intro k'
    by_cases hk : k' = k
    · subst hk
      rw [Function.update_self]
      have hs := hl.segment k'
      rw [hlist] at hs
      exact hs.insertAt (hlist ▸ hx k') (by simp) (by simp)
    · rw [Function.update_of_ne hk]
      obtain ⟨hcell, hne⟩ := hl.endCell_ne hlist hk
      have hs := hl.segment k
      rw [hlist] at hs
      refine (hl.segment k').insertAt_other (hx k') ?_ (by simp) hne hcell ?_
      · cases endCell_cases (.head k : Cell H P) l₁ with
        | inl heq => simp [heq]
        | inr hex =>
          obtain ⟨z, hz, heq⟩ := hex
          rw [heq]
          intro hzx
          cases hzx
          exact hx k (hlist ▸ List.mem_append_left l₂ hz)
      · intro y hy hread
        rw [hs.read_endCell] at hread
        have hyk : y ∈ lists k :=
          hlist ▸ List.mem_append_right l₁ (List.mem_of_mem_head? hread)
        exact hk (hl.disjoint k' k y hy hyk)
  · intro a b y ha hb
    have hmem : ∀ a, y ∈ Function.update lists k (l₁ ++ x :: l₂) a →
        y ∈ lists a ∨ y = x ∧ a = k := by
      intro a ha
      by_cases hak : a = k
      · subst hak
        rw [Function.update_self] at ha
        rw [hlist]
        simp only [List.mem_append, List.mem_cons] at ha ⊢
        tauto
      · rw [Function.update_of_ne hak] at ha
        exact Or.inl ha
    rcases hmem a ha with hya | ⟨hyx, hak⟩
    · rcases hmem b hb with hyb | ⟨hyx, -⟩
      · exact hl.disjoint a b y hya hyb
      · exact absurd (hyx ▸ hya) (hx a)
    · rcases hmem b hb with hyb | ⟨-, hbk⟩
      · exact absurd (hyx ▸ hyb) (hx b)
      · rw [hak, hbk]

theorem Lists.unlink (hl : Lists h lists) (hlist : lists k = l₁ ++ x :: l₂) :
    Lists (unlink h x) (Function.update lists k (l₁ ++ l₂)) := by
  have hs := hl.segment k
  rw [hlist] at hs
  constructor
  · intro k'
    by_cases hk : k' = k
    · subst hk
      rw [Function.update_self]
      exact hs.unlink (by simp)
    · rw [Function.update_of_ne hk]
      obtain ⟨hcell, hne⟩ := hl.endCell_ne hlist hk
      refine (hl.segment k').unlink_other hs.pprev_endCell hne hcell ?_
      intro y hy hnext
      have hread : h.read (endCell (.head k) (l₁ ++ [x])) = l₂.head? :=
        Segment.read_endCell (by simpa using hs)
      rw [endCell_append, endCell, endCell, read_next, hnext] at hread
      have hyk : y ∈ lists k := by
        rw [hlist]
        exact List.mem_append_right l₁ (List.mem_cons_of_mem x (List.mem_of_mem_head? hread.symm))
      exact hk (hl.disjoint k' k y hy hyk)
  · intro a b y ha hb
    have hmem : ∀ a, y ∈ Function.update lists k (l₁ ++ l₂) a → y ∈ lists a := by
      intro a ha
      by_cases hak : a = k
      · subst hak
        rw [Function.update_self] at ha
        rw [hlist]
        simp only [List.mem_append, List.mem_cons] at ha ⊢
        tauto
      · rwa [Function.update_of_ne hak] at ha
    exact hl.disjoint a b y (hmem a ha) (hmem b hb)

end Dynamips.BackLinks
