import Dynamips.Timer
import Dynamips.Lib.Tickets
import Mathlib.Data.List.Perm.Basic

/-! The timers between two operations: every wait is known once, and an entry with a
wait is in the table or cancelled. -/
set_option autoImplicit false

namespace Dynamips.Timer
open Tickets

def Timers.waits (t : Timers) : List Ticket := t.pending ++ t.completed.map Prod.fst

variable {t t' : Timers} {out out' : List Ticket} {gone : List TimerId} {r : Ref} {id : TimerId}
  {value : Entry} {env : Env} {fault : Option ArmFault}

/-- What holds of the entries between two operations, with `out` the waits there have
been. Ids are not handed out again, and an entry with a wait is in the table or
cancelled. -/
structure Sound (t : Timers) (out : List Ticket) (gone : List TimerId) : Prop where
  issued : Issued (fun r => (t.obj r).generation) out
  known : ∀ w ∈ out, w.1 < t.objCount ∧ (t.nextId ≠ 0 → (t.obj w.1).id < t.nextId) ∧
    ∀ r, ((t.obj w.1).id, r) ∈ t.entries → r = w.1
  live : ∀ w ∈ out, (t.obj w.1).cancelled ∨ ((t.obj w.1).id, w.1) ∈ t.entries
  mapped : ∀ p ∈ t.entries, p.2 < t.objCount ∧ (t.obj p.2).id = p.1 ∧
    (t.nextId ≠ 0 → p.1 < t.nextId)
  keys : ∀ p ∈ t.entries, ∀ q ∈ t.entries, p.1 = q.1 → p = q
  gone : ∀ id ∈ gone, (∀ r, (id, r) ∉ t.entries) ∧ (t.nextId ≠ 0 → id < t.nextId)
  bound : t.nextId < 2 ^ 64

theorem Sound.perm (h : Sound t out gone) (hp : out.Perm out') : Sound t out' gone :=
  ⟨h.issued.perm hp, fun w hw => h.known w (hp.mem_iff.mpr hw),
    fun w hw => h.live w (hp.mem_iff.mpr hw), h.mapped, h.keys, h.gone, h.bound⟩

theorem Sound.sublist (h : Sound t out gone) (hs : out'.Sublist out) : Sound t out' gone :=
  ⟨h.issued.sublist hs, fun w hw => h.known w (hs.subset hw),
    fun w hw => h.live w (hs.subset hw), h.mapped, h.keys, h.gone, h.bound⟩

theorem Sound.congr (h : Sound t out gone) (hobj : t'.obj = t.obj)
    (hcount : t'.objCount = t.objCount) (hentries : t'.entries = t.entries)
    (hnext : t'.nextId = t.nextId) : Sound t' out gone := by
  cases t
  cases t'
  simp only at hobj hcount hentries hnext
  subst hobj hcount hentries hnext
  exact ⟨h.issued, h.known, h.live, h.mapped, h.keys, h.gone, h.bound⟩

@[simp] theorem setObj_same : (t.setObj r value).obj r = value := by
  simp [Timers.setObj]

theorem setObj_of_ne {k : Ref} (h : k ≠ r) : (t.setObj r value).obj k = t.obj k :=
  Function.update_of_ne h _ _

theorem Sound.setObj (h : Sound t out gone) (hid : value.id = (t.obj r).id)
    (hgen : (t.obj r).generation ≤ value.generation)
    (hcancelled : (t.obj r).cancelled → value.cancelled) : Sound (t.setObj r value) out gone := by
  have hids : ∀ k, ((t.setObj r value).obj k).id = (t.obj k).id := by
    intro k
    by_cases hk : k = r
    · rw [hk, setObj_same, hid]
    · rw [setObj_of_ne hk]
  refine ⟨h.issued.raise fun w _ => ?_, fun w hw => ?_, fun w hw => ?_, fun p hp => ?_, h.keys,
    h.gone, h.bound⟩
  · by_cases hk : w.1 = r
    · simpa [hk] using hgen
    · rw [setObj_of_ne hk]
  · rw [hids]
    exact h.known w hw
  · rw [hids]
    by_cases hk : w.1 = r
    · have hlive := h.live w hw
      rw [hk] at hlive ⊢
      rw [setObj_same]
      exact hlive.imp_left hcancelled
    · rw [setObj_of_ne hk]
      exact h.live w hw
  · rw [hids]
    exact h.mapped p hp

theorem mem_erase {p : TimerId × Ref} :
    p ∈ (t.erase id).entries ↔ p ∈ t.entries ∧ p.1 ≠ id := by
  simp [Timers.erase]

theorem Sound.erase (h : Sound t out gone)
    (hc : ∀ w ∈ out, (id, w.1) ∈ t.entries → (t.obj w.1).cancelled) :
    Sound (t.erase id) out gone := by
  refine ⟨h.issued, fun w hw => ?_, fun w hw => ?_, fun p hp => h.mapped p (mem_erase.mp hp).1,
    fun p hp q hq => h.keys p (mem_erase.mp hp).1 q (mem_erase.mp hq).1, fun k hk => ?_,
    h.bound⟩
  · obtain ⟨hlt, hid, hone⟩ := h.known w hw
    exact ⟨hlt, hid, fun r hr => hone r (mem_erase.mp hr).1⟩
  · by_cases hid : (t.obj w.1).id = id
    · exact .inl ((h.live w hw).elim (fun hlive => hlive) fun hmem => hc w hw (hid ▸ hmem))
    · exact (h.live w hw).imp_right fun hmem => mem_erase.mpr ⟨hmem, hid⟩
  · exact ⟨fun r hr => (h.gone k hk).1 r (mem_erase.mp hr).1, (h.gone k hk).2⟩

theorem Sound.cancelWaits (h : Sound t out gone) (r : Ref) : Sound (t.cancelWaits r) out gone :=
  h.congr rfl rfl rfl rfl

theorem waits_cancelWaits (t : Timers) (r : Ref) : t.waits.Perm (t.cancelWaits r).waits := by
  have hsplit := List.filter_append_perm (fun w : Ticket => decide (w.1 ≠ r)) t.pending
  have hmap : ((t.pending.filter fun w => w.1 = r).map fun w => (w, Completion.aborted)).map
      Prod.fst = t.pending.filter fun w => !decide (w.1 ≠ r) := by
    simp [List.map_map, Function.comp_def]
  have hwaits : (t.cancelWaits r).waits = (t.pending.filter fun w => w.1 ≠ r) ++
      (t.completed.map Prod.fst ++ t.pending.filter fun w => !decide (w.1 ≠ r)) := by
    rw [Timers.waits, Timers.cancelWaits]
    simp only [List.map_append, hmap]
  rw [hwaits, Timers.waits]
  refine (hsplit.symm.append_right _).trans ?_
  rw [List.append_assoc]
  exact List.perm_append_comm.append_left _

theorem Sound.issue (h : Sound t out gone) (hmem : ((t.obj r).id, r) ∈ t.entries) :
    Sound (t.setObj r (t.obj r).nextCycle) ((r, (t.obj r).generation + 1) :: out) gone := by
  obtain ⟨hlt, -, hid⟩ := h.mapped _ hmem
  have hone : ∀ k, ((t.obj r).id, k) ∈ t.entries → k = r :=
    fun k hk => congrArg Prod.snd (h.keys _ hk _ hmem rfl)
  have hold : Sound (t.setObj r (t.obj r).nextCycle) out gone :=
    h.setObj rfl (Nat.le_succ _) fun hc => hc
  have hissued := h.issued.issue (Nat.lt_succ_self (t.obj r).generation)
  refine ⟨hissued.raise fun w _ => ?_, fun w hw => ?_, fun w hw => ?_, hold.mapped, hold.keys,
    hold.gone, hold.bound⟩
  · by_cases hk : w.1 = r
    · rw [hk, Function.update_self, setObj_same]
      exact Nat.le_refl _
    · rw [setObj_of_ne hk, Function.update_of_ne hk]
  · cases hw with
    | head =>
      rw [setObj_same]
      exact ⟨hlt, hid, hone⟩
    | tail _ hw => exact hold.known w hw
  · cases hw with
    | head =>
      rw [setObj_same]
      exact .inr hmem
    | tail _ hw => exact hold.live w hw

structure Timers.Ok (t : Timers) (used : List Ticket) (gone : List TimerId) : Prop where
  sound : Sound t (used ++ t.waits) gone
  one : (t.pending.map Prod.fst).Nodup

variable {done : List Ticket}

theorem Timers.Ok.setObj (h : t.Ok done gone) (hid : value.id = (t.obj r).id)
    (hgen : (t.obj r).generation ≤ value.generation)
    (hcancelled : (t.obj r).cancelled → value.cancelled) : (t.setObj r value).Ok done gone :=
  ⟨h.sound.setObj hid hgen hcancelled, h.one⟩

theorem Timers.Ok.cancelWaits (h : t.Ok done gone) (r : Ref) : (t.cancelWaits r).Ok done gone :=
  ⟨(h.sound.cancelWaits r).perm ((waits_cancelWaits t r).append_left _),
    h.one.sublist (List.filter_sublist.map _)⟩

theorem Timers.Ok.erase (h : t.Ok done gone)
    (hc : ∀ w ∈ done ++ t.waits, (id, w.1) ∈ t.entries → (t.obj w.1).cancelled) :
    (t.erase id).Ok done gone :=
  ⟨h.sound.erase hc, h.one⟩

def Timers.nextCycle (t : Timers) (r : Ref) : Timers := t.setObj r (t.obj r).nextCycle

theorem arm_cases (t : Timers) (r : Ref) (fault : Option ArmFault) :
    (∃ e, arm t r fault = (t, .error e)) ∨ (∃ e, arm t r fault = (t.nextCycle r, .error e)) ∨
    (∃ e, arm t r fault = ((t.nextCycle r).cancelWaits r, .error e)) ∨
    (∃ t', arm t r fault = (t', .ok ()) ∧ (t.obj r).cancelled = false ∧
      t' = { (t.nextCycle r).cancelWaits r with
        pending := ((t.nextCycle r).cancelWaits r).pending ++
          [(r, (t.obj r).generation + 1)] }) := by
  by_cases hc : (t.obj r).cancelled
  · exact .inl ⟨.notFound, by simp only [arm, if_pos hc]⟩
  by_cases hmax : (t.obj r).generation = UINT64_MAX
  · exact .inl ⟨.idExhausted, by simp only [arm, if_neg hc, if_pos hmax]⟩
  cases fault with
  | none =>
    refine .inr (.inr (.inr ⟨_, ?_, by simpa using hc, rfl⟩))
    simp only [arm, if_neg hc, if_neg hmax]
    rfl
  | some fault =>
    cases fault with
    | expiresAt thrown =>
      refine .inr (.inl ⟨thrown.error, ?_⟩)
      simp only [arm, if_neg hc, if_neg hmax]
      rfl
    | asyncWait thrown =>
      refine .inr (.inr (.inl ⟨thrown.error, ?_⟩))
      simp only [arm, if_neg hc, if_neg hmax]
      rfl

theorem arm_frame (t : Timers) (r : Ref) (fault : Option ArmFault) :
    (arm t r fault).1.entries = t.entries ∧ (arm t r fault).1.nextId = t.nextId := by
  obtain ⟨e, harm⟩ | ⟨e, harm⟩ | ⟨e, harm⟩ | ⟨t', harm, -, rfl⟩ := arm_cases t r fault
  · rw [harm]
    exact ⟨rfl, rfl⟩
  · rw [harm]
    exact ⟨rfl, rfl⟩
  · rw [harm]
    exact ⟨rfl, rfl⟩
  · rw [harm]
    exact ⟨rfl, rfl⟩

theorem perm_issue {waits pending completed : List Ticket} {w : Ticket} (done : List Ticket)
    (h : waits.Perm (pending ++ completed)) :
    (w :: (done ++ waits)).Perm (done ++ (pending ++ [w] ++ completed)) := by
  have hmiddle := @List.perm_middle _ w (done ++ pending) completed
  have hinside : done ++ (pending ++ [w] ++ completed) = done ++ pending ++ w :: completed := by
    simp
  rw [hinside]
  refine List.Perm.trans ?_ hmiddle.symm
  rw [List.append_assoc]
  exact (h.append_left done).cons w

theorem Timers.Ok.arm (h : t.Ok done gone) (hmem : ((t.obj r).id, r) ∈ t.entries)
    (fault : Option ArmFault) : (arm t r fault).1.Ok done gone := by
  have hraise : (t.nextCycle r).Ok done gone := h.setObj rfl (Nat.le_succ _) fun hc => hc
  obtain ⟨e, harm⟩ | ⟨e, harm⟩ | ⟨e, harm⟩ | ⟨t', harm, -, rfl⟩ := arm_cases t r fault
  · rw [harm]
    exact h
  · rw [harm]
    exact hraise
  · rw [harm]
    exact hraise.cancelWaits r
  · rw [harm]
    have hissue := h.sound.issue hmem
    have hwaits := @perm_issue _ _ _ (r, (t.obj r).generation + 1) done
      (waits_cancelWaits (t.nextCycle r) r)
    refine ⟨(hissue.perm hwaits).congr rfl rfl rfl rfl, ?_⟩
    have hcancel := (hraise.cancelWaits r).one
    simp only [List.map_append, List.map_cons, List.map_nil]
    refine List.nodup_append.mpr ⟨hcancel, List.nodup_singleton _, fun k hk k' hk' => ?_⟩
    obtain ⟨w, hw, rfl⟩ := List.mem_map.mp hk
    rw [List.mem_singleton.mp hk']
    simpa using (List.mem_filter.mp hw).2

theorem advance_ok {value' : Entry} {fromNow : Bool} {clock : Readings}
    (h : advance value fromNow clock = .ok value') : value'.id = value.id ∧
      value'.generation = value.generation ∧ value'.cancelled = value.cancelled := by
  rw [advance] at h
  extract_lets boundary base available wallMs delay at h
  split at h
  · cases h
  cases hdelay : delay with
  | none =>
    rw [hdelay] at h
    cases h
  | some d =>
    rw [hdelay] at h
    simp only at h
    split at h
    · cases h
    split at h
    · cases h
    cases h
    exact ⟨rfl, rfl, rfl⟩

theorem find_some (h : t.find id = some r) : (id, r) ∈ t.entries := by
  obtain ⟨p, hp, rfl⟩ := Option.map_eq_some_iff.mp h
  have hid : p.1 = id := by simpa using List.find?_some hp
  rw [← hid]
  exact List.mem_of_find?_eq_some hp

theorem Timers.Ok.eraseOne (h : t.Ok done gone) (hmem : (id, r) ∈ t.entries)
    (hc : (t.obj r).cancelled) : (t.erase id).Ok done gone := by
  refine h.erase fun w hw hw' => ?_
  have hr : w.1 = r := congrArg Prod.snd (h.sound.keys _ hw' _ hmem rfl)
  rwa [hr]

theorem Timers.Ok.remove (h : t.Ok done gone) :
    (∃ e, (remove t env id).2 = .error e ∧ (remove t env id).1.Ok done gone) ∨
      ((remove t env id).2 = .ok none ∧ (remove t env id).1.Ok done (id :: gone)) := by
  cases hfind : t.find id with
  | none =>
    refine .inl ⟨.notFound, ?_, ?_⟩
    · simp only [Timer.remove, hfind]
    · simpa only [Timer.remove, hfind] using h
  | some r =>
    have hmem := find_some hfind
    have hcancelled : (t.setObj r (t.obj r).cancel).Ok done gone :=
      h.setObj rfl (Nat.le_refl _) fun _ => rfl
    cases hthrows : env.cancel with
    | some thrown =>
      refine .inl ⟨thrown.error, ?_, ?_⟩
      · simp only [Timer.remove, hfind, hthrows]
      · simpa only [Timer.remove, hfind, hthrows] using hcancelled
    | none =>
      have hself : (((t.setObj r (t.obj r).cancel).cancelWaits r).obj r).cancelled :=
        congrArg Entry.cancelled setObj_same
      have herase := (hcancelled.cancelWaits r).eraseOne hmem hself
      refine .inr ⟨?_, ?_⟩
      · simp only [Timer.remove, hfind, hthrows]
      · simp only [Timer.remove, hfind, hthrows]
        refine ⟨⟨herase.sound.issued, herase.sound.known, herase.sound.live, herase.sound.mapped,
          herase.sound.keys, fun k hk => ?_, herase.sound.bound⟩, herase.one⟩
        cases hk with
        | head =>
          exact ⟨fun k hk => (mem_erase.mp hk).2 rfl, (h.sound.mapped _ hmem).2.2⟩
        | tail _ hk => exact herase.sound.gone k hk

theorem Timers.Ok.setInterval {interval : Int} (h : t.Ok done gone) :
    (setInterval t env id interval).1.Ok done gone := by
  rw [Timer.setInterval]
  cases hfind : t.find id with
  | none => exact h
  | some r =>
    have hmem := find_some hfind
    have hid := (h.sound.mapped _ hmem).2.1
    simp only
    cases hadvance : advance { t.obj r with interval := interval } true env.clock with
    | error e => exact h
    | ok value =>
      obtain ⟨hvalue, hgen, hcancelled⟩ := advance_ok hadvance
      have hset : (t.setObj r value).Ok done gone :=
        h.setObj hvalue (Nat.le_of_eq hgen.symm) fun hc => hcancelled.trans hc
      have hself : (((t.setObj r value).obj r).id, r) ∈ (t.setObj r value).entries := by
        rw [setObj_same, hvalue, hid]
        exact hmem
      have harm := hset.arm hself env.arm
      simp only
      split
      · rename_i t' e heq
        rw [heq] at harm
        have hentries : t'.entries = t.entries := by
          have harm' := (arm_frame (t.setObj r value) r env.arm).1
          rwa [heq] at harm'
        have hcancel : (t'.setObj r (t'.obj r).cancel).Ok done gone :=
          harm.setObj rfl (Nat.le_refl _) fun _ => rfl
        refine hcancel.eraseOne (hentries ▸ hmem) ?_
        rw [setObj_same]
        rfl
      · rename_i t' heq
        rw [heq] at harm
        exact harm

abbrev Timers.withEntry (t : Timers) (value : Entry) : Timers :=
  { t.setObj t.objCount value with
    objCount := t.objCount + 1
    entries := (t.nextId, t.objCount) :: t.entries }

theorem Timers.Ok.insert {n : Nat} (h : t.Ok done gone) (hid : value.id = t.nextId)
    (hnext : t.nextId ≠ 0) (hn : n < 2 ^ 64) (hlt : n ≠ 0 → t.nextId < n) :
    Timers.Ok { t.withEntry value with nextId := n } done gone := by
  have hobj : ∀ k < t.objCount, (t.setObj t.objCount value).obj k = t.obj k :=
    fun k hk => setObj_of_ne (Nat.ne_of_lt hk)
  refine ⟨⟨h.sound.issued.raise fun w hw => ?_, fun w hw => ?_, fun w hw => ?_, fun p hp => ?_,
    fun p hp q hq hpq => ?_, fun k hk => ?_, hn⟩, h.one⟩
  · simp only [hobj _ (h.sound.known w hw).1]
    exact Nat.le_refl _
  · obtain ⟨hcount, hold, hone⟩ := h.sound.known w hw
    simp only [hobj _ hcount]
    refine ⟨Nat.lt_succ_of_lt hcount, fun hn0 => Nat.lt_trans (hold hnext) (hlt hn0),
      fun k hk => ?_⟩
    rcases List.mem_cons.mp hk with heq | hk
    · have hsame : (t.obj w.1).id = t.nextId := congrArg Prod.fst heq
      exact absurd hsame (Nat.ne_of_lt (hold hnext))
    · exact hone k hk
  · simp only [hobj _ (h.sound.known w hw).1]
    exact (h.sound.live w hw).imp_right fun hmem => List.mem_cons_of_mem _ hmem
  · cases hp with
    | head =>
      simp only [setObj_same]
      exact ⟨Nat.lt_succ_self _, hid, hlt⟩
    | tail _ hp =>
      obtain ⟨hcount, hkey, hold⟩ := h.sound.mapped p hp
      simp only [hobj _ hcount]
      exact ⟨Nat.lt_succ_of_lt hcount, hkey, fun hn0 => Nat.lt_trans (hold hnext) (hlt hn0)⟩
  · cases hp with
    | head =>
      cases hq with
      | head => rfl
      | tail _ hq => exact absurd ((h.sound.mapped q hq).2.2 hnext) (by simp_all)
    | tail _ hp =>
      cases hq with
      | head => exact absurd ((h.sound.mapped p hp).2.2 hnext) (by simp_all)
      | tail _ hq => exact h.sound.keys p hp q hq hpq
  · obtain ⟨hnot, hold⟩ := h.sound.gone k hk
    refine ⟨fun r hr => ?_, fun hn0 => Nat.lt_trans (hold hnext) (hlt hn0)⟩
    cases hr with
    | head => exact absurd (hold hnext) (Nat.lt_irrefl _)
    | tail _ hr => exact hnot r hr

theorem arm_nextId (t : Timers) (r : Ref) (fault : Option ArmFault) (n : Nat) :
    arm { t with nextId := n } r fault =
      ({ (arm t r fault).1 with nextId := n }, (arm t r fault).2) := by
  by_cases hc : (t.obj r).cancelled
  · simp only [arm, if_pos hc]
  by_cases hmax : (t.obj r).generation = UINT64_MAX
  · simp only [arm, if_neg hc, if_pos hmax]
  simp only [arm, if_neg hc, if_neg hmax]
  cases fault with
  | none => rfl
  | some fault => cases fault <;> rfl

theorem Timers.Ok.extend (h : t.Ok done gone) (hobj : ∀ k < t.objCount, t'.obj k = t.obj k)
    (hcount : t.objCount ≤ t'.objCount) (hentries : t'.entries = t.entries)
    (hnext : t'.nextId = t.nextId) (hpending : t'.pending = t.pending)
    (hcompleted : t'.completed = t.completed) : t'.Ok done gone := by
  have hwaits : t'.waits = t.waits := by rw [Timers.waits, Timers.waits, hpending, hcompleted]
  refine ⟨⟨?_, fun w hw => ?_, fun w hw => ?_, fun p hp => ?_, hentries ▸ h.sound.keys, ?_,
    hnext ▸ h.sound.bound⟩, hpending ▸ h.one⟩
  · rw [hwaits]
    refine h.sound.issued.raise fun w hw => ?_
    rw [hobj _ (h.sound.known w hw).1]
  · rw [hwaits] at hw
    have hk := h.sound.known w hw
    rw [hobj _ hk.1, hentries, hnext]
    exact ⟨Nat.lt_of_lt_of_le hk.1 hcount, hk.2⟩
  · rw [hwaits] at hw
    rw [hobj _ (h.sound.known w hw).1, hentries]
    exact h.sound.live w hw
  · rw [hentries] at hp
    have hm := h.sound.mapped p hp
    rw [hobj _ hm.1, hnext]
    exact ⟨Nat.lt_of_lt_of_le hm.1 hcount, hm.2⟩
  · rw [hentries, hnext]
    exact h.sound.gone

theorem cancelWaits_fresh (h : ∀ w ∈ t.pending, w.1 ≠ r) : t.cancelWaits r = t := by
  have hkeep : (t.pending.filter fun w => w.1 ≠ r) = t.pending := by
    simpa using h
  have hnone : (t.pending.filter fun w => w.1 = r) = [] := by
    simpa using h
  cases t
  simp only [Timers.cancelWaits] at hkeep hnone ⊢
  rw [hkeep, hnone]
  simp

theorem Timers.Ok.discard {fault : Option ArmFault} {e : Error} {t₁ : Timers} (h : t.Ok done gone)
    (hnext : t.nextId ≠ 0)
    (harm : Timer.arm (t.withEntry value) t.objCount fault = (t₁, .error e)) :
    (t₁.erase t.nextId).Ok done gone := by
  have hold : ((t.nextId, t.objCount) :: t.entries).filter (fun p => p.1 ≠ t.nextId) =
      t.entries := by
    have hkeys : ∀ p ∈ t.entries, p.1 ≠ t.nextId :=
      fun p hp => Nat.ne_of_lt ((h.sound.mapped p hp).2.2 hnext)
    simpa using hkeys
  have hfresh : ∀ w ∈ t.pending, w.1 ≠ t.objCount := fun w hw =>
    Nat.ne_of_lt (h.sound.known w (List.mem_append_right _ (List.mem_append_left _ hw))).1
  have hobj : ∀ k < t.objCount, (t.setObj t.objCount value).obj k = t.obj k :=
    fun k hk => setObj_of_ne (Nat.ne_of_lt hk)
  obtain ⟨e', heq⟩ | ⟨e', heq⟩ | ⟨e', heq⟩ | ⟨t', heq, -, -⟩ :=
    arm_cases (t.withEntry value) t.objCount fault
  · rw [heq] at harm
    cases harm
    exact h.extend hobj (Nat.le_succ _) hold rfl rfl rfl
  · rw [heq] at harm
    cases harm
    refine h.extend (fun k hk => ?_) (Nat.le_succ _) hold rfl rfl rfl
    exact (setObj_of_ne (Nat.ne_of_lt hk)).trans (hobj k hk)
  · rw [heq, @cancelWaits_fresh ((t.withEntry value).nextCycle t.objCount) _ hfresh] at harm
    cases harm
    refine h.extend (fun k hk => ?_) (Nat.le_succ _) hold rfl rfl rfl
    exact (setObj_of_ne (Nat.ne_of_lt hk)).trans (hobj k hk)
  · rw [heq] at harm
    cases harm

theorem Timers.Ok.add {interval offset : Nat} {boundary : Bool} {level : Int}
    {callback userArg : Nat} (h : t.Ok done gone) :
    (add t env interval offset boundary level callback userArg).1.Ok done gone := by
  rw [Timer.add]
  by_cases hnext : t.nextId = 0
  · rw [if_pos hnext]
    exact h
  rw [if_neg hnext]
  cases env.makeShared with
  | some thrown => exact h
  | none =>
    simp only
    split
    · exact h
    · rename_i value hadvance
      obtain ⟨hid, -, -⟩ := advance_ok hadvance
      cases env.emplace with
      | some thrown => exact h
      | none =>
        simp only
        split
        · exact h
        · split
          · rename_i t₁ e heq
            exact h.discard hnext heq
          · rename_i t₁ heq
            have hnext₁ : t₁.nextId = t.nextId := by
              have hframe := (arm_frame (t.withEntry value) t.objCount env.arm).2
              rwa [heq] at hframe
            have hwrap : ∀ k : Nat, k < 2 ^ 64 → (k + 1) % 2 ^ 64 ≠ 0 → k < (k + 1) % 2 ^ 64 := by
              omega
            have hinsert := @Timers.Ok.insert _ _ value _ ((t.nextId + 1) % 2 ^ 64) h hid hnext
              (Nat.mod_lt _ (by decide)) (hwrap _ h.sound.bound)
            have hself : (((t.withEntry value).obj t.objCount).id, t.objCount) ∈
                (t.withEntry value).entries := by
              rw [setObj_same, hid]
              exact List.mem_cons_self
            have harm := @Timers.Ok.arm _ _ t.objCount _ hinsert hself env.arm
            rw [arm_nextId, heq] at harm
            rw [hnext₁]
            exact harm

theorem Timers.Ok.cancelEntry {w : Ticket} (h : t.Ok done gone) (hw : w ∈ done ++ t.waits)
    (hid : value.id = (t.obj w.1).id) (hgen : value.generation = (t.obj w.1).generation)
    (hc : value.cancelled) : ((t.setObj w.1 value).erase value.id).Ok done gone := by
  have hset : (t.setObj w.1 value).Ok done gone :=
    h.setObj hid (Nat.le_of_eq hgen.symm) fun _ => hc
  refine hset.erase fun w' _ hmem => ?_
  have hsame : w'.1 = w.1 := (h.sound.known w hw).2.2 w'.1 (hid ▸ hmem)
  rwa [hsame, setObj_same]

theorem Timers.Ok.retire {w : Ticket} (h : t.Ok done gone) (hw : w ∈ done ++ t.waits) :
    (retire t w.1).Ok done gone :=
  h.cancelEntry hw rfl rfl rfl

theorem Timers.Ok.afterCallback {w : Ticket} {again : Int} (h : t.Ok done gone)
    (hw : w ∈ done) : (afterCallback t w again env).Ok done gone := by
  have hflags : (t.setObj w.1 (t.obj w.1).clearRunning).Ok done gone :=
    h.setObj rfl (Nat.le_refl _) fun hc => hc
  have hw₁ := List.mem_append_left (t.setObj w.1 (t.obj w.1).clearRunning).waits hw
  rw [Timer.afterCallback]
  split
  · exact hflags
  split
  · exact hflags.cancelEntry hw₁ (by rw [setObj_same]; rfl) (by rw [setObj_same]; rfl) rfl
  split
  · exact hflags.retire hw₁
  rename_i hlive _ _ value hadvance
  obtain ⟨hid, hgen, hcancelled⟩ := advance_ok hadvance
  have hset : ((t.setObj w.1 (t.obj w.1).clearRunning).setObj w.1 value).Ok done gone := by
    refine hflags.setObj ?_ ?_ fun hc => ?_
    · rw [setObj_same, hid]
    · rw [setObj_same, hgen]
    · rw [setObj_same] at hc
      rw [hcancelled, hc]
  have hmem : ((((t.setObj w.1 (t.obj w.1).clearRunning).setObj w.1 value).obj w.1).id, w.1) ∈
      t.entries := by
    rw [setObj_same, hid]
    exact (h.sound.live w (List.mem_append_left _ hw)).resolve_left fun hc => hlive (.inl hc)
  have harm := hset.arm hmem env.arm
  split
  · rename_i t₂ e heq
    rw [heq] at harm
    exact harm.retire (List.mem_append_left _ hw)
  · rename_i t₂ heq
    rw [heq] at harm
    exact harm

theorem Timers.Ok.cancelAll (h : t.Ok done gone) (throws : Option Nat) (refs : List Ref) :
    (cancelAll t throws refs).Ok done gone := by
  have hcancel : ∀ {t : Timers} (r : Ref), t.Ok done gone →
      (t.setObj r (t.obj r).cancel).Ok done gone :=
    fun r h => h.setObj rfl (Nat.le_refl _) fun _ => rfl
  induction refs generalizing t throws with
  | nil => cases throws <;> exact h
  | cons r refs ih =>
    match throws with
    | none => exact ih ((hcancel r h).cancelWaits r) none
    | some 0 => exact hcancel r h
    | some (n + 1) => exact ih ((hcancel r h).cancelWaits r) (some n)

theorem setObj_cancel_cancelled {k : Ref} (hc : k = r ∨ (t.obj k).cancelled) :
    ((t.setObj r (t.obj r).cancel).obj k).cancelled := by
  by_cases hk : k = r
  · rw [hk, setObj_same]
    rfl
  · rw [setObj_of_ne hk]
    exact hc.resolve_left hk

theorem cancelAll_keeps {throws : Option Nat} {refs : List Ref} {k : Ref}
    (hc : (t.obj k).cancelled) : ((cancelAll t throws refs).obj k).cancelled := by
  induction refs generalizing t throws with
  | nil => cases throws <;> exact hc
  | cons r refs ih =>
    have hstep := @setObj_cancel_cancelled t r k (.inr hc)
    match throws with
    | none => exact @ih ((t.setObj r (t.obj r).cancel).cancelWaits r) none hstep
    | some 0 => exact hstep
    | some (n + 1) => exact @ih ((t.setObj r (t.obj r).cancel).cancelWaits r) (some n) hstep

theorem cancelAll_cancelled {throws : Option Nat} {refs : List Ref}
    (hthrows : throws.any (· < refs.length) = false) {k : Ref} (hk : k ∈ refs) :
    ((cancelAll t throws refs).obj k).cancelled := by
  induction refs generalizing t throws with
  | nil => cases hk
  | cons r refs ih =>
    have hstep : k = r → (((t.setObj r (t.obj r).cancel).cancelWaits r).obj k).cancelled :=
      fun hk => setObj_cancel_cancelled (.inl hk)
    match throws with
    | none =>
      cases List.mem_cons.mp hk with
      | inl hk => exact @cancelAll_keeps _ none refs _ (hstep hk)
      | inr hk => exact ih rfl hk
    | some 0 => simp at hthrows
    | some (n + 1) =>
      cases List.mem_cons.mp hk with
      | inl hk => exact @cancelAll_keeps _ (some n) refs _ (hstep hk)
      | inr hk => exact ih (by simpa using hthrows) hk

theorem cancelAll_entries (t : Timers) (throws : Option Nat) (refs : List Ref) :
    (cancelAll t throws refs).entries = t.entries := by
  induction refs generalizing t throws with
  | nil => cases throws <;> rfl
  | cons r refs ih =>
    match throws with
    | none => exact ih _ none
    | some 0 => rfl
    | some (n + 1) => exact ih _ (some n)

theorem Timers.Ok.clear (h : t.Ok done gone) (hc : ∀ p ∈ t.entries, (t.obj p.2).cancelled) :
    Timers.Ok { t with entries := [] } done gone := by
  refine ⟨⟨h.sound.issued, fun w hw => ?_, fun w hw => ?_, ?_, ?_, fun id hid => ?_,
    h.sound.bound⟩, h.one⟩
  · obtain ⟨hlt, hid, -⟩ := h.sound.known w hw
    exact ⟨hlt, hid, fun r hr => absurd hr List.not_mem_nil⟩
  · exact .inl ((h.sound.live w hw).elim (fun hlive => hlive) fun hmem => hc _ hmem)
  · simp
  · simp
  · exact ⟨fun r hr => absurd hr List.not_mem_nil, (h.sound.gone id hid).2⟩

theorem perm_complete {pending completed : List Ticket} {w : Ticket} {i : Nat}
    (h : pending[i]? = some w) :
    (pending ++ completed).Perm (pending.eraseIdx i ++ (completed ++ [w])) := by
  obtain ⟨hi, rfl⟩ := List.getElem?_eq_some_iff.mp h
  have hfront := (List.getElem_cons_eraseIdx_perm hi).symm.append_right completed
  have hback := (List.perm_append_singleton pending[i] (pending.eraseIdx i ++ completed)).symm
  rw [List.append_assoc] at hback
  exact hfront.trans hback

theorem Timers.Ok.complete {w : Ticket} {how : Completion} {i : Nat} (h : t.Ok done gone)
    (hi : t.pending[i]? = some w) :
    Timers.Ok { t with
      pending := t.pending.eraseIdx i
      completed := t.completed ++ [(w, how)] } done gone := by
  have hwaits : t.waits.Perm
      (t.pending.eraseIdx i ++ (t.completed ++ [(w, how)]).map Prod.fst) := by
    rw [List.map_append]
    exact perm_complete hi
  exact ⟨(h.sound.perm (hwaits.append_left done)).congr rfl rfl rfl rfl,
    h.one.sublist ((List.eraseIdx_sublist _ _).map _)⟩

theorem perm_handler {c : Ticket × Completion} {i : Nat} (h : t.completed[i]? = some c) :
    t.waits.Perm (c.1 :: Timers.waits { t with completed := t.completed.eraseIdx i }) := by
  obtain ⟨hi, rfl⟩ := List.getElem?_eq_some_iff.mp h
  have htake := ((List.getElem_cons_eraseIdx_perm hi).symm.map Prod.fst).append_left t.pending
  exact htake.trans List.perm_middle

theorem Timers.Ok.handler {c : Ticket × Completion} {i : Nat} (h : t.Ok done gone)
    (hi : t.completed[i]? = some c) :
    Timers.Ok { t with completed := t.completed.eraseIdx i } (c.1 :: done) gone := by
  have hperm := ((perm_handler hi).append_left done).trans List.perm_middle
  exact ⟨(h.sound.perm hperm).congr rfl rfl rfl rfl, h.one⟩

theorem Timers.Ok.forget {w : Ticket} (h : t.Ok (w :: done) gone) : t.Ok done gone :=
  ⟨h.sound.sublist (List.sublist_cons_self w _), h.one⟩

end Dynamips.Timer
