import Dynamips.RegistryIndex
import Dynamips.Lib.Runs
import Mathlib.Data.List.Induction

/-! Runs of the registry: the indexes agree and every enumeration is newest
first, whatever the clients and their callbacks call. -/
set_option autoImplicit false

namespace Dynamips.Registry

open Runs

structure Indexed (r : State) (clock : Nat) (stamp : NodeId → Nat) : Prop where
  bucket : ∀ t, BucketOk (r.types t) r.nodes t clock stamp
  fresh : ∀ n, r.next ≤ n → (r.nodes n).linked = false

def Frame.actor : Frame → Option NodeId
  | .action n _ => some n
  | .visit v =>
    match v.kind with
    | .forEach => none
    | .eraseType => some v.current

/-- An enumeration goes through its snapshot in order, and the snapshot was in
order when it was taken. -/
def Enumerates (v : Visit) (remaining : List NodeId) : Prop :=
  (v.visited ++ remaining).Sublist v.snapshot ∧
    v.snapshot.Pairwise fun n m => v.stamps m < v.stamps n

structure Waiting (nodes : NodeId → Node) (stack : List Frame) : Prop where
  acting : ∀ n, (nodes n).acting = true ↔ n ∈ stack.filterMap Frame.actor
  once : (stack.filterMap Frame.actor).Nodup
  linked : ∀ n, (nodes n).acting = true → (nodes n).linked = true
  visits : ∀ v, Frame.visit v ∈ stack → Enumerates v v.remaining

variable {r : State} {clock : Nat} {stamp : NodeId → Nat} {stack : List Frame} {n : NodeId}

theorem indexed_setNode {value : Node} (h : Indexed r clock stamp)
    (hlinked : value.linked = (r.nodes n).linked)
    (htype : value.objectType = (r.nodes n).objectType)
    (hindexed : value.indexed = (r.nodes n).indexed) (hname : value.name = (r.nodes n).name) :
    Indexed (r.setNode n value) clock stamp := by
  have hfield : ∀ {α : Type} (f : Node → α), f value = f (r.nodes n) →
      ∀ m, f ((r.setNode n value).nodes m) = f (r.nodes m) := by
    intro α f hf m
    by_cases hm : m = n
    · subst hm
      simpa [State.setNode] using hf
    · simp [State.setNode, Function.update_of_ne hm]
  constructor
  · intro t
    exact bucketOk_congr (h.bucket t) (hfield Node.linked hlinked) (hfield Node.objectType htype)
      (hfield Node.indexed hindexed) (hfield Node.name hname)
  · intro m hm
    rw [hfield Node.linked hlinked]
    exact h.fresh m hm

theorem indexed_setReferences (h : Indexed r clock stamp) (refCount : Int) :
    Indexed (r.setReferences n refCount) clock stamp :=
  indexed_setNode h rfl rfl rfl rfl

theorem indexed_setActing (h : Indexed r clock stamp) (acting : Bool) :
    Indexed (r.setActing n acting) clock stamp :=
  indexed_setNode h rfl rfl rfl rfl

theorem indexed_setBucket {t : ObjectType} {value : Node} {b : Bucket} {clock' : Nat}
    {stamp' : NodeId → Nat} (h : Indexed r clock stamp)
    (hold : ∀ u, Live r.nodes u n → u = t) (htype : value.objectType = t)
    (hb : BucketOk b (Function.update r.nodes n value) t clock' stamp')
    (hstamp : ∀ m, m ≠ n → stamp' m = stamp m) (hclock : clock ≤ clock') (u : ObjectType) :
    BucketOk (((r.setNode n value).setBucket t b).types u) (Function.update r.nodes n value) u
      clock' stamp' := by
  by_cases hu : u = t
  · subst hu
    simpa [State.setBucket] using hb
  · have hvalue : ¬ Live (Function.update r.nodes n value) u n := by
      rintro ⟨-, heq⟩
      rw [Function.update_self, htype] at heq
      exact hu heq.symm
    simpa [State.setBucket, State.setNode, Function.update_of_ne hu] using
      bucketOk_other (h.bucket u) (fun hlive => hu (hold u hlive)) hvalue hstamp hclock

theorem indexed_remove (h : Indexed r clock stamp) (hn : (r.nodes n).linked = true) :
    Indexed (r.remove n) clock stamp := by
  constructor
  · exact indexed_setBucket h (fun u hu => hu.2.symm) rfl
      (bucketOk_erase (h.bucket _) ⟨hn, rfl⟩ rfl) (fun m _ => rfl) (Nat.le_refl clock)
  · intro m hm
    by_cases hmn : m = n
    · subst hmn
      simp [State.remove, State.setBucket, State.setNode]
    · simpa [State.remove, State.setBucket, State.setNode, Function.update_of_ne hmn]
        using h.fresh m hm

theorem add_error {object : Key} {data : Nat} {memory : AddMemory} {r' : State} {e : Error}
    (hadd : add r object data memory = (r', .error e)) : r' = r := by
  unfold add at hadd
  split at hadd
  · rename_i name t hname htype
    split at hadd
    · cases hadd
      rfl
    · split at hadd
      · cases hadd
        rfl
      · split at hadd
        · cases hadd
          rfl
        · rename_i hfree
          simp only at hadd
          split at hadd
          · cases hadd
            have hnames : Function.update (Function.update (r.types t).names name (some r.next))
                name none = (r.types t).names := by
              rw [Function.update_idem, ← hfree]
              exact Function.update_eq_self name _
            simp only [State.setBucket, Bucket.erase, Bucket.emplace, hnames]
            rw [Function.update_eq_self]
          · cases hadd
  · cases hadd
    rfl

theorem indexed_add {object : Key} {data : Nat} {memory : AddMemory} {r' : State}
    (h : Indexed r clock stamp) (hadd : add r object data memory = (r', .ok n)) :
    n = r.next ∧ (∀ m, m ≠ n → r'.nodes m = r.nodes m) ∧ (r'.nodes n).acting = false ∧
      (r'.nodes n).linked = true ∧ Indexed r' (clock + 1) (Function.update stamp n clock) := by
  unfold add at hadd
  split at hadd
  · rename_i name t hname htype
    split at hadd
    · cases hadd
    · split at hadd
      · cases hadd
      · split at hadd
        · cases hadd
        · rename_i hfree
          simp only at hadd
          split at hadd
          · cases hadd
          · cases hadd
            have hdead : ∀ u, ¬ Live r.nodes u r.next := by
              intro u hu
              rw [Live, h.fresh r.next (Nat.le_refl _)] at hu
              exact Bool.noConfusion hu.1
            have hfront := @bucketOk_emplace _ _ _ _ _ _ (Node.make t name data) (h.bucket t)
              (hdead t) hfree rfl rfl rfl
            refine ⟨rfl, ?_, ?_, ?_, ?_, ?_⟩
            · intro m hm
              simp [State.setBucket, State.setNode, Function.update_of_ne hm]
            · simp [State.setBucket, State.setNode, Node.make]
            · simp [State.setBucket, State.setNode, Node.make]
            · exact indexed_setBucket h (fun u hu => absurd hu (hdead u)) rfl hfront
                (fun m hm => Function.update_of_ne hm _ _) (Nat.le_succ clock)
            · intro m hm
              have hne : m ≠ r.next := Nat.ne_of_gt hm
              simpa [State.setBucket, State.setNode, Function.update_of_ne hne]
                using h.fresh m (Nat.le_of_lt hm)
  · cases hadd

theorem live_of_entry {object : Key} (h : Indexed r clock stamp) (he : r.entry object = .ok n) :
    (r.nodes n).linked = true := by
  unfold State.entry at he
  split at he
  · rename_i name t _ _
    split at he
    · split at he
      · cases he
      · rename_i m hfind
        cases he
        exact (((h.bucket t).named name n).mp hfind).1.1
    · cases he
  · cases he

theorem rename_cases {object : Key} {newName : Option String} :
    (∃ e, rename r object newName = (r, .error e)) ∨
    ∃ n name, r.entry object = .ok n ∧ (r.find (r.nodes n).objectType name) = none ∧
      rename r object newName =
        ((r.setNode n { r.nodes n with indexed := name, name := name }).setBucket
          (r.nodes n).objectType
          { ((r.types (r.nodes n).objectType).erase (r.nodes n).indexed).emplace name n with
            newest := n :: (r.types (r.nodes n).objectType).newest.erase n }, .ok n) := by
  cases newName with
  | none => exact Or.inl ⟨_, rfl⟩
  | some name =>
    cases hentry : r.entry object with
    | error e => exact Or.inl ⟨e, by simp only [rename, hentry]⟩
    | ok n =>
      by_cases hacting : (r.nodes n).acting = true
      · exact Or.inl ⟨.actionInProgress, by simp only [rename, hentry, if_pos hacting]⟩
      · by_cases hfind : (r.find (r.nodes n).objectType name).isSome = true
        · exact Or.inl ⟨.duplicate, by simp only [rename, hentry, if_neg hacting, if_pos hfind]⟩
        · refine Or.inr ⟨n, name, rfl, Option.not_isSome_iff_eq_none.mp hfind, ?_⟩
          simp only [rename, hentry, if_neg hacting, if_neg hfind]
          rfl

theorem rename_error {object : Key} {newName : Option String} {r' : State} {e : Error}
    (hrename : rename r object newName = (r', .error e)) : r' = r := by
  rcases @rename_cases r object newName with
    ⟨e', herr⟩ | ⟨n, name, -, -, hok⟩
  · rw [herr] at hrename
    cases hrename
    rfl
  · rw [hok] at hrename
    cases hrename

theorem indexed_rename {object : Key} {newName : Option String} {r' : State}
    (h : Indexed r clock stamp) (hrename : rename r object newName = (r', .ok n)) :
    (∀ m, (r'.nodes m).acting = (r.nodes m).acting ∧ (r'.nodes m).linked = (r.nodes m).linked) ∧
      Indexed r' (clock + 1) (Function.update stamp n clock) := by
  rcases @rename_cases r object newName with
    ⟨e', herr⟩ | ⟨n', name, hentry, hfree, hok⟩
  · rw [herr] at hrename
    cases hrename
  · rw [hok] at hrename
    cases hrename
    have hn := live_of_entry h hentry
    have hmoved := @bucketOk_rename _ _ _ _ _ n
      { r.nodes n with indexed := name, name := name } (h.bucket _) ⟨hn, rfl⟩ hfree hn rfl rfl
    refine ⟨?_, ?_, ?_⟩
    · intro m
      by_cases hm : m = n
      · subst hm
        simp [State.setBucket, State.setNode]
      · simp [State.setBucket, State.setNode, Function.update_of_ne hm]
    · exact indexed_setBucket h (fun u hu => hu.2.symm) rfl hmoved
        (fun m hm => Function.update_of_ne hm _ _) (Nat.le_succ clock)
    · intro m hm
      have hdead := h.fresh m hm
      by_cases hmn : m = n
      · subst hmn
        rw [hn] at hdead
        cases hdead
      · simpa [State.setBucket, State.setNode, Function.update_of_ne hmn] using hdead

variable {nodes nodes' : NodeId → Node} {f : Frame}

theorem waiting_congr (h : Waiting nodes stack)
    (hacting : ∀ m, (nodes' m).acting = (nodes m).acting)
    (hlinked : ∀ m, (nodes m).acting = true → (nodes' m).linked = true) :
    Waiting nodes' stack where
  acting := fun m => by rw [hacting]; exact h.acting m
  once := h.once
  linked := fun m hm => hlinked m (hacting m ▸ hm)
  visits := h.visits

theorem waiting_push (h : Waiting r.nodes stack) (hf : f.actor = some n)
    (hacting : (r.nodes n).acting = false) (hlinked : (r.nodes n).linked = true)
    (hvisit : ∀ v, f = .visit v → Enumerates v v.remaining) :
    Waiting (r.setActing n true).nodes (f :: stack) := by
  have hout : n ∉ stack.filterMap Frame.actor := by
    rw [← h.acting, hacting]
    exact Bool.false_ne_true
  have hactors : (f :: stack).filterMap Frame.actor = n :: stack.filterMap Frame.actor :=
    List.filterMap_cons_some hf
  constructor
  · intro m
    rw [hactors, List.mem_cons, ← h.acting]
    by_cases hm : m = n
    · subst hm
      simp [State.setActing, State.setNode]
    · simp [State.setActing, State.setNode, hm]
  · rw [hactors]
    exact List.nodup_cons.mpr ⟨hout, h.once⟩
  · intro m hm
    by_cases hmn : m = n
    · subst hmn
      simpa [State.setActing, State.setNode] using hlinked
    · simp only [State.setActing, State.setNode, Function.update_of_ne hmn] at hm ⊢
      exact h.linked m hm
  · intro v hv
    cases List.mem_cons.mp hv with
    | inl heq => exact hvisit v heq.symm
    | inr hmem => exact h.visits v hmem

theorem waiting_pushForEach {v : Visit} (h : Waiting nodes stack) (hv : v.kind = .forEach)
    (hvisit : Enumerates v v.remaining) : Waiting nodes (.visit v :: stack) := by
  have hactors : (Frame.visit v :: stack).filterMap Frame.actor = stack.filterMap Frame.actor :=
    List.filterMap_cons_none (by simp only [Frame.actor, hv])
  constructor
  · intro m
    rw [hactors]
    exact h.acting m
  · rw [hactors]
    exact h.once
  · exact h.linked
  · intro w hw
    cases List.mem_cons.mp hw with
    | inl heq =>
      cases heq
      exact hvisit
    | inr hmem => exact h.visits w hmem

theorem waiting_pop (h : Waiting nodes (f :: stack)) (hf : f.actor = some n)
    (hend : (nodes' n).acting = false)
    (hother : ∀ m, m ≠ n → (nodes' m).acting = (nodes m).acting ∧
      (nodes' m).linked = (nodes m).linked) : Waiting nodes' stack := by
  have hactors : (f :: stack).filterMap Frame.actor = n :: stack.filterMap Frame.actor :=
    List.filterMap_cons_some hf
  have honce := h.once
  rw [hactors, List.nodup_cons] at honce
  constructor
  · intro m
    by_cases hm : m = n
    · subst hm
      rw [hend]
      exact ⟨fun hfalse => absurd hfalse Bool.false_ne_true, fun hmem => absurd hmem honce.1⟩
    · rw [(hother m hm).1, h.acting, hactors, List.mem_cons]
      exact ⟨fun hmem => hmem.resolve_left hm, Or.inr⟩
  · exact honce.2
  · intro m hm
    by_cases hmn : m = n
    · subst hmn
      rw [hend] at hm
      cases hm
    · rw [(hother m hmn).1] at hm
      rw [(hother m hmn).2]
      exact h.linked m hm
  · exact fun v hv => h.visits v (List.mem_cons_of_mem f hv)

theorem waiting_popForEach {v : Visit} (h : Waiting nodes (.visit v :: stack))
    (hv : v.kind = .forEach) : Waiting nodes stack := by
  have hactors : (Frame.visit v :: stack).filterMap Frame.actor = stack.filterMap Frame.actor :=
    List.filterMap_cons_none (by simp only [Frame.actor, hv])
  constructor
  · intro m
    rw [← hactors]
    exact h.acting m
  · rw [← hactors]
    exact h.once
  · exact h.linked
  · exact fun w hw => h.visits w (List.mem_cons_of_mem _ hw)

theorem endAction_spec (h : Indexed r clock stamp) (hw : Waiting r.nodes (f :: stack))
    (hf : f.actor = some n) (remove accepted : Bool) :
    Indexed (endAction r n remove accepted).1 clock stamp ∧
      Waiting (endAction r n remove accepted).1.nodes stack := by
  have hacting : (r.nodes n).acting = true := by
    rw [hw.acting, List.filterMap_cons_some hf]
    exact List.mem_cons_self
  have hlinked := hw.linked n hacting
  unfold endAction
  by_cases hremove : (remove && accepted) = true
  · rw [if_pos hremove]
    refine ⟨indexed_setActing (indexed_remove h hlinked) false, waiting_pop hw hf ?_ ?_⟩
    · simp [State.setActing, State.setNode]
    · intro m hm
      simp [State.setActing, State.setNode, State.remove, State.setBucket,
        Function.update_of_ne hm]
  · rw [if_neg hremove]
    refine ⟨indexed_setActing h false, waiting_pop hw hf ?_ ?_⟩
    · simp [State.setActing, State.setNode]
    · intro m hm
      simp [State.setActing, State.setNode, Function.update_of_ne hm]

theorem startAction_callback {maximum : Int} {r' : State}
    (h : startAction r n maximum = .callback r') :
    r' = r.setActing n true ∧ (r.nodes n).acting = false := by
  unfold startAction at h
  split at h
  · cases h
  · rename_i hacting
    split at h
    · cases h
    · cases h
      exact ⟨rfl, Bool.eq_false_iff.mpr hacting⟩

theorem enumerates_skip {v : Visit} {remaining : List NodeId}
    (h : Enumerates v (n :: remaining)) : Enumerates v remaining :=
  ⟨((List.sublist_cons_self n remaining).append_left v.visited).trans h.1, h.2⟩

theorem enumerates_visit {v : Visit} {remaining : List NodeId}
    (h : Enumerates v (n :: remaining)) :
    Enumerates { v with visited := v.visited ++ [n] } remaining := by
  refine ⟨?_, h.2⟩
  have hsame : v.visited ++ [n] ++ remaining = v.visited ++ n :: remaining := by simp
  exact hsame ▸ h.1

/-- Where the loop of `visit` stops: at a callback, or at its end. -/
def VisitStops (clock : Nat) (stamp : NodeId → Nat) (stack : List Frame) :
    State × (Visit ⊕ Int) → Prop
  | (r, .inl v) => Indexed r clock stamp ∧ Waiting r.nodes (.visit v :: stack)
  | (r, .inr _) => Indexed r clock stamp ∧ Waiting r.nodes stack

theorem visitNext_spec {v : Visit} {remaining : List NodeId} (h : Indexed r clock stamp)
    (hw : Waiting r.nodes stack) (he : Enumerates v remaining) :
    VisitStops clock stamp stack (visitNext v r remaining) := by
  induction remaining generalizing v with
  | nil => exact ⟨h, hw⟩
  | cons n remaining ih =>
    rw [visitNext]
    by_cases hlinked : (r.nodes n).linked = true
    · rw [if_pos hlinked]
      have hvisit := enumerates_visit he
      cases hkind : v.kind with
      | forEach => exact ⟨h, waiting_pushForEach hw rfl hvisit⟩
      | eraseType =>
        simp only
        by_cases href : (r.nodes n).refCount = 0
        · rw [if_neg (not_not.mpr href)]
          cases hstart : startAction r n 0 with
          | reply result => exact ih hvisit
          | callback r' =>
            obtain ⟨rfl, hacting⟩ := startAction_callback hstart
            refine ⟨indexed_setActing h true, waiting_push hw ?_ hacting hlinked ?_⟩
            · simp only [Frame.actor]
            · intro w heq
              cases heq
              exact hvisit
        · rw [if_pos href]
          exact ih hvisit
    · rw [if_neg hlinked]
      exact ih (enumerates_skip he)

structure Inv (c : Config) : Prop where
  indexed : Indexed c.registry c.clock c.stamp
  waiting : Waiting c.registry.nodes c.stack

theorem inv_visit {c : Config} {v : Visit} {remaining : List NodeId}
    (h : Indexed r c.clock c.stamp) (hw : Waiting r.nodes c.stack)
    (he : Enumerates v remaining) : Inv (c.visit v r remaining).1 := by
  have hspec := visitNext_spec h hw he
  unfold Config.visit
  cases hnext : visitNext v r remaining with
  | mk r' stop =>
    rw [hnext] at hspec
    cases stop with
    | inl v' => exact ⟨hspec.1, hspec.2⟩
    | inr count => exact ⟨hspec.1, hspec.2⟩

theorem snapshot_eq {t : ObjectType} (h : Indexed r clock stamp) :
    (r.types t).newest.filterMap (fun n => r.find t (r.nodes n).indexed) = (r.types t).newest := by
  have hself : ∀ n ∈ (r.types t).newest, r.find t (r.nodes n).indexed = some n := by
    intro n hn
    exact ((h.bucket t).named _ n).mpr ⟨((h.bucket t).listed n).mp hn, rfl⟩
  rw [List.filterMap_congr hself, List.filterMap_some]

theorem inv_startVisit {c : Config} (h : Inv c) (kind : VisitKind) (type : Int) :
    Inv (c.startVisit kind type).1 := by
  unfold Config.startVisit
  split
  · exact h
  · rename_i t _
    split
    · refine inv_visit h.indexed h.waiting ⟨List.Sublist.refl _, ?_⟩
      rw [snapshot_eq h.indexed]
      exact (h.indexed.bucket t).order
    · exact h

theorem inv_setReferences {c : Config} (h : Inv c) (n : NodeId) (refCount : Int) :
    Inv (c.set (c.registry.setReferences n refCount)) := by
  refine ⟨indexed_setReferences h.indexed refCount, waiting_congr h.waiting ?_ ?_⟩
  · intro m
    by_cases hm : m = n
    · subst hm
      simp [Config.set, State.setReferences, State.setNode]
    · simp [Config.set, State.setReferences, State.setNode, Function.update_of_ne hm]
  · intro m hm
    have hlinked := h.waiting.linked m hm
    by_cases hmn : m = n
    · subst hmn
      simpa [Config.set, State.setReferences, State.setNode] using hlinked
    · simpa [Config.set, State.setReferences, State.setNode, Function.update_of_ne hmn]
        using hlinked

theorem inv_remove {c : Config} (h : Inv c) (hlinked : (c.registry.nodes n).linked = true)
    (hacting : (c.registry.nodes n).acting = false) : Inv (c.set (c.registry.remove n)) := by
  refine ⟨indexed_remove h.indexed hlinked, waiting_congr h.waiting ?_ ?_⟩
  · intro m
    by_cases hm : m = n
    · subst hm
      simp [Config.set, State.remove, State.setBucket, State.setNode]
    · simp [Config.set, State.remove, State.setBucket, State.setNode, Function.update_of_ne hm]
  · intro m hm
    have hmn : m ≠ n := fun heq => Bool.false_ne_true (hacting.symm.trans (heq ▸ hm))
    simpa [Config.set, State.remove, State.setBucket, State.setNode, Function.update_of_ne hmn]
      using h.waiting.linked m hm

theorem inv_decrement {c : Config} (h : Inv c) (n : NodeId) :
    Inv (c.set (decrement c.registry n).1) := by
  unfold decrement
  simp only
  split
  · exact h
  · split <;> exact inv_setReferences h n _

theorem inv_increment {c : Config} (h : Inv c) (n : NodeId) :
    Inv (c.set (increment c.registry n).1) := by
  unfold increment
  split
  · exact h
  · exact inv_setReferences h n _

theorem inv_erase {c : Config} (h : Inv c) (hlinked : (c.registry.nodes n).linked = true) :
    Inv (c.set (erase c.registry n).1) := by
  unfold erase
  simp only
  split
  · exact h
  · rename_i hacting
    split
    · exact h
    · have hset := inv_setReferences h n ((c.registry.nodes n).refCount - 1)
      split
      · refine inv_remove hset ?_ ?_
        · simpa [Config.set, State.setReferences, State.setNode] using hlinked
        · simpa [Config.set, State.setReferences, State.setNode] using hacting
      · exact hset

theorem inv_onEntry {c : Config} (h : Inv c) (object : Key) (answer : NodeId → Answer)
    {operation : State → NodeId → State × Except Error Unit}
    (hop : ∀ n, (c.registry.nodes n).linked = true → Inv (c.set (operation c.registry n).1)) :
    Inv (c.onEntry object answer operation).1 := by
  unfold Config.onEntry
  cases hentry : c.registry.entry object with
  | error e => exact h
  | ok n =>
    have hn := hop n (live_of_entry h.indexed hentry)
    simp only
    split
    · rename_i r e heq
      rw [heq] at hn
      exact hn
    · rename_i r heq
      rw [heq] at hn
      exact hn

theorem inv_add {c : Config} (h : Inv c) (object : Key) (data : Nat) (memory : AddMemory) :
    Inv (c.call (.add object data memory)).1 := by
  simp only [Config.call]
  split
  · rename_i r e heq
    have hsame := add_error heq
    exact hsame ▸ h
  · rename_i r n heq
    obtain ⟨hn, hother, hacting, hlinked, hindexed⟩ := indexed_add h.indexed heq
    have hdead : (c.registry.nodes n).acting = false := by
      by_contra hcon
      have hlive := h.waiting.linked n (Bool.eq_true_of_not_eq_false hcon)
      rw [h.indexed.fresh n (Nat.le_of_eq hn.symm)] at hlive
      cases hlive
    refine ⟨hindexed, waiting_congr h.waiting ?_ ?_⟩
    · intro m
      by_cases hm : m = n
      · subst hm
        exact hacting.trans hdead.symm
      · exact congrArg Node.acting (hother m hm)
    · intro m hm
      by_cases hmn : m = n
      · subst hmn
        exact hlinked
      · exact (congrArg Node.linked (hother m hmn)).trans (h.waiting.linked m hm)

theorem inv_rename {c : Config} (h : Inv c) (object : Key) (newName : Option String) :
    Inv (c.call (.rename object newName)).1 := by
  simp only [Config.call]
  split
  · rename_i r e heq
    have hsame := rename_error heq
    exact hsame ▸ h
  · rename_i r n heq
    obtain ⟨hflags, hindexed⟩ := indexed_rename h.indexed heq
    refine ⟨hindexed, waiting_congr h.waiting (fun m => (hflags m).1) ?_⟩
    intro m hm
    exact (hflags m).2.trans (h.waiting.linked m hm)

theorem inv_call {c : Config} (h : Inv c) (op : Op) : Inv (c.call op).1 := by
  cases op with
  | init => exact ⟨⟨h.indexed.bucket, h.indexed.fresh⟩, h.waiting⟩
  | add object data memory => exact inv_add h object data memory
  | rename object newName => exact inv_rename h object newName
  | acquire object => exact inv_onEntry h object _ fun n _ => inv_increment h n
  | lookup object => exact inv_onEntry h object _ fun n _ => h
  | retain object => exact inv_onEntry h object _ fun n _ => inv_increment h n
  | reset reference =>
    cases reference with
    | none => exact h
    | some n =>
      have hn := inv_decrement h n
      simp only [Config.call]
      split
      · exact h
      · split
        · split
          · rename_i r e heq
            rw [heq] at hn
            exact hn
          · rename_i r heq
            rw [heq] at hn
            exact hn
        · exact h
  | release object => exact inv_onEntry h object _ fun n _ => inv_decrement h n
  | erase object => exact inv_onEntry h object _ fun n hn => inv_erase h hn
  | execute object maximum remove =>
    simp only [Config.call]
    cases hentry : c.registry.entry object with
    | error e => exact h
    | ok n =>
      simp only
      cases hstart : startAction c.registry n maximum with
      | reply result => cases result <;> exact h
      | callback r =>
        obtain ⟨rfl, hacting⟩ := startAction_callback hstart
        refine ⟨indexed_setActing h.indexed true,
          waiting_push h.waiting rfl hacting (live_of_entry h.indexed hentry) ?_⟩
        intro v heq
        cases heq
  | forEach type => exact inv_startVisit h .forEach type
  | eraseType type => exact inv_startVisit h .eraseType type

theorem inv_resume {c c' : Config} {accepted : Bool} {reply : Reply} (h : Inv c)
    (hresume : c.resume accepted = some (c', reply)) : Inv c' := by
  unfold Config.resume at hresume
  cases hstack : c.stack with
  | nil =>
    rw [hstack] at hresume
    cases hresume
  | cons f stack =>
    rw [hstack] at hresume
    have hw : Waiting c.registry.nodes (f :: stack) := hstack ▸ h.waiting
    cases f with
    | action n remove =>
      cases hresume
      obtain ⟨hi, hs⟩ := endAction_spec h.indexed hw rfl remove accepted
      exact ⟨hi, hs⟩
    | visit v =>
      have hvisit := hw.visits v List.mem_cons_self
      simp only [Option.some.injEq] at hresume
      have hfinal : (({ c with stack } : Config).visit (endVisit c.registry v accepted).2
          (endVisit c.registry v accepted).1 (endVisit c.registry v accepted).2.remaining).1 = c' :=
        congrArg Prod.fst hresume
      rw [← hfinal]
      unfold endVisit
      cases hkind : v.kind with
      | forEach => exact inv_visit h.indexed (waiting_popForEach hw hkind) hvisit
      | eraseType =>
        have hactor : (Frame.visit v).actor = some v.current := by
          simp only [Frame.actor, hkind]
        obtain ⟨hi, hs⟩ := endAction_spec h.indexed hw hactor true accepted
        exact inv_visit hi hs hvisit

theorem inv_step {c c' : Config} {a : Action} (h : Inv c) (hstep : Step c a c') : Inv c' := by
  cases a with
  | call op =>
    cases hstep
    exact inv_call h op
  | resume accepted =>
    obtain ⟨reply, hresume⟩ := hstep
    exact inv_resume h hresume

theorem inv_initial : Inv Config.initial := by
  have hdead : ∀ t n, ¬ Live Config.initial.registry.nodes t n := by
    intro t n hn
    exact Bool.noConfusion hn.1
  refine ⟨⟨fun t => ⟨?_, ?_, ?_, List.Pairwise.nil, ?_⟩, fun n _ => rfl⟩, ⟨?_, ?_, ?_, ?_⟩⟩
  · exact fun n => ⟨fun hn => absurd hn List.not_mem_nil, fun hn => absurd hn (hdead t n)⟩
  · exact fun k n => ⟨fun hn => absurd hn.symm (Option.some_ne_none n),
      fun hn => absurd hn.1 (hdead t n)⟩
  · exact fun n hn => absurd hn (hdead t n)
  · exact fun n hn => absurd hn (hdead t n)
  · exact fun n => ⟨fun hn => absurd hn Bool.false_ne_true, fun hn => absurd hn List.not_mem_nil⟩
  · exact List.nodup_nil
  · exact fun n hn => absurd hn Bool.false_ne_true
  · exact fun v hv => absurd hv List.not_mem_nil

/-- The three views hold the same live entries, each once and with its own
name, and every enumeration goes from the last linked entry to the first. -/
structure Consistent (c : Config) : Prop where
  listed : ∀ t n, n ∈ (c.registry.types t).newest ↔ Live c.registry.nodes t n
  named : ∀ t name n, (c.registry.types t).names name = some n ↔
    Live c.registry.nodes t n ∧ (c.registry.nodes n).name = name
  once : ∀ t, (c.registry.types t).newest.Nodup
  unique : ∀ t n m, Live c.registry.nodes t n → Live c.registry.nodes t m →
    (c.registry.nodes n).name = (c.registry.nodes m).name → n = m
  newestFirst : ∀ t, (c.registry.types t).newest.Pairwise fun n m => c.stamp m < c.stamp n
  enumerations : ∀ v, Frame.visit v ∈ c.stack →
    v.visited.Pairwise fun n m => v.stamps m < v.stamps n

theorem consistent_of_inv {c : Config} (h : Inv c) : Consistent c where
  listed := fun t => (h.indexed.bucket t).listed
  named := by
    intro t name n
    have hb := h.indexed.bucket t
    rw [hb.named]
    constructor
    · intro hn
      exact ⟨hn.1, (hb.name_eq n hn.1).trans hn.2⟩
    · intro hn
      exact ⟨hn.1, (hb.name_eq n hn.1).symm.trans hn.2⟩
  once := fun t => (h.indexed.bucket t).nodup
  unique := by
    intro t n m hn hm heq
    have hb := h.indexed.bucket t
    rw [hb.name_eq n hn, hb.name_eq m hm] at heq
    exact hb.unique hn hm heq
  newestFirst := fun t => (h.indexed.bucket t).order
  enumerations := by
    intro v hv
    obtain ⟨hsub, horder⟩ := h.waiting.visits v hv
    exact horder.sublist ((List.sublist_append_left v.visited v.remaining).trans hsub)

theorem registry_consistent {trace : List (Config × Action)} {c : Config}
    (hrun : Run Step Config.initial trace c) : Consistent c := by
  have hinv := hrun.always (fun c a c' h hs => inv_step h hs) inv_initial
  exact consistent_of_inv hinv.1

def afterCalls (c : Config) (ops : List Op) : Config :=
  ops.foldl (fun c op => (c.call op).1) c

theorem exists_run_calls (c : Config) (ops : List Op) :
    ∃ trace, Run Step c trace (afterCalls c ops) := by
  induction ops using List.reverseRecOn with
  | nil => exact ⟨[], Run.start⟩
  | append_singleton ops op ih =>
    obtain ⟨trace, hrun⟩ := ih
    have hstep : Step (afterCalls c ops) (.call op) (afterCalls c (ops ++ [op])) := by
      simp only [Step, afterCalls, List.foldl_append, List.foldl_cons, List.foldl_nil]
    exact ⟨_, Run.next hrun hstep⟩

/-- Two NIOs, the older one renamed, and an enumeration that has reached it. -/
def twoEntries : List Op :=
  [.init, .add ⟨some "nio1", 1⟩ 0 .available, .add ⟨some "nio2", 1⟩ 0 .available,
    .rename ⟨some "nio1", 1⟩ (some "nio3"), .forEach 1]

theorem registry_consistent_two_entries :
    (afterCalls .initial twoEntries).stack ≠ [] ∧ Consistent (afterCalls .initial twoEntries) := by
  obtain ⟨trace, hrun⟩ := exists_run_calls .initial twoEntries
  exact ⟨List.cons_ne_nil _ _, registry_consistent hrun⟩

end Dynamips.Registry
