import Dynamips.FrameRelay

/-! Runs of the Frame Relay switches: the tables always hold what was configured,
the lists of the NIOs do until a switch is deleted with its connections. -/
set_option autoImplicit false

namespace Dynamips.Frsw
open BackLinks Buckets Rxl Nio Runs

variable {w w' : World} {op : Op} {lists : NioPtr → List VcPtr} {trace : List (World × Op)}

theorem tables_step (h : TablesOk w.fr w.config) (hs : Step w op w') :
    TablesOk w'.fr w'.config := by
  obtain ⟨hen, fuel, hmap⟩ := hs
  obtain ⟨⟨res, s'⟩, hr, rfl⟩ := Option.map_eq_some_iff.mp hmap
  cases op with
  | createTable t =>
    have hnone : w.fr.tables t = none := hen
    simp only [perform, frswCreateTable, hnone, Option.some.injEq, Prod.mk.injEq] at hr
    obtain ⟨rfl, rfl⟩ := hr
    refine h.setTable ?_ w.fr.nios
    rintro table ⟨⟩
    rfl
  | createVc t nioInput dlciIn nioOutput dlciOut mem granted =>
    rcases createVc_cases hr with ⟨rfl, n, rfl⟩ |
      ⟨rfl, table, vc, i, o, p, n, htable, rfl, hi, ho, hnew, -, rfl⟩
    · exact ⟨h.indexed, h.owner, h.config⟩
    · have hadd := @TablesOk.addVc _ _ _ _ _ ⟨i, o, dlciIn, dlciOut⟩ h htable (hen.2 vc rfl) hnew
        p n
      simpa [World.next, Config.next, hi, ho] using hadd
  | deleteVc t nioInput dlciIn nioOutput dlciOut =>
    rcases deleteVc_cases hr with ⟨rfl, rfl⟩ |
      ⟨rfl, table, vc, found, n, htable, hi, rfl, hfind, rfl⟩
    · exact h
    · simpa [World.next, Config.next, hi, vcKey] using h.removeVc htable hfind n
  | delete t =>
    obtain ⟨table, -, heq⟩ := Option.map_eq_some_iff.mp hr
    cases heq
    exact h.setTable (fun table hv => by cases hv) _
  | others n =>
    cases hr
    exact ⟨h.indexed, h.owner, h.config⟩

theorem live_setTable {s : FrState} {t : TablePtr} {v : Option (Table frswHashSize VcPtr)}
    (hold : ∀ table, s.tables t = some table → ∀ vc, ¬ Mem table vc)
    (hv : ∀ table, v = some table → table = empty _ _) (n : Nios) (vc : VcPtr) :
    Live { s with tables := Function.update s.tables t v, nios := n } vc ↔ Live s vc := by
  constructor
  · rintro ⟨t', table', ht, hvc⟩
    rcases tables_update ht with ⟨-, heq⟩ | ⟨-, ht⟩
    · rw [hv table' heq] at hvc
      exact absurd hvc not_mem_empty
    · exact ⟨t', table', ht, hvc⟩
  · rintro ⟨t', table', ht, hvc⟩
    have hne : t' ≠ t := by
      rintro rfl
      exact hold table' ht vc hvc
    exact ⟨t', table', by simpa [Function.update_of_ne hne] using ht, hvc⟩

theorem ListsOk.congr {s s' : FrState} (h : ListsOk s lists) (hlinks : s'.links = s.links)
    (hconns : s'.conns = s.conns) (hlive : ∀ vc, Live s' vc ↔ Live s vc) : ListsOk s' lists := by
  refine ⟨hlinks ▸ h.linked, fun nio => ?_, fun nio vc => ?_⟩
  · rw [hconns]
    exact h.sorted nio
  · rw [hlive, hconns]
    exact h.mem nio vc

theorem lists_delete {s : FrState} {c : Config} {t : TablePtr} (h : TablesOk s c)
    (hl : ListsOk s lists) (n : Nios) :
    (∃ lists, ListsOk { s with tables := Function.update s.tables t none, nios := n } lists) ↔
      ∀ table, s.tables t = some table → ∀ vc, ¬ Mem table vc := by
  constructor
  · rintro ⟨lists', hl'⟩ table htable vc hvc
    have hmem := (hl.mem (s.conns vc).input vc).mpr ⟨⟨t, table, htable, hvc⟩, rfl⟩
    have hsame := (hl.linked.segment (s.conns vc).input).unique
      (hl'.linked.segment (s.conns vc).input)
    rw [hsame] at hmem
    obtain ⟨⟨t', table', ht, hvc'⟩, -⟩ := (hl'.mem _ vc).mp hmem
    rcases tables_update ht with ⟨-, heq⟩ | ⟨hne, hold⟩
    · cases heq
    · exact hne (h.owner t' t table' table vc hold htable hvc' hvc)
  · intro hempty
    exact ⟨lists, hl.congr rfl rfl
      (live_setTable hempty (fun table hv => by cases hv) n)⟩

theorem lists_step (h : TablesOk w.fr w.config) (hl : ∃ lists, ListsOk w.fr lists)
    (hs : Step w op w') : (∃ lists, ListsOk w'.fr lists) ↔ NoVcLeft w op := by
  obtain ⟨lists, hl⟩ := hl
  obtain ⟨hen, fuel, hmap⟩ := hs
  obtain ⟨⟨res, s'⟩, hr, rfl⟩ := Option.map_eq_some_iff.mp hmap
  cases op with
  | createTable t =>
    have hnone : w.fr.tables t = none := hen
    simp only [perform, frswCreateTable, hnone, Option.some.injEq, Prod.mk.injEq] at hr
    obtain ⟨rfl, rfl⟩ := hr
    refine iff_of_true ⟨lists, hl.congr rfl rfl (live_setTable ?_ ?_ w.fr.nios)⟩ trivial
    · intro table htable
      rw [hnone] at htable
      cases htable
    · rintro table ⟨⟩
      rfl
  | createVc t nioInput dlciIn nioOutput dlciOut mem granted =>
    refine iff_of_true ?_ trivial
    rcases createVc_cases hr with ⟨rfl, n, rfl⟩ |
      ⟨rfl, table, vc, i, o, p, n, htable, rfl, hi, ho, hnew, hp, rfl⟩
    · exact ⟨lists, hl.congr rfl rfl fun _ => Iff.rfl⟩
    · exact ⟨_, @ListsOk.addVc _ _ _ _ ⟨i, o, dlciIn, dlciOut⟩ _ _ hl htable (hen.2 vc rfl) _ hp
        _ n⟩
  | deleteVc t nioInput dlciIn nioOutput dlciOut =>
    refine iff_of_true ?_ trivial
    rcases deleteVc_cases hr with ⟨rfl, rfl⟩ |
      ⟨rfl, table, vc, found, n, htable, hi, rfl, hfind, rfl⟩
    · exact ⟨lists, hl⟩
    · exact hl.removeVc h htable hfind n
  | delete t =>
    obtain ⟨table, -, heq⟩ := Option.map_eq_some_iff.mp hr
    cases heq
    exact lists_delete h hl _
  | others n =>
    cases hr
    exact iff_of_true ⟨lists, hl.congr rfl rfl fun _ => Iff.rfl⟩ trivial

theorem tables_init (n : Nios) : TablesOk (World.init n).fr (World.init n).config where
  indexed t table ht := by cases ht
  owner t t' table table' vc ht := by cases ht
  config t table ht := by cases ht

theorem lists_init (n : Nios) : ListsOk (World.init n).fr fun _ => [] where
  linked := lists_empty
  sorted _ := List.Pairwise.nil
  mem nio vc := by
    refine iff_of_false List.not_mem_nil ?_
    rintro ⟨⟨t, table, ht, -⟩, -⟩
    cases ht

theorem lists_always_iff {n : Nios} (hrun : Run Step (World.init n) trace w) :
    Always (fun w => ∃ lists, ListsOk w.fr lists) trace w ↔ AllSteps NoVcLeft trace :=
  hrun.invariant_iff_of (fun _ _ _ h hs => tables_step h hs)
    (fun _ _ _ h hl hs => lists_step h hl hs) (tables_init n) ⟨_, lists_init n⟩

/-- The switches do what they are for in every state of a run, exactly if no switch
is deleted that still has connections. -/
theorem fr_ok_iff {n : Nios} (hrun : Run Step (World.init n) trace w) :
    Always FrOk trace w ↔ AllSteps NoVcLeft trace := by
  have htables : Always (fun w => TablesOk w.fr w.config) trace w :=
    hrun.always (fun _ _ _ h hs => tables_step h hs) (tables_init n)
  rw [← lists_always_iff hrun]
  exact htables.congr fun w h => h.frOk

def tryStep (fuel : Nat) (w : World) (op : Op) : Option World :=
  (perform fuel w.fr op).map (w.next op)

theorem run_of_steps {n : Nios} {fuel : Nat} {ops : List Op}
    (h : execute (tryStep fuel) (World.init n) ops = some (trace, w))
    (hen : AllSteps (fun w op => Enabled w.fr op) trace) : Run Step (World.init n) trace w :=
  ((run_of_execute h).enabled hen).mono fun _ _ _ hs => ⟨hs.1, fuel, hs.2⟩

/-- Two connections, the second in front of the first, that are taken away before
their switch. -/
def orderlyOps : List Op :=
  [.createTable 0, .createVc 0 "A" 20 "B" 21 (some 5) true, .createVc 0 "A" 16 "B" 17 (some 6) true,
    .deleteVc 0 "A" 20 "B" 21, .deleteVc 0 "A" 16 "B" 17, .delete 0]

theorem fr_ok_orderly : ∃ trace w,
    execute (tryStep 2) (World.init twoNios) orderlyOps = some (trace, w) ∧
      Always FrOk trace w := by
  have hex : execute (tryStep 2) (World.init twoNios) orderlyOps = some (_, _) := rfl
  refine ⟨_, _, hex, (fr_ok_iff (run_of_steps hex ?_)).mpr ?_⟩
  · simp only [AllSteps, List.forall_mem_cons]
    refine ⟨rfl, ⟨⟨_, rfl⟩, ?_⟩, ⟨⟨_, rfl⟩, ?_⟩, ⟨_, rfl⟩, ⟨_, rfl⟩, ⟨_, rfl⟩, by simp⟩
    · rintro vc ⟨⟩ ⟨t, table, ht, hvc⟩
      rcases tables_update ht with ⟨-, heq⟩ | ⟨-, ht⟩
      · cases heq
        exact not_mem_empty hvc
      · cases ht
    · rintro vc ⟨⟩ ⟨t, table, ht, hvc⟩
      rcases tables_update ht with ⟨-, heq⟩ | ⟨hne, ht⟩
      · cases heq
        rcases mem_push.mp hvc with h | h
        · cases h
        · exact not_mem_empty h
      · rcases tables_update ht with ⟨heq, -⟩ | ⟨-, ht⟩
        · exact hne heq
        · cases ht
  · simp only [AllSteps, List.forall_mem_cons]
    refine ⟨trivial, trivial, trivial, trivial, trivial, ?_, by simp⟩
    rintro table ⟨⟩ vc ⟨b, hvc⟩
    by_cases h20 : b = frswDlciHash 20
    · subst h20
      cases hvc
    · by_cases h16 : b = frswDlciHash 16
      · subst h16
        cases hvc
      · change vc ∈ eraseFirst (eraseFirst (push (push (empty _ _) (frswDlciHash 20) 5)
          (frswDlciHash 16) 6) (frswDlciHash 20) _) (frswDlciHash 16) _ b at hvc
        rw [eraseFirst_of_ne h16, eraseFirst_of_ne h20, push_of_ne h16, push_of_ne h20] at hvc
        cases hvc

def abruptOps : List Op :=
  [.createTable 0, .createVc 0 "A" 20 "B" 21 (some 5) true, .delete 0]

theorem not_fr_ok : ∃ trace w,
    execute (tryStep 1) (World.init twoNios) abruptOps = some (trace, w) ∧
      Run Step (World.init twoNios) trace w ∧ ¬ FrOk w := by
  have hex : execute (tryStep 1) (World.init twoNios) abruptOps = some (_, _) := rfl
  refine ⟨_, _, hex, run_of_steps hex ?_, fun hok => ?_⟩
  · simp only [AllSteps, List.forall_mem_cons]
    refine ⟨rfl, ⟨⟨_, rfl⟩, ?_⟩, ⟨_, rfl⟩, by simp⟩
    rintro vc ⟨⟩ ⟨t, table, ht, hvc⟩
    rcases tables_update ht with ⟨-, heq⟩ | ⟨-, ht⟩
    · cases heq
      exact not_mem_empty hvc
    · cases ht
  · obtain ⟨l, hl, -, hmem⟩ := hok.lists 0
    cases l with
    | nil => cases hl
    | cons vc l =>
      obtain ⟨⟨t, table, ht, -⟩, -⟩ := (hmem vc).mp List.mem_cons_self
      rcases tables_update ht with ⟨-, heq⟩ | ⟨hne, ht⟩
      · cases heq
      · rcases tables_update ht with ⟨heq, -⟩ | ⟨-, ht⟩
        · exact hne heq
        · rcases tables_update ht with ⟨heq, -⟩ | ⟨-, ht⟩
          · exact hne heq
          · cases ht

end Dynamips.Frsw
