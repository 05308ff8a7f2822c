import Mathlib.Algebra.Order.Ring.Int

/-! Runs of a labelled transition system and the invariant rule for the runs
whose steps all meet a condition. -/
set_option autoImplicit false

namespace Dynamips.Runs

variable {σ ℓ : Type}

/-- A run from `s`. Its trace pairs each label with the state the step was
taken in. -/
inductive Run (step : σ → ℓ → σ → Prop) (s : σ) : List (σ × ℓ) → σ → Prop where
  | start : Run step s [] s
  | next {trace : List (σ × ℓ)} {t t' : σ} {l : ℓ} :
      Run step s trace t → step t l t' → Run step s (trace ++ [(t, l)]) t'

variable {step : σ → ℓ → σ → Prop} {s t : σ} {trace : List (σ × ℓ)}

/-- `P` at every state a run went through. -/
def Always (P : σ → Prop) (trace : List (σ × ℓ)) (t : σ) : Prop :=
  P t ∧ ∀ x ∈ trace, P x.1

/-- `ok` at every step of a run. -/
def AllSteps (ok : σ → ℓ → Prop) (trace : List (σ × ℓ)) : Prop :=
  ∀ x ∈ trace, ok x.1 x.2

instance {ok : σ → ℓ → Prop} [∀ t l, Decidable (ok t l)] : Decidable (AllSteps ok trace) :=
  inferInstanceAs (Decidable (∀ x ∈ trace, ok x.1 x.2))

theorem allSteps_snoc {ok : σ → ℓ → Prop} {l : ℓ} :
    AllSteps ok (trace ++ [(t, l)]) ↔ AllSteps ok trace ∧ ok t l := by
  simp only [AllSteps, List.mem_append, List.mem_singleton]
  constructor
  · intro h
    exact ⟨fun x hx => h x (Or.inl hx), h (t, l) (Or.inr rfl)⟩
  · intro h x hx
    cases hx with
    | inl hx => exact h.1 x hx
    | inr hx => exact hx ▸ h.2

theorem always_snoc {P : σ → Prop} {l : ℓ} {t' : σ} :
    Always P (trace ++ [(t, l)]) t' ↔ Always P trace t ∧ P t' := by
  simp only [Always, List.mem_append, List.mem_singleton]
  constructor
  · intro h
    exact ⟨⟨h.2 (t, l) (Or.inr rfl), fun x hx => h.2 x (Or.inl hx)⟩, h.1⟩
  · intro h
    refine ⟨h.2, fun x hx => ?_⟩
    cases hx with
    | inl hx => exact h.1.2 x hx
    | inr hx => exact hx ▸ h.1.1

theorem Run.invariant {P : σ → Prop} {ok : σ → ℓ → Prop}
    (hstep : ∀ t l t', P t → ok t l → step t l t' → P t')
    (hrun : Run step s trace t) (h0 : P s) (hok : AllSteps ok trace) :
    Always P trace t := by
  induction hrun with
  | start => exact ⟨h0, by simp⟩
  | next hrun hs ih =>
    obtain ⟨htr, hl⟩ := allSteps_snoc.mp hok
    have hp := ih htr
    exact always_snoc.mpr ⟨hp, hstep _ _ _ hp.1 hl hs⟩

/-- The invariant rule without a condition. -/
theorem Run.always {P : σ → Prop} (hstep : ∀ t l t', P t → step t l t' → P t')
    (hrun : Run step s trace t) (h0 : P s) : Always P trace t :=
  @Run.invariant _ _ _ _ _ _ P (fun _ _ => True) (fun t l t' h _ hs => hstep t l t' h hs)
    hrun h0 fun _ _ => trivial

/-- Where the condition is exactly what a step needs to keep the invariant,
the runs that keep it are exactly those whose steps meet the condition. -/
theorem Run.invariant_iff {P : σ → Prop} {ok : σ → ℓ → Prop}
    (hstep : ∀ t l t', P t → step t l t' → (P t' ↔ ok t l))
    (hrun : Run step s trace t) (h0 : P s) :
    Always P trace t ↔ AllSteps ok trace := by
  induction hrun with
  | start => exact ⟨fun _ => by simp [AllSteps], fun _ => ⟨h0, by simp⟩⟩
  | next hrun hs ih =>
    rw [always_snoc, allSteps_snoc, ← ih]
    constructor
    · intro h
      exact ⟨h.1, (hstep _ _ _ h.1.1 hs).mp h.2⟩
    · intro h
      exact ⟨h.1, (hstep _ _ _ h.1.1 hs).mpr h.2⟩

theorem Always.congr {P Q R : σ → Prop} (hP : Always P trace t) (h : ∀ s, P s → (Q s ↔ R s)) :
    Always Q trace t ↔ Always R trace t :=
  and_congr (h t hP.1) (forall₂_congr fun x hx => h x.1 (hP.2 x hx))

/-- The same rule over an invariant that every step keeps. -/
theorem Run.invariant_iff_of {P Q : σ → Prop} {ok : σ → ℓ → Prop}
    (hP : ∀ t l t', P t → step t l t' → P t')
    (hQ : ∀ t l t', P t → Q t → step t l t' → (Q t' ↔ ok t l))
    (hrun : Run step s trace t) (hP0 : P s) (hQ0 : Q s) :
    Always Q trace t ↔ AllSteps ok trace := by
  have hboth : Always (fun s => P s ∧ Q s) trace t ↔ AllSteps ok trace :=
    hrun.invariant_iff
      (fun t l t' h hs => (and_iff_right (hP t l t' h.1 hs)).trans (hQ t l t' h.1 h.2 hs))
      ⟨hP0, hQ0⟩
  rw [← hboth]
  exact (hrun.always hP hP0).congr fun s h => (and_iff_right h).symm

/-- What each step does in a state where the invariant holds, the whole run does. -/
theorem allSteps_of_always {P : σ → Prop} {Q : σ → ℓ → Prop}
    (h : ∀ t l, P t → Q t l) (ha : Always P trace t) : AllSteps Q trace := by
  intro x hx
  exact h x.1 x.2 (ha.2 x hx)

theorem Run.cons {s' : σ} {l : ℓ} (hs : step s l s') (hrun : Run step s' trace t) :
    Run step s ((s, l) :: trace) t := by
  induction hrun with
  | start => exact Run.next Run.start hs
  | next _ hl ih => exact Run.next ih hl

theorem Run.head {P : σ → Prop} (hrun : Run step s trace t) (h : Always P trace t) : P s := by
  induction hrun with
  | start => exact h.1
  | next _ _ ih => exact ih (always_snoc.mp h).1

theorem Run.mono {step' : σ → ℓ → σ → Prop} (h : ∀ t l t', step t l t' → step' t l t')
    (hrun : Run step s trace t) : Run step' s trace t := by
  induction hrun with
  | start => exact Run.start
  | next _ hl ih => exact Run.next ih (h _ _ _ hl)

/-- The run up to one of its steps. -/
theorem Run.split {pre post : List (σ × ℓ)} {x : σ × ℓ}
    (hrun : Run step s (pre ++ x :: post) t) : Run step s pre x.1 ∧ ∃ s', step x.1 x.2 s' := by
  generalize htrace : pre ++ x :: post = trace at hrun
  induction hrun generalizing post with
  | start => simp at htrace
  | next hrun hs ih =>
    obtain rfl | ⟨post', y, rfl⟩ := post.eq_nil_or_concat
    · obtain ⟨rfl, heq⟩ := List.append_inj' htrace rfl
      cases heq
      exact ⟨hrun, _, hs⟩
    · rw [List.concat_eq_append, ← List.cons_append, ← List.append_assoc] at htrace
      exact ih (List.append_inj' htrace rfl).1

/-- What each step does to an abstract state, the run does one after the other. -/
theorem Run.tracks {α : Type} {P : σ → Prop} {ok : σ → ℓ → Prop} (abs : σ → α)
    (upd : σ → ℓ → α → α)
    (hstep : ∀ t l t', P t → ok t l → step t l t' → P t' ∧ abs t' = upd t l (abs t))
    (hrun : Run step s trace t) (h0 : P s) (hok : AllSteps ok trace) :
    P t ∧ abs t = trace.foldl (fun a x => upd x.1 x.2 a) (abs s) := by
  induction hrun with
  | start => exact ⟨h0, rfl⟩
  | next hrun hs ih =>
    obtain ⟨htr, hl⟩ := allSteps_snoc.mp hok
    obtain ⟨hp, habs⟩ := ih htr
    obtain ⟨hp', habs'⟩ := hstep _ _ _ hp hl hs
    refine ⟨hp', ?_⟩
    rw [habs', habs, List.foldl_append]
    rfl

/-- A run whose steps are all enabled -/
theorem Run.enabled {en : σ → ℓ → Prop} (hrun : Run step s trace t) (hen : AllSteps en trace) :
    Run (fun s l s' => en s l ∧ step s l s') s trace t := by
  induction hrun with
  | start => exact Run.start
  | next _ hl ih =>
    obtain ⟨htrace, hlast⟩ := allSteps_snoc.mp hen
    exact Run.next (ih htrace) ⟨hlast, hl⟩

/-- The run of a step function over some labels. -/
def execute (f : σ → ℓ → Option σ) (s : σ) : List ℓ → Option (List (σ × ℓ) × σ)
  | [] => some ([], s)
  | l :: ls =>
    match f s l with
    | none => none
    | some s' => (execute f s' ls).map fun r => ((s, l) :: r.1, r.2)

theorem run_of_execute {f : σ → ℓ → Option σ} {ls : List ℓ}
    (h : execute f s ls = some (trace, t)) : Run (fun s l s' => f s l = some s') s trace t := by
  induction ls generalizing s trace with
  | nil =>
    cases h
    exact Run.start
  | cons l ls ih =>
    simp only [execute] at h
    split at h
    · cases h
    · rename_i s' hs
      simp only [Option.map_eq_some_iff, Prod.mk.injEq] at h
      obtain ⟨⟨_, _⟩, hr, rfl, rfl⟩ := h
      exact Run.cons hs (ih hr)

/-- The trace of a step function that never fails. -/
def history (f : σ → ℓ → σ) (s : σ) : List ℓ → List (σ × ℓ)
  | [] => []
  | l :: ls => (s, l) :: history f (f s l) ls

theorem allSteps_cons {ok : σ → ℓ → Prop} {l : ℓ} :
    AllSteps ok ((s, l) :: trace) ↔ ok s l ∧ AllSteps ok trace :=
  List.forall_mem_cons

theorem history_snoc (f : σ → ℓ → σ) (s : σ) (ls : List ℓ) (l : ℓ) :
    history f s (ls ++ [l]) = history f s ls ++ [(ls.foldl f s, l)] := by
  induction ls generalizing s with
  | nil => rfl
  | cons a ls ih => simp only [List.cons_append, history, ih, List.foldl_cons]

theorem run_history (f : σ → ℓ → σ) (s : σ) (ls : List ℓ) :
    Run (fun s l s' => s' = f s l) s (history f s ls) (ls.foldl f s) := by
  induction ls generalizing s with
  | nil => exact Run.start
  | cons l ls ih => exact Run.cons rfl (ih (f s l))

/-- Where the invariant makes `Q` and the condition the same at each step, and
the condition keeps the invariant, they are the same for the whole run. -/
theorem allSteps_history_iff {f : σ → ℓ → σ} {P : σ → Prop} {Q ok : σ → ℓ → Prop}
    (hP : ∀ t l, P t → ok t l → P (f t l)) (hQ : ∀ t l, P t → (Q t l ↔ ok t l))
    (h0 : P s) (ls : List ℓ) :
    AllSteps Q (history f s ls) ↔ AllSteps ok (history f s ls) := by
  induction ls generalizing s with
  | nil => simp [history, AllSteps]
  | cons l ls ih =>
    simp only [history, allSteps_cons, hQ s l h0]
    constructor
    · intro h
      exact ⟨h.1, (ih (hP s l h0 h.1)).mp h.2⟩
    · intro h
      exact ⟨h.1, (ih (hP s l h0 h.1)).mpr h.2⟩

end Dynamips.Runs
