import Mathlib.Logic.Relation
import Mathlib.Tactic.ByContra

/-!
# Runs of partial transition systems

A transition system is a partial step function `step : σ → ε → Option σ`: in the
state `s` the event `e` leads to `t` when `step s e = some t`, and cannot happen
when `step s e = none`. A run is a list of events (`run`). Properties of runs are
proved from properties of single steps: `run_invariant` for what every step
preserves, `meets_invariant` for what is preserved by the steps that meet a
guard, and `meets_refines` for the steps that an abstract relation simulates.
-/

set_option autoImplicit false

namespace Vzgot.Transition

universe u v w

variable {σ : Type u} {ε : Type v}

/-- State after the events, or `none` when one of them cannot happen. -/
def run (step : σ → ε → Option σ) : σ → List ε → Option σ
  | s, [] => some s
  | s, e :: es => (step s e).bind fun t => run step t es

/-- Every step of the run from `s` meets the guard, which reads the event and
the state before it. -/
def Meets (step : σ → ε → Option σ) (guard : σ → ε → Prop) : σ → List ε → Prop
  | _, [] => True
  | s, e :: es => guard s e ∧ ∀ t, step s e = some t → Meets step guard t es

/-- `Meets` for a guard that can be computed. -/
def checkMeets (step : σ → ε → Option σ) (guard : σ → ε → Bool) : σ → List ε → Bool
  | _, [] => true
  | s, e :: es => guard s e && (step s e).all fun t => checkMeets step guard t es

/-- The property holds in every state of the run from `s`. -/
def Always (step : σ → ε → Option σ) (p : σ → Prop) (s : σ) (es : List ε) : Prop :=
  ∀ pre post m, es = pre ++ post → run step s pre = some m → p m

section Runs

variable {step : σ → ε → Option σ} {guard : σ → ε → Prop}

@[simp] theorem run_nil (s : σ) : run step s [] = some s := rfl

theorem run_cons (s : σ) (e : ε) (es : List ε) :
    run step s (e :: es) = (step s e).bind fun t => run step t es := rfl

theorem run_cons_eq_some {s t : σ} {e : ε} {es : List ε} :
    run step s (e :: es) = some t ↔ ∃ m, step s e = some m ∧ run step m es = some t := by
  rw [run_cons, Option.bind_eq_some_iff]

theorem run_append_eq_some {s t : σ} {es fs : List ε} :
    run step s (es ++ fs) = some t ↔ ∃ m, run step s es = some m ∧ run step m fs = some t := by
  induction es generalizing s with
  | nil => simp
  | cons e es ih =>
      simp only [List.cons_append, run_cons_eq_some, ih]
      constructor
      · rintro ⟨a, ha, m, hm, ht⟩
        exact ⟨m, ⟨a, ha, hm⟩, ht⟩
      · rintro ⟨m, ⟨a, ha, hm⟩, ht⟩
        exact ⟨a, ha, m, hm, ht⟩

theorem run_concat_eq_some {s t : σ} {es : List ε} {e : ε} :
    run step s (es ++ [e]) = some t ↔ ∃ m, run step s es = some m ∧ step m e = some t := by
  rw [run_append_eq_some]
  simp [run_cons_eq_some]

/-- A run on concrete events whose last state has a decidable property. -/
theorem exists_run {p : σ → Prop} [DecidablePred p] {s : σ} {es : List ε}
    (h : (run step s es).any (fun t => decide (p t)) = true) :
    ∃ t, run step s es = some t ∧ p t := by
  cases hr : run step s es with
  | none => simp [hr] at h
  | some t => exact ⟨t, rfl, by simpa [hr] using h⟩

@[simp] theorem meets_nil (s : σ) : Meets step guard s [] := trivial

theorem meets_cons {s : σ} {e : ε} {es : List ε} :
    Meets step guard s (e :: es) ↔
      guard s e ∧ ∀ t, step s e = some t → Meets step guard t es := Iff.rfl

theorem Meets.cons {s t : σ} {e : ε} {es : List ε} (hg : guard s e) (hs : step s e = some t)
    (h : Meets step guard t es) : Meets step guard s (e :: es) := by
  refine ⟨hg, fun t' ht' => ?_⟩
  rw [hs] at ht'
  exact Option.some.inj ht' ▸ h

theorem meets_append {s m : σ} {es fs : List ε} (hm : run step s es = some m) :
    Meets step guard s (es ++ fs) ↔ Meets step guard s es ∧ Meets step guard m fs := by
  induction es generalizing s with
  | nil =>
      simp only [run_nil, Option.some.injEq] at hm
      subst hm
      simp
  | cons e es ih =>
      obtain ⟨a, ha, hrun⟩ := run_cons_eq_some.1 hm
      simp only [List.cons_append, meets_cons, ha, Option.some.injEq, forall_eq']
      rw [ih hrun, and_assoc]

theorem meets_of_check {guard : σ → ε → Bool} {es : List ε} :
    ∀ {s : σ}, checkMeets step guard s es = true → Meets step (fun s e => guard s e = true) s es := by
  induction es with
  | nil => exact fun _ => trivial
  | cons e es ih =>
      intro s h
      simp only [checkMeets, Bool.and_eq_true, Option.all_eq_true] at h
      exact ⟨h.1, fun t ht => ih (h.2 t ht)⟩

/-- A run meets the guard when each of its events meets it behind the events before it. -/
theorem meets_of_forall {s : σ} {es : List ε}
    (h : ∀ pre e post m, es = pre ++ e :: post → run step s pre = some m → guard m e) :
    Meets step guard s es := by
  induction es generalizing s with
  | nil => trivial
  | cons e es ih =>
      refine ⟨h [] e es s rfl rfl, fun t ht => ih fun pre f post m heq hm => ?_⟩
      exact h (e :: pre) f post m (by rw [heq]; rfl) (run_cons_eq_some.2 ⟨t, ht, hm⟩)

theorem Meets.mono {guard' : σ → ε → Prop} (hg : ∀ s e, guard s e → guard' s e) :
    ∀ {s : σ} {es : List ε}, Meets step guard s es → Meets step guard' s es
  | _, [], _ => trivial
  | _, _ :: _, h => ⟨hg _ _ h.1, fun t ht => Meets.mono hg (h.2 t ht)⟩

/-- What every guarded step preserves holds after every run of guarded steps. -/
theorem meets_invariant {inv : σ → Prop}
    (hstep : ∀ s e t, inv s → guard s e → step s e = some t → inv t) :
    ∀ {es : List ε} {s t : σ}, inv s → Meets step guard s es → run step s es = some t → inv t := by
  intro es
  induction es with
  | nil =>
      intro s t hs _ hr
      simp only [run_nil, Option.some.injEq] at hr
      exact hr ▸ hs
  | cons e es ih =>
      intro s t hs hm hr
      obtain ⟨a, ha, hrun⟩ := run_cons_eq_some.1 hr
      exact ih (hstep s e a hs hm.1 ha) (hm.2 a ha) hrun

/-- What every step preserves holds after every run. -/
theorem run_invariant {inv : σ → Prop}
    (hstep : ∀ s e t, inv s → step s e = some t → inv t) :
    ∀ {es : List ε} {s t : σ}, inv s → run step s es = some t → inv t := by
  intro es
  induction es with
  | nil =>
      intro s t hs hr
      simp only [run_nil, Option.some.injEq] at hr
      exact hr ▸ hs
  | cons e es ih =>
      intro s t hs hr
      obtain ⟨a, ha, hrun⟩ := run_cons_eq_some.1 hr
      exact ih (hstep s e a hs ha) hrun

/-- A property that an invariant of the guarded steps implies. -/
theorem always_of_meets {inv p : σ → Prop} (hp : ∀ s, inv s → p s)
    (hkeep : ∀ s e t, inv s → guard s e → step s e = some t → inv t)
    {es : List ε} {s : σ} (hs : inv s) (hm : Meets step guard s es) : Always step p s es := by
  rintro pre post m rfl hr
  exact hp m (meets_invariant hkeep hs ((meets_append hr).1 hm).1 hr)

/-- When guarded steps keep an invariant that implies the property, and a step that misses
the guard breaks the property, the property holds all along a run exactly when the run
meets the guard. -/
theorem always_iff_meets {inv p : σ → Prop} (hp : ∀ s, inv s → p s)
    (hkeep : ∀ s e t, inv s → guard s e → step s e = some t → inv t)
    (hmiss : ∀ s e t, ¬ guard s e → step s e = some t → ¬ p t)
    {es : List ε} {s t : σ} (hs : inv s) (hr : run step s es = some t) :
    Always step p s es ↔ Meets step guard s es := by
  constructor
  · refine fun h => meets_of_forall fun pre e post m heq hm => ?_
    subst heq
    obtain ⟨m', hm', hrest⟩ := run_append_eq_some.1 hr
    obtain ⟨n, hn, -⟩ := run_cons_eq_some.1 hrest
    obtain rfl : m' = m := Option.some.inj (hm'.symm.trans hm)
    by_contra hg
    refine hmiss m' e n hg hn (h (pre ++ [e]) post n (by simp) ?_)
    exact run_concat_eq_some.2 ⟨m', hm, hn⟩
  · exact always_of_meets hp hkeep hs

theorem always_nil {p : σ → Prop} {s : σ} : Always step p s [] ↔ p s := by
  constructor
  · exact fun h => h [] [] s rfl rfl
  · rintro h pre post m heq hr
    obtain ⟨rfl, -⟩ := List.append_eq_nil_iff.1 heq.symm
    exact Option.some.inj hr ▸ h

theorem always_cons {p : σ → Prop} {s m : σ} {e : ε} {es : List ε} (hm : step s e = some m) :
    Always step p s (e :: es) ↔ p s ∧ Always step p m es := by
  constructor
  · intro h
    refine ⟨h [] (e :: es) s rfl rfl, fun pre post n heq hr => ?_⟩
    exact h (e :: pre) post n (by rw [heq]; rfl) (run_cons_eq_some.2 ⟨m, hm, hr⟩)
  · rintro ⟨hs, h⟩ pre post n heq hr
    cases pre with
    | nil => exact Option.some.inj hr ▸ hs
    | cons f pre =>
        obtain ⟨rfl, rfl⟩ := List.cons.inj heq
        obtain ⟨m', hm', hrest⟩ := run_cons_eq_some.1 hr
        rw [hm] at hm'
        exact h pre post n rfl (Option.some.inj hm' ▸ hrest)

/-- The same for steps that are allowed, when a step that misses the guard breaks the property
in a state that has the invariant. -/
theorem always_iff_meets_of_allowed {inv p : σ → Prop} {allowed : σ → ε → Prop}
    (hp : ∀ s, inv s → p s)
    (hkeep : ∀ s e t, inv s → allowed s e → guard s e → step s e = some t → inv t)
    (hmiss : ∀ s e t, inv s → ¬ guard s e → step s e = some t → ¬ p t) :
    ∀ {es : List ε} {s t : σ}, inv s → Meets step allowed s es → run step s es = some t →
      (Always step p s es ↔ Meets step guard s es) := by
  intro es
  induction es with
  | nil => exact fun hs _ _ => ⟨fun _ => trivial, fun _ => always_nil.2 (hp _ hs)⟩
  | cons e es ih =>
      intro s t hs hallowed hr
      obtain ⟨m, hm, hrest⟩ := run_cons_eq_some.1 hr
      rw [always_cons hm]
      by_cases hg : guard s e
      · have hinv := hkeep s e m hs hallowed.1 hg hm
        have hlater := ih hinv (hallowed.2 m hm) hrest
        constructor
        · exact fun h => Meets.cons hg hm (hlater.1 h.2)
        · exact fun h => ⟨hp s hs, hlater.2 (h.2 m hm)⟩
      · constructor
        · intro h
          have hpm : p m := h.2 [] es m rfl rfl
          exact absurd hpm (hmiss s e m hs hg hm)
        · exact fun h => absurd h.1 hg

/-- When a step that misses the guard dooms the run and doom is kept, a run either meets
the guard or is doomed. -/
theorem meets_or_doomed {inv doomed : σ → Prop}
    (hinv : ∀ s e t, inv s → step s e = some t → inv t)
    (hmiss : ∀ s e t, inv s → ¬ guard s e → step s e = some t → doomed t)
    (hkeep : ∀ s e t, inv s → doomed s → step s e = some t → doomed t) :
    ∀ {es : List ε} {s t : σ}, inv s → run step s es = some t →
      Meets step guard s es ∨ doomed t := by
  intro es
  induction es with
  | nil => exact fun _ _ => .inl trivial
  | cons e es ih =>
      intro s t hs hr
      obtain ⟨a, ha, hrun⟩ := run_cons_eq_some.1 hr
      have hinva := hinv s e a hs ha
      by_cases hg : guard s e
      · rcases ih hinva hrun with hm | hd
        · exact .inl (Meets.cons hg ha hm)
        · exact .inr hd
      · have hboth : ∀ u f v, inv u ∧ doomed u → step u f = some v → inv v ∧ doomed v :=
          fun u f v hu hv => ⟨hinv u f v hu.1 hv, hkeep u f v hu.1 hu.2 hv⟩
        exact .inr (run_invariant hboth ⟨hinva, hmiss s e a hs hg ha⟩ hrun).2

end Runs

/-! ## Refinement of guarded runs -/

section Refinement

variable {τ : Type w} {step : σ → ε → Option σ} {guard : σ → ε → Prop}

/-- When `abs` maps every guarded step to abstract steps or to a stutter, it maps
every run of guarded steps to an abstract run. -/
theorem meets_refines (inv : σ → Prop) (abs : σ → τ) {arel : τ → τ → Prop}
    (hinv : ∀ s e t, inv s → guard s e → step s e = some t → inv t)
    (hsim : ∀ s e t, inv s → guard s e → step s e = some t →
      Relation.ReflTransGen arel (abs s) (abs t)) :
    ∀ {es : List ε} {s t : σ}, inv s → Meets step guard s es → run step s es = some t →
      Relation.ReflTransGen arel (abs s) (abs t) := by
  intro es
  induction es with
  | nil =>
      intro s t _ _ hr
      simp only [run_nil, Option.some.injEq] at hr
      exact hr ▸ Relation.ReflTransGen.refl
  | cons e es ih =>
      intro s t hs hm hr
      obtain ⟨a, ha, hrun⟩ := run_cons_eq_some.1 hr
      exact (hsim s e a hs hm.1 ha).trans (ih (hinv s e a hs hm.1 ha) (hm.2 a ha) hrun)

end Refinement

end Vzgot.Transition
