import Mathlib.Data.List.Induction

/-!
# Runs of a partial step function

A component that reacts to events is a state type `σ`, an event type `ε`
and a function `step : σ → ε → Option σ`; `none` says that the event
cannot happen in that state. `run` folds `step` over a list of events.

Two induction rules cover what the developments need: `run_invariant`
for a property of the state alone, and `run_history` for a property of
the state together with the events taken so far. `EachStep` says that a
property holds of every step of a run, and `eachStep_iff` turns an
equivalence for one step ("the step is good exactly when it was taken
under this condition") into one about whole runs.
-/

namespace Runs

variable {σ ε : Type*} {step : σ → ε → Option σ}

/-- The state after the events `es`, taken in order from `s`; `none` when
one of them could not happen. -/
def run (step : σ → ε → Option σ) : σ → List ε → Option σ
  | s, [] => some s
  | s, e :: es => (step s e).bind fun t => run step t es

@[simp] theorem run_nil (s : σ) : run step s [] = some s := rfl

theorem run_cons {s : σ} {e : ε} {es : List ε} {u : σ} :
    run step s (e :: es) = some u ↔ ∃ t, step s e = some t ∧ run step t es = some u := by
  simp [run, Option.bind_eq_some_iff]

theorem run_append {es fs : List ε} : ∀ {s u : σ},
    run step s (es ++ fs) = some u ↔ ∃ t, run step s es = some t ∧ run step t fs = some u := by
  induction es with
  | nil => intro s u; simp
  | cons e es ih =>
      intro s u
      simp only [List.cons_append, run_cons, ih]
      constructor
      · rintro ⟨t, hst, v, htv, hvu⟩
        exact ⟨v, ⟨t, hst, htv⟩, hvu⟩
      · rintro ⟨v, ⟨t, hst, htv⟩, hvu⟩
        exact ⟨t, hst, v, htv, hvu⟩

theorem run_append_eq (es fs : List ε) (s : σ) :
    run step s (es ++ fs) = (run step s es).bind fun t => run step t fs := by
  refine Option.ext ?_
  intro u
  rw [run_append, Option.bind_eq_some_iff]

/-- Once the beginning of a run is known, the rest goes on from there. -/
theorem run_skip {es : List ε} {s t : σ} (h : run step s es = some t) (fs : List ε) :
    run step s (es ++ fs) = run step t fs := by
  rw [run_append_eq, h, Option.bind_some]

theorem run_singleton {s u : σ} {e : ε} : run step s [e] = some u ↔ step s e = some u := by
  simp [run_cons]

theorem run_snoc {s u : σ} {es : List ε} {e : ε} :
    run step s (es ++ [e]) = some u ↔ ∃ t, run step s es = some t ∧ step t e = some u := by
  simp only [run_append, run_singleton]

/-- A property that relates the state to the events so far, holds before
any event and is kept by every step, holds at the end of every run. -/
theorem run_history (Inv : List ε → σ → Prop) {s : σ} (h0 : Inv [] s)
    (hstep : ∀ es t e u, Inv es t → step t e = some u → Inv (es ++ [e]) u) :
    ∀ {es : List ε} {u : σ}, run step s es = some u → Inv es u := by
  intro es
  induction es using List.reverseRecOn with
  | nil =>
      intro u h
      obtain rfl := Option.some.inj h
      exact h0
  | append_singleton es e ih =>
      intro u h
      obtain ⟨t, ht, hu⟩ := run_snoc.mp h
      exact hstep es t e u (ih ht) hu

/-- **Invariant rule.** What holds at first and is kept by every step holds at
the end of every run. -/
theorem run_invariant (Inv : σ → Prop) (hstep : ∀ t e u, Inv t → step t e = some u → Inv u)
    {s : σ} (h0 : Inv s) {es : List ε} {u : σ} (h : run step s es = some u) : Inv u :=
  run_history (fun _ t => Inv t) h0 (fun _ t e u => hstep t e u) h

/-- A run of a step function that only allows fewer events is a run. -/
theorem run_mono {step' : σ → ε → Option σ}
    (hsub : ∀ s e u, step' s e = some u → step s e = some u) :
    ∀ {es : List ε} {s u : σ}, run step' s es = some u → run step s es = some u
  | [], _, _, h => h
  | _ :: _, _, _, h => by
      obtain ⟨t, ht, hu⟩ := run_cons.mp h
      exact run_cons.mpr ⟨t, hsub _ _ _ ht, run_mono hsub hu⟩

/-- **Simulation rule.** If every step taken under an invariant is matched
by the step `lab e` between the abstractions of the two states, every run
is matched by the run of its labels. -/
theorem run_refines {τ δ : Type*} {step' : τ → δ → Option τ} (Inv : σ → Prop)
    (abs : σ → τ) (lab : ε → δ)
    (hInv : ∀ t e u, Inv t → step t e = some u → Inv u)
    (hsim : ∀ t e u, Inv t → step t e = some u → step' (abs t) (lab e) = some (abs u)) :
    ∀ {es : List ε} {s u : σ}, Inv s → run step s es = some u →
      run step' (abs s) (es.map lab) = some (abs u)
  | [], _, _, _, h => by
      obtain rfl := Option.some.inj h
      rfl
  | e :: _, s, _, hs, h => by
      obtain ⟨t, ht, hu⟩ := run_cons.mp h
      exact run_cons.mpr ⟨abs t, hsim s e t hs ht, run_refines Inv abs lab hInv hsim
        (hInv s e t hs ht) hu⟩

/-! ## Properties of every step of a run -/

/-- `Q t e u` holds of every step `t → u` of the run, taken by the event `e`. -/
def EachStep (step : σ → ε → Option σ) (Q : σ → ε → σ → Prop) (s : σ) (es : List ε) : Prop :=
  ∀ pre e post, es = pre ++ e :: post →
    ∀ t u, run step s pre = some t → step t e = some u → Q t e u

theorem eachStep_nil {Q : σ → ε → σ → Prop} {s : σ} : EachStep step Q s [] := by
  intro pre e post h
  simp at h

theorem eachStep_cons {Q : σ → ε → σ → Prop} {s t : σ} {e : ε} {es : List ε}
    (hst : step s e = some t) :
    EachStep step Q s (e :: es) ↔ Q s e t ∧ EachStep step Q t es := by
  constructor
  · intro h
    refine ⟨h [] e es rfl s t rfl hst, ?_⟩
    intro pre f post heq u v hu hv
    refine h (e :: pre) f post (by rw [heq, List.cons_append]) u v ?_ hv
    exact run_cons.mpr ⟨t, hst, hu⟩
  · rintro ⟨hQ, h⟩ pre f post heq u v hu hv
    cases pre with
    | nil =>
        obtain ⟨rfl, rfl⟩ := List.cons.inj heq
        obtain rfl := Option.some.inj hu
        obtain rfl := Option.some.inj (hst.symm.trans hv)
        exact hQ
    | cons d pre =>
        obtain ⟨rfl, heq'⟩ := List.cons.inj heq
        obtain ⟨t', ht', hu'⟩ := run_cons.mp hu
        obtain rfl := Option.some.inj (hst.symm.trans ht')
        exact h pre f post heq' u v hu' hv

/-- A property of the events alone. -/
theorem eachStep_event {P : ε → Prop} :
    ∀ {es : List ε} {s u : σ}, run step s es = some u →
      (EachStep step (fun _ e _ => P e) s es ↔ ∀ e ∈ es, P e)
  | [], _, _, _ => ⟨fun _ => nofun, fun _ => eachStep_nil⟩
  | e :: es, s, _, hrun => by
      obtain ⟨t, hst, htu⟩ := run_cons.mp hrun
      rw [eachStep_cons hst, eachStep_event htu, List.forall_mem_cons]

theorem EachStep.left {Q : σ → ε → σ → Prop} {s : σ} {es fs : List ε}
    (h : EachStep step Q s (es ++ fs)) : EachStep step Q s es := by
  intro pre e post heq
  exact h pre e (post ++ fs) (by rw [heq, List.append_assoc, List.cons_append])

theorem EachStep.right {Q : σ → ε → σ → Prop} {s t : σ} {es fs : List ε}
    (h : EachStep step Q s (es ++ fs)) (hes : run step s es = some t) : EachStep step Q t fs := by
  intro pre e post heq u v hu hv
  refine h (es ++ pre) e post ?_ u v ?_ hv
  · rw [heq, List.append_assoc]
  · exact run_append.mpr ⟨t, hes, hu⟩

/-- `run_history`, for runs all steps of which meet a condition. -/
theorem run_each (Inv : List ε → σ → Prop) {Q : σ → ε → σ → Prop} {s : σ} (h0 : Inv [] s)
    (hstep : ∀ es t e u, Inv es t → step t e = some u → Q t e u → Inv (es ++ [e]) u)
    {es : List ε} {u : σ} (hrun : run step s es = some u) (hQ : EachStep step Q s es) :
    Inv es u := by
  have hboth : ∀ {es : List ε} {u : σ}, run step s es = some u →
      run step s es = some u ∧ (EachStep step Q s es → Inv es u) := by
    refine run_history (fun es u => run step s es = some u ∧ (EachStep step Q s es → Inv es u))
      ⟨rfl, fun _ => h0⟩ ?_
    rintro es t e u ⟨ht, hinv⟩ hu
    refine ⟨run_snoc.mpr ⟨t, ht, hu⟩, ?_⟩
    intro heach
    exact hstep es t e u (hinv heach.left) hu (heach es e [] rfl t u ht hu)
  exact (hboth hrun).2 hQ

/-- A property of every step from a state that satisfies an invariant. -/
theorem eachStep_of_invariant (Inv : σ → Prop) {Q : σ → ε → σ → Prop} {s : σ} (h0 : Inv s)
    (hstep : ∀ t e u, Inv t → step t e = some u → Inv u)
    (hQ : ∀ t e u, Inv t → step t e = some u → Q t e u) (es : List ε) : EachStep step Q s es :=
  fun _ e _ _ t u ht hu => hQ t e u (run_invariant Inv hstep h0 ht) hu

/-- **Per-step conditions over whole runs.** If, from states satisfying
`J`, a step is good exactly under the condition `R`, and `J` is kept as
long as steps are good, then all steps of a run are good exactly when
all of them meet the condition. -/
theorem eachStep_iff (J : σ → Prop) {Q R : σ → ε → σ → Prop}
    (hQ : ∀ t e u, J t → step t e = some u → (Q t e u ↔ R t e u))
    (hJ : ∀ t e u, J t → step t e = some u → Q t e u → J u) :
    ∀ {es : List ε} {s u : σ}, J s → run step s es = some u →
      (EachStep step Q s es ↔ EachStep step R s es)
  | [], _, _, _, _ => ⟨fun _ => eachStep_nil, fun _ => eachStep_nil⟩
  | e :: es, s, _, hs, hrun => by
      obtain ⟨t, hst, htu⟩ := run_cons.mp hrun
      rw [eachStep_cons hst, eachStep_cons hst, ← hQ s e t hs hst]
      refine and_congr_right ?_
      intro hgood
      exact eachStep_iff J hQ hJ (hJ s e t hs hst hgood) htu

/-- **Commutation rule.** A step that agrees with that of an abstraction,
errors included, agrees over whole runs. -/
theorem run_map {τ : Type*} {step' : τ → ε → Option τ} (Inv : σ → Prop) (abs : σ → τ)
    {Q : σ → ε → σ → Prop} (hInv : ∀ t e u, Inv t → Q t e u → step t e = some u → Inv u)
    (hmap : ∀ t e, Inv t → (∀ u, step t e = some u → Q t e u) →
      (step t e).map abs = step' (abs t) e) :
    ∀ {es : List ε} {s : σ}, Inv s → EachStep step Q s es →
      (run step s es).map abs = run step' (abs s) es
  | [], _, _, _ => rfl
  | e :: es, s, hs, hQ => by
      have hone : ∀ u, step s e = some u → Q s e u := fun u hu => hQ [] e es rfl s u rfl hu
      have hhead := hmap s e hs hone
      cases hst : step s e with
      | none =>
          rw [hst] at hhead
          rw [run, run, hst, ← hhead]
          rfl
      | some t =>
          rw [hst] at hhead
          rw [run, run, hst, ← hhead]
          exact run_map Inv abs hInv hmap (hInv s e t hs (hone t hst) hst)
            ((eachStep_cons hst).mp hQ).2

end Runs
