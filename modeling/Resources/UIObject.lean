import Mathlib.Data.List.Nodup
import Mathlib.Data.List.Perm.Basic
import Resources.Runs

/-!
# `UIObject.callLater`

A method that is to be called later waits for the next `ENTER_FRAME` or
`RENDER` event at which the object is on the stage. The object listens to
the stage only while it has to, and to its being added to the stage when
there is none. `PlainObject` is the same without listeners: it looks at
every such event. The two do the same in every run (`refines_plain`),
unless the object is disposed of while methods wait.

A method may ask for further calls; other things it may do are left out.
What it asks for waits for the next event, which may be the `RENDER` event
of the same frame: a method that asks for itself is then called twice in
one frame, and once at each event.
-/

namespace Resources

namespace UIObject

variable {φ : Type*} [DecidableEq φ]

/-! ## The code -/

/-- The private fields of the object, and what its listeners are. -/
structure State (φ : Type*) where
  /-- `stage != null`. -/
  onStage : Bool
  /-- The keys of the dictionary. -/
  callLaterMethods : List φ
  /-- `callLaterDispatcher` listens to `ENTER_FRAME` and `RENDER` of the stage. -/
  stageListener : Bool
  /-- It listens to `ADDED_TO_STAGE`. -/
  addedListener : Bool
  /-- All calls so far. -/
  called : List φ

namespace State

/-- A method waits at most once. Where it is new, a listener is added: to the
stage, or to being added to it. -/
def callLater (s : State φ) (fn : φ) : State φ :=
  if fn ∈ s.callLaterMethods then s
  else
    let s := { s with callLaterMethods := s.callLaterMethods ++ [fn] }
    if s.onStage then { s with stageListener := true } else { s with addedListener := true }

/-- `callLaterDispatcher`, for `ADDED_TO_STAGE`. -/
def addedToStage (s : State φ) : State φ :=
  { s with addedListener := false, stageListener := true }

/-- A method is called, and `body` says what it asks for in turn. -/
def call (body : φ → List φ) (s : State φ) (method : φ) : State φ :=
  (body method).foldl callLater { s with called := s.called ++ [method] }

/-- The `callLaterDispatcher`, for one event of the stage. It empties the
dictionary before it calls anything, so that what is asked for meanwhile waits
for the next event. The dictionary is gone through in some order, which is the
argument. -/
def frame (body : φ → List φ) (order : List φ) (s : State φ) : State φ :=
  let s := { s with stageListener := false }
  if s.onStage then order.foldl (call body) { s with callLaterMethods := [] }
  else { s with addedListener := true }

/-- The listeners are removed, but the dictionary is not emptied. Off the stage
the second line is an error, so that only the first listener is gone. -/
def disposeMethod (s : State φ) : State φ :=
  let s := { s with addedListener := false }
  if s.onStage then { s with stageListener := false } else s

end State

def new : State φ where
  onStage := false
  callLaterMethods := []
  stageListener := false
  addedListener := false
  called := []

/-- What can happen to the object. It listens to the stage with
`callLaterDispatcher` only, and that looks at the type of the event. -/
inductive Event (φ : Type*) where
  | callLater (fn : φ)
  | addToStage
  | removeFromStage
  /-- One `ENTER_FRAME` or one `RENDER` event of the stage, with the order of
  the dictionary. -/
  | frame (order : List φ)
  | dispose

/-- An event that is not listened to changes nothing. An order of the
dictionary is any order of its keys. -/
def step (body : φ → List φ) (s : State φ) : Event φ → Option (State φ)
  | .callLater fn => some (s.callLater fn)
  | .addToStage =>
      if s.onStage then none
      else if s.addedListener then some { s with onStage := true }.addedToStage
      else some { s with onStage := true }
  | .removeFromStage => if s.onStage then some { s with onStage := false } else none
  | .frame order =>
      if order.Perm s.callLaterMethods then
        if s.stageListener then some (s.frame body order) else some s
      else none
  | .dispose => some s.disposeMethod

/-! ## Without listeners -/

/-- The same without listeners: an object that looks at every event of the
stage. -/
structure PlainObject (φ : Type*) where
  onStage : Bool
  waiting : List φ
  called : List φ

namespace PlainObject

def ask (p : PlainObject φ) (fn : φ) : PlainObject φ :=
  if fn ∈ p.waiting then p else { p with waiting := p.waiting ++ [fn] }

def call (body : φ → List φ) (p : PlainObject φ) (method : φ) : PlainObject φ :=
  (body method).foldl ask { p with called := p.called ++ [method] }

def step (body : φ → List φ) (p : PlainObject φ) : Event φ → Option (PlainObject φ)
  | .callLater fn => some (p.ask fn)
  | .addToStage => if p.onStage then none else some { p with onStage := true }
  | .removeFromStage => if p.onStage then some { p with onStage := false } else none
  | .frame order =>
      if order.Perm p.waiting then
        if p.onStage then some (order.foldl (call body) { p with waiting := [] }) else some p
      else none
  | .dispose => some p

end PlainObject

def State.plain (s : State φ) : PlainObject φ where
  onStage := s.onStage
  waiting := s.callLaterMethods
  called := s.called

/-! ## The object listens where it has to -/

variable {body : φ → List φ} {s s' : State φ}

/-- Where something waits, it will be heard of: on the stage by the next event
of that, off the stage when the object comes onto it. A listener to the stage
that is left from before helps as well, since it adds the other one. -/
structure Inv (s : State φ) : Prop where
  onStage : s.onStage = true → s.callLaterMethods ≠ [] → s.stageListener = true
  offStage : s.onStage = false → s.callLaterMethods ≠ [] →
    s.stageListener = true ∨ s.addedListener = true
  nodup : s.callLaterMethods.Nodup

theorem plain_callLater (fn : φ) : (s.callLater fn).plain = s.plain.ask fn := by
  unfold State.callLater PlainObject.ask State.plain
  simp only
  split
  · rfl
  · split <;> rfl

theorem inv_callLater (h : Inv s) (fn : φ) : Inv (s.callLater fn) := by
  unfold State.callLater
  split
  · exact h
  · next hnew =>
      have hnodup : (s.callLaterMethods ++ [fn]).Nodup := by
        rw [List.nodup_append]
        refine ⟨h.nodup, List.nodup_singleton fn, ?_⟩
        rintro a ha b hb rfl
        rw [List.mem_singleton.mp hb] at ha
        exact hnew ha
      simp only
      split
      · next hon => exact ⟨fun _ _ => rfl, fun hoff => absurd (hon.symm.trans hoff) nofun, hnodup⟩
      · next hoff => exact ⟨fun hon => absurd hon hoff, fun _ _ => Or.inr rfl, hnodup⟩

theorem callLater_all (fns : List φ) : ∀ s : State φ, Inv s →
    Inv (fns.foldl State.callLater s) ∧
      (fns.foldl State.callLater s).plain = fns.foldl PlainObject.ask s.plain := by
  induction fns with
  | nil => exact fun s h => ⟨h, rfl⟩
  | cons fn fns ih =>
      intro s h
      obtain ⟨hinv, hplain⟩ := ih (s.callLater fn) (inv_callLater h fn)
      refine ⟨hinv, ?_⟩
      rw [List.foldl_cons, hplain, plain_callLater, List.foldl_cons]

theorem call_all (body : φ → List φ) (methods : List φ) : ∀ s : State φ, Inv s →
    Inv (methods.foldl (State.call body) s) ∧
      (methods.foldl (State.call body) s).plain =
        methods.foldl (PlainObject.call body) s.plain := by
  induction methods with
  | nil => exact fun s h => ⟨h, rfl⟩
  | cons method methods ih =>
      intro s h
      have hlog : Inv { s with called := s.called ++ [method] } :=
        ⟨h.onStage, h.offStage, h.nodup⟩
      obtain ⟨hcall, hplain⟩ := callLater_all (body method) _ hlog
      obtain ⟨hinv, hrest⟩ := ih (s.call body method) hcall
      refine ⟨hinv, ?_⟩
      rw [List.foldl_cons, hrest, State.call, hplain, List.foldl_cons]
      rfl

/-- On the stage an event calls what waits, and off the stage it calls nothing;
in both cases it leaves the listener that is needed. -/
theorem refines_frame (h : Inv s) {order : List φ}
    (hstep : step body s (.frame order) = some s') :
    Inv s' ∧ PlainObject.step body s.plain (.frame order) = some s'.plain := by
  simp only [step] at hstep
  split at hstep
  · next horder =>
      have hplain : PlainObject.step body s.plain (.frame order) =
          if s.onStage then some (order.foldl (PlainObject.call body) { s.plain with waiting := [] })
          else some s.plain := if_pos horder
      rw [hplain]
      split at hstep
      · obtain rfl := Option.some.inj hstep
        unfold State.frame
        simp only
        split
        · next hon =>
            have hstart : Inv { s with stageListener := false, callLaterMethods := [] } :=
              ⟨fun _ hne => absurd rfl hne, fun _ hne => absurd rfl hne, List.nodup_nil⟩
            obtain ⟨hinv, hcalls⟩ := call_all body order _ hstart
            exact ⟨hinv, congrArg some hcalls.symm⟩
        · next hoff =>
            exact ⟨⟨fun hon => absurd hon hoff, fun _ _ => Or.inr rfl, h.nodup⟩, rfl⟩
      · next hquiet =>
          obtain rfl := Option.some.inj hstep
          refine ⟨h, ?_⟩
          split
          · next hon =>
              have hnone : s.callLaterMethods = [] := by
                by_contra hne
                exact hquiet (h.onStage hon hne)
              rw [hnone] at horder
              rw [List.Perm.eq_nil horder]
              unfold State.plain
              rw [hnone]
              rfl
          · rfl
  · cases hstep

/-- Each event does the same to both, and keeps the listeners. Disposing of the
object is the exception: it keeps them only where nothing waits. -/
theorem refines_step {e : Event φ} (h : Inv s) (hstep : step body s e = some s')
    (hdispose : e = .dispose → s.callLaterMethods = []) :
    Inv s' ∧ PlainObject.step body s.plain e = some s'.plain := by
  cases e with
  | callLater fn =>
      obtain rfl := Option.some.inj hstep
      exact ⟨inv_callLater h fn, congrArg some (plain_callLater fn).symm⟩
  | addToStage =>
      have hplain : PlainObject.step body s.plain .addToStage =
          if s.onStage then none else some { s.plain with onStage := true } := rfl
      rw [hplain]
      simp only [step] at hstep
      split at hstep
      · cases hstep
      · next hoff =>
          rw [if_neg hoff]
          split at hstep
          · obtain rfl := Option.some.inj hstep
            exact ⟨⟨fun _ _ => rfl, nofun, h.nodup⟩, rfl⟩
          · next hquiet =>
              obtain rfl := Option.some.inj hstep
              refine ⟨⟨?_, nofun, h.nodup⟩, rfl⟩
              intro _ hne
              rw [Bool.not_eq_true] at hoff
              exact (h.offStage hoff hne).resolve_right hquiet
  | removeFromStage =>
      have hplain : PlainObject.step body s.plain .removeFromStage =
          if s.onStage then some { s.plain with onStage := false } else none := rfl
      rw [hplain]
      simp only [step] at hstep
      split at hstep
      · next hon =>
          rw [if_pos hon]
          obtain rfl := Option.some.inj hstep
          exact ⟨⟨nofun, fun _ hne => Or.inl (h.onStage hon hne), h.nodup⟩, rfl⟩
      · cases hstep
  | frame order => exact refines_frame h hstep
  | dispose =>
      obtain rfl := Option.some.inj hstep
      have hnone := hdispose rfl
      unfold State.disposeMethod
      simp only
      split
      · exact ⟨⟨fun _ hne => absurd hnone hne, fun _ hne => absurd hnone hne, h.nodup⟩, rfl⟩
      · exact ⟨⟨fun _ hne => absurd hnone hne, fun _ hne => absurd hnone hne, h.nodup⟩, rfl⟩

/-! ## What is called at one event -/

/-- An event of the stage calls all that has waited, each method once, if the
object is on the stage. Nothing else calls a method. -/
def CallsOnce (s : State φ) (e : Event φ) (s' : State φ) : Prop :=
  match e with
  | .frame order => order.Perm s.callLaterMethods ∧ order.Nodup ∧
      s'.called = if s.onStage then s.called ++ order else s.called
  | _ => s'.called = s.called

theorem called_callLater (fn : φ) (s : State φ) : (s.callLater fn).called = s.called := by
  unfold State.callLater
  split
  · rfl
  · simp only
    split <;> rfl

theorem called_asks (fns : List φ) : ∀ s : State φ,
    (fns.foldl State.callLater s).called = s.called := by
  induction fns with
  | nil => exact fun _ => rfl
  | cons fn fns ih =>
      intro s
      rw [List.foldl_cons, ih, called_callLater]

theorem called_calls (body : φ → List φ) (methods : List φ) : ∀ s : State φ,
    (methods.foldl (State.call body) s).called = s.called ++ methods := by
  induction methods with
  | nil => exact fun s => (List.append_nil s.called).symm
  | cons method methods ih =>
      intro s
      rw [List.foldl_cons, ih, State.call, called_asks, List.append_assoc, List.singleton_append]

/-- An event of the stage, whether or not the object listens to it. -/
theorem callsOnce_frame (h : Inv s) {order : List φ}
    (hstep : step body s (.frame order) = some s') : CallsOnce s (.frame order) s' := by
  simp only [step] at hstep
  split at hstep
  · next horder =>
      refine ⟨horder, horder.nodup_iff.mpr h.nodup, ?_⟩
      split at hstep
      · obtain rfl := Option.some.inj hstep
        unfold State.frame
        simp only
        split
        · exact called_calls body order _
        · rfl
      · next hquiet =>
          obtain rfl := Option.some.inj hstep
          split
          · next hon =>
              -- on the stage only an object with nothing to do does not listen
              have hnone : s.callLaterMethods = [] := by
                by_contra hne
                exact hquiet (h.onStage hon hne)
              rw [hnone] at horder
              rw [horder.eq_nil, List.append_nil]
          · rfl
  · cases hstep

/-- Each event calls what it should: the keys of the dictionary are all
different, and its order does not matter. -/
theorem callsOnce_step {e : Event φ} (h : Inv s) (hstep : step body s e = some s') :
    CallsOnce s e s' := by
  cases e with
  | callLater fn =>
      obtain rfl := Option.some.inj hstep
      exact called_callLater fn s
  | addToStage =>
      simp only [step] at hstep
      split at hstep
      · cases hstep
      · split at hstep
        · obtain rfl := Option.some.inj hstep
          rfl
        · obtain rfl := Option.some.inj hstep
          rfl
  | removeFromStage =>
      simp only [step] at hstep
      split at hstep
      · obtain rfl := Option.some.inj hstep
        rfl
      · cases hstep
  | frame order => exact callsOnce_frame h hstep
  | dispose =>
      obtain rfl := Option.some.inj hstep
      show s.disposeMethod.called = s.called
      unfold State.disposeMethod
      simp only
      split <;> rfl

/-! ## Runs -/

theorem refines_run {evs : List (Event φ)} (hrun : Runs.run (step body) new evs = some s)
    (hdispose : Runs.EachStep (step body) (fun s e _ => e = .dispose → s.callLaterMethods = [])
      new evs) :
    Inv s ∧ Runs.run (PlainObject.step body) (new (φ := φ)).plain evs = some s.plain := by
  have hstart : Inv (new (φ := φ)) :=
    ⟨nofun, fun _ hne => absurd rfl hne, List.nodup_nil⟩
  refine Runs.run_each (fun evs s => Inv s ∧
    Runs.run (PlainObject.step body) (new (φ := φ)).plain evs = some s.plain) ⟨hstart, rfl⟩ ?_ hrun
    hdispose
  rintro evs s e s' ⟨h, hplain⟩ hstep hQ
  obtain ⟨hinv, hnext⟩ := refines_step h hstep hQ
  exact ⟨hinv, Runs.run_snoc.mpr ⟨_, hplain, hnext⟩⟩

/-- **Nothing waits in vain**: an object that listens only while it has to
calls the same methods, at the same events, as one that looks at every
`ENTER_FRAME` and `RENDER` event, if it is not disposed of while a method
waits. At each of these events at which it is on the stage, every method
that has waited is called once, and no other one. -/
theorem refines_plain {evs : List (Event φ)} (hrun : Runs.run (step body) new evs = some s)
    (hdispose : Runs.EachStep (step body) (fun s e _ => e = .dispose → s.callLaterMethods = [])
      new evs) :
    Runs.run (PlainObject.step body) (new (φ := φ)).plain evs = some s.plain ∧
      s.callLaterMethods.Nodup ∧ Runs.EachStep (step body) CallsOnce new evs := by
  obtain ⟨hinv, hplain⟩ := refines_run hrun hdispose
  refine ⟨hplain, hinv.nodup, ?_⟩
  rintro pre e post rfl t u ht hu
  exact callsOnce_step (refines_run ht hdispose.left).1 hu

/-- Two methods of a component, the first of which asks for both of them. -/
theorem refines_plain_two : ∃ s, Runs.run (step fun fn : ℕ => if fn = 0 then [0, 1] else []) new
      [.callLater 0, .addToStage, .frame [0], .frame [1, 0], .removeFromStage] = some s ∧
    s.called = [0, 1, 0] ∧
    Runs.run (PlainObject.step fun fn : ℕ => if fn = 0 then [0, 1] else []) (new (φ := ℕ)).plain
      [.callLater 0, .addToStage, .frame [0], .frame [1, 0], .removeFromStage] = some s.plain ∧
    s.callLaterMethods.Nodup ∧
    Runs.EachStep (step fun fn : ℕ => if fn = 0 then [0, 1] else []) CallsOnce new
      [.callLater 0, .addToStage, .frame [0], .frame [1, 0], .removeFromStage] := by
  refine ⟨_, rfl, rfl, refines_plain rfl ?_⟩
  rintro pre e post heq t u - - rfl
  have hmem : Event.dispose ∈ pre ++ Event.dispose :: post :=
    List.mem_append_right pre List.mem_cons_self
  rw [← heq] at hmem
  simp at hmem

end UIObject

end Resources
