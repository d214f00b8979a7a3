import Resources.VirtualMouse

/-!
# The updates of the virtual mouse

An update goes through four phases, each of which dispatches events of its
own types (`updateOn_phases`). `Closed` says what a property of the mouse
has to stand so that the calls keep it. The first such property is that
updates settle the mouse: a mouse that is not locked is where its last
update has found it, with the button as it was, and a second update in the
same scene has nothing to dispatch but `UPDATE` (`update_settles`). This
says nothing of the object under the mouse, which `ignore`, `unignore` and
a new stage can change without an update.
-/

namespace Resources

namespace VirtualMouse

/-! ## The log, phase by phase -/

section phases
variable {ω σ : Type*} {see : σ → Dispatched ω → Option σ} {s₀ s s' : σ} {m m' : Mouse ω}
  {sc : Scene ω} {stage target currentTarget : ω} {targetLocal currentTargetLocal : Point}

/-- A listener that hears all events of the log, with `s₀` at first, has come
to `s`. It refuses none of them. -/
def Seen (see : σ → Dispatched ω → Option σ) (s₀ : σ) (m : Mouse ω) (s : σ) : Prop :=
  Runs.run see s₀ m.log = some s

/-- The listener makes nothing of the events of this type: whatever it has seen
before, it stays with that. -/
def Ignores (see : σ → Dispatched ω → Option σ) (type : EventType) : Prop :=
  ∀ s e, e.type = type → see s e = some s

theorem seen_dispatch {e : Dispatched ω} (h : Seen see s₀ m s)
    (hsee : m.disabledEvents e.type = false → see s e = some s')
    (hdisabled : m.disabledEvents e.type = true → s' = s) : Seen see s₀ (m.dispatch e) s' := by
  unfold Seen Mouse.dispatch
  split
  · next hdis =>
      rw [hdisabled hdis]
      exact h
  · next hdis => exact Runs.run_snoc.mpr ⟨s, h, hsee (Bool.not_eq_true _ ▸ hdis)⟩

theorem Ignores.dispatch {e : Dispatched ω} (hignores : Ignores see e.type) (h : Seen see s₀ m s) :
    Seen see s₀ (m.dispatch e) s :=
  seen_dispatch h (fun _ => hignores s e rfl) (fun _ => rfl)

/-- What an update reads of the mouse, and the events that it dispatches leave
alone. `log`, `lastDownTarget` and `lastWithinStage` are not among these. -/
structure Kept (m m' : Mouse ω) : Prop where
  stage : m'.stage = m.stage
  target : m'.target = m.target
  location : m'.location = m.location
  isLocked : m'.isLocked = m.isLocked
  isDoubleClickEvent : m'.isDoubleClickEvent = m.isDoubleClickEvent
  mouseIsDown : m'.mouseIsDown = m.mouseIsDown
  disabledEvents : m'.disabledEvents = m.disabledEvents
  ignoredInstances : m'.ignoredInstances = m.ignoredInstances
  lastMouseDown : m'.lastMouseDown = m.lastMouseDown

theorem Kept.refl (m : Mouse ω) : Kept m m := ⟨rfl, rfl, rfl, rfl, rfl, rfl, rfl, rfl, rfl⟩

theorem Kept.trans {m'' : Mouse ω} (h : Kept m m') (h' : Kept m' m'') : Kept m m'' where
  stage := h'.stage.trans h.stage
  target := h'.target.trans h.target
  location := h'.location.trans h.location
  isLocked := h'.isLocked.trans h.isLocked
  isDoubleClickEvent := h'.isDoubleClickEvent.trans h.isDoubleClickEvent
  mouseIsDown := h'.mouseIsDown.trans h.mouseIsDown
  disabledEvents := h'.disabledEvents.trans h.disabledEvents
  ignoredInstances := h'.ignoredInstances.trans h.ignoredInstances
  lastMouseDown := h'.lastMouseDown.trans h.lastMouseDown

theorem kept_dispatch (m : Mouse ω) (e : Dispatched ω) : Kept m (m.dispatch e) := by
  unfold Mouse.dispatch
  split
  · exact Kept.refl m
  · exact ⟨rfl, rfl, rfl, rfl, rfl, rfl, rfl, rfl, rfl⟩

@[simp] theorem lastDownTarget_dispatch (m : Mouse ω) (e : Dispatched ω) :
    (m.dispatch e).lastDownTarget = m.lastDownTarget := by
  unfold Mouse.dispatch
  split <;> rfl

@[simp] theorem lastWithinStage_dispatch (m : Mouse ω) (e : Dispatched ω) :
    (m.dispatch e).lastWithinStage = m.lastWithinStage := by
  unfold Mouse.dispatch
  split <;> rfl

/-- What one phase of an update comes to for a listener: the mouse is kept, and
what the listener has made of the events is `s'` if it was `s` before. -/
structure Phase (see : σ → Dispatched ω → Option σ) (s₀ : σ) (m m' : Mouse ω) (s s' : σ) :
    Prop where
  kept : Kept m m'
  seen : Seen see s₀ m s → Seen see s₀ m' s'

theorem Phase.refl : Phase see s₀ m m s s := ⟨Kept.refl m, id⟩

theorem Phase.trans {m'' : Mouse ω} {s'' : σ} (h : Phase see s₀ m m' s s')
    (h' : Phase see s₀ m' m'' s' s'') : Phase see s₀ m m'' s s'' :=
  ⟨h.kept.trans h'.kept, h'.seen ∘ h.seen⟩

theorem phase_dispatch {e : Dispatched ω}
    (hsee : m.disabledEvents e.type = false → see s e = some s')
    (hdisabled : m.disabledEvents e.type = true → s' = s) :
    Phase see s₀ m (m.dispatch e) s s' :=
  ⟨kept_dispatch m e, fun h => seen_dispatch h hsee hdisabled⟩

theorem phase_enabled {e : Dispatched ω} (henabled : m.disabledEvents e.type = false)
    (hsee : see s e = some s') : Phase see s₀ m (m.dispatch e) s s' := by
  refine phase_dispatch (fun _ => hsee) ?_
  intro hdis
  rw [henabled] at hdis
  cases hdis

theorem Ignores.phase {e : Dispatched ω} (hignores : Ignores see e.type) :
    Phase see s₀ m (m.dispatch e) s s :=
  ⟨kept_dispatch m e, hignores.dispatch⟩

theorem Ignores.phase_if {e : Dispatched ω} {c : Prop} [Decidable c]
    (hignores : Ignores see e.type) :
    Phase see s₀ m (if c then m.dispatch e else m) s s := by
  split
  · exact hignores.phase
  · exact Phase.refl

theorem phase_within {b : Bool} : Phase see s₀ m { m with lastWithinStage := b } s s :=
  ⟨⟨rfl, rfl, rfl, rfl, rfl, rfl, rfl, rfl, rfl⟩, id⟩

theorem phase_down {t : Option ω} : Phase see s₀ m { m with lastDownTarget := t } s s :=
  ⟨⟨rfl, rfl, rfl, rfl, rfl, rfl, rfl, rfl, rfl⟩, id⟩

theorem ignores_move (hleave : Ignores see .MOUSE_LEAVE) (hmove : Ignores see .MOUSE_MOVE) :
    Phase see s₀ m (m.dispatchMove sc stage currentTarget currentTargetLocal) s s := by
  unfold Mouse.dispatchMove
  split
  · exact (Ignores.phase_if hleave).trans ((Ignores.phase_if hmove).trans phase_within)
  · exact Phase.refl

theorem ignores_doubleClick (hdouble : Ignores see .DOUBLE_CLICK) :
    Phase see s₀ m (m.dispatchDoubleClick sc currentTarget currentTargetLocal) s s :=
  Ignores.phase_if hdouble

/-- Whether the mouse is on the stage, as its next update will have it: where
it has not moved, this is what it was. -/
def within (sc : Scene ω) (m : Mouse ω) : Bool :=
  if m.lastLocation.x ≠ m.location.x ∨ m.lastLocation.y ≠ m.location.y then
    0 ≤ m.location.x ∧ 0 ≤ m.location.y ∧
      m.location.x ≤ sc.stageWidth ∧ m.location.y ≤ sc.stageHeight
  else m.lastWithinStage

theorem lastWithinStage_move (m : Mouse ω) :
    (m.dispatchMove sc stage currentTarget currentTargetLocal).lastWithinStage = within sc m := by
  unfold Mouse.dispatchMove within
  split <;> rfl

theorem lastDownTarget_move (m : Mouse ω) :
    (m.dispatchMove sc stage currentTarget currentTargetLocal).lastDownTarget =
      m.lastDownTarget := by
  unfold Mouse.dispatchMove
  split
  · simp only
    split <;> split <;> simp
  · rfl

theorem lastDownTarget_doubleClick (m : Mouse ω) :
    (m.dispatchDoubleClick sc currentTarget currentTargetLocal).lastDownTarget =
      m.lastDownTarget := by
  unfold Mouse.dispatchDoubleClick
  split <;> simp

/-- The search for the target reads the location and what is ignored. Neither
changes in an update, so that it does not matter when in the update one looks.
-/
theorem findTarget_congr (hlocation : m'.location = m.location)
    (hignored : m'.ignoredInstances = m.ignoredInstances) :
    m'.findTarget sc stage = m.findTarget sc stage := by
  have htakes : takes sc m' = takes sc m := by
    funext object
    simp only [takes, Heeded, hignored]
  rw [Mouse.findTarget, Mouse.findTarget, searchObjects_eq, searchObjects_eq, hlocation, htakes]

variable [DecidableEq ω]

theorem ignores_crossing (hout : Ignores see .MOUSE_OUT) (hroll : Ignores see .ROLL_OUT)
    (hover : Ignores see .MOUSE_OVER) (hrollOver : Ignores see .ROLL_OVER) :
    Phase see s₀ m (m.dispatchCrossing target currentTarget targetLocal currentTargetLocal) s s := by
  unfold Mouse.dispatchCrossing
  split
  · exact (Ignores.phase hout).trans ((Ignores.phase hroll).trans
      ((Ignores.phase hover).trans (Ignores.phase hrollOver)))
  · exact Phase.refl

theorem ignores_button (hdown : Ignores see .MOUSE_DOWN) (hup : Ignores see .MOUSE_UP)
    (hclick : Ignores see .CLICK) :
    Phase see s₀ m (m.dispatchButton currentTarget currentTargetLocal) s s := by
  unfold Mouse.dispatchButton
  split
  · split
    · exact (Ignores.phase hdown).trans phase_down
    · exact (Ignores.phase hup).trans ((Ignores.phase_if hclick).trans phase_down)
  · exact Phase.refl

theorem lastDownTarget_crossing (m : Mouse ω) :
    (m.dispatchCrossing target currentTarget targetLocal currentTargetLocal).lastDownTarget =
      m.lastDownTarget := by
  unfold Mouse.dispatchCrossing
  split <;> simp

/-- The object that the button is down on after the next update, if there is
one: that of the press, until the release has been seen. -/
def downTarget (m : Mouse ω) (currentTarget : ω) : Option ω :=
  if m.lastMouseDown = m.mouseIsDown then m.lastDownTarget
  else if m.mouseIsDown then some currentTarget
  else none

theorem lastDownTarget_button (m : Mouse ω) :
    (m.dispatchButton currentTarget currentTargetLocal).lastDownTarget =
      downTarget m currentTarget := by
  unfold Mouse.dispatchButton downTarget
  by_cases heq : m.lastMouseDown = m.mouseIsDown
  · rw [if_neg (not_not.mpr heq), if_pos heq]
  · rw [if_pos heq, if_neg heq]
    split <;> rfl

/-- Only the first phase is about the stage; the other three leave
`lastWithinStage` alone. -/
theorem lastWithinStage_rest (m : Mouse ω) :
    (((m.dispatchCrossing target currentTarget targetLocal currentTargetLocal).dispatchButton
      currentTarget currentTargetLocal).dispatchDoubleClick sc currentTarget
        currentTargetLocal).lastWithinStage = m.lastWithinStage := by
  have hcrossing : ∀ m : Mouse ω, (m.dispatchCrossing target currentTarget targetLocal
      currentTargetLocal).lastWithinStage = m.lastWithinStage := by
    intro m
    unfold Mouse.dispatchCrossing
    split <;> simp
  have hbutton : ∀ m : Mouse ω, (m.dispatchButton currentTarget
      currentTargetLocal).lastWithinStage = m.lastWithinStage := by
    intro m
    unfold Mouse.dispatchButton
    split
    · split
      · simp
      · simp only
        split <;> simp
    · rfl
  have hdouble : ∀ m : Mouse ω, (m.dispatchDoubleClick sc currentTarget
      currentTargetLocal).lastWithinStage = m.lastWithinStage := by
    intro m
    unfold Mouse.dispatchDoubleClick
    split <;> simp
  rw [hdouble, hbutton, hcrossing]

/-- **What an update is to a listener**: four phases one after the other, each
of which may assume that the ones before have kept the mouse, and then the
fields in which the mouse remembers what it has seen. -/
theorem updateOn_phases {s₁ s₂ s₃ s₄ : σ}
    (hmove : ∀ p, Phase see s₀ m (m.dispatchMove sc stage (m.findTarget sc stage) p) s s₁)
    (hcrossing : ∀ m' p q, Kept m m' →
      Phase see s₀ m' (m'.dispatchCrossing target (m.findTarget sc stage) p q) s₁ s₂)
    (hbutton : ∀ m' p, Kept m m' → m'.lastDownTarget = m.lastDownTarget →
      Phase see s₀ m' (m'.dispatchButton (m.findTarget sc stage) p) s₂ s₃)
    (hdouble : ∀ m' p, Kept m m' →
      Phase see s₀ m' (m'.dispatchDoubleClick sc (m.findTarget sc stage) p) s₃ s₄) :
    ∃ m', Phase see s₀ m m' s s₄ ∧ m.updateOn sc stage target =
      { m' with
        lastLocation := m'.location
        lastMouseDown := m'.mouseIsDown
        target := some (m.findTarget sc stage) } ∧
      m'.lastDownTarget = downTarget m (m.findTarget sc stage) ∧
      m'.lastWithinStage = within sc m := by
  have h₁ := hmove (sc.globalToLocal (m.findTarget sc stage) m.location)
  have h₂ := h₁.trans (hcrossing _ (sc.globalToLocal target m.location)
    (sc.globalToLocal (m.findTarget sc stage) m.location) h₁.kept)
  have h₃ := h₂.trans (hbutton _ (sc.globalToLocal (m.findTarget sc stage) m.location) h₂.kept
    ((lastDownTarget_crossing _).trans (lastDownTarget_move m)))
  have h₄ := h₃.trans (hdouble _ (sc.globalToLocal (m.findTarget sc stage) m.location) h₃.kept)
  refine ⟨_, h₄, rfl, ?_, (lastWithinStage_rest _).trans (lastWithinStage_move m)⟩
  rw [lastDownTarget_doubleClick, lastDownTarget_button, downTarget, h₂.kept.lastMouseDown,
    h₂.kept.mouseIsDown, lastDownTarget_crossing, lastDownTarget_move]
  rfl

/-- All fields after an update, except for the log. This is what later proofs
use of an update that the events have no part in. -/
structure Updated (sc : Scene ω) (s : ω) (m m' : Mouse ω) : Prop where
  stage : m'.stage = m.stage
  target : m'.target = some (m.findTarget sc s)
  location : m'.location = m.location
  isLocked : m'.isLocked = m.isLocked
  isDoubleClickEvent : m'.isDoubleClickEvent = m.isDoubleClickEvent
  mouseIsDown : m'.mouseIsDown = m.mouseIsDown
  disabledEvents : m'.disabledEvents = m.disabledEvents
  ignoredInstances : m'.ignoredInstances = m.ignoredInstances
  lastMouseDown : m'.lastMouseDown = m.mouseIsDown
  lastLocation : m'.lastLocation = m.location
  lastDownTarget : m'.lastDownTarget = downTarget m (m.findTarget sc s)
  lastWithinStage : m'.lastWithinStage = within sc m

theorem updated_updateOn (sc : Scene ω) (stage target : ω) (m : Mouse ω) :
    Updated sc stage m (m.updateOn sc stage target) := by
  have hignores : ∀ type, Ignores (fun (_ : Unit) (_ : Dispatched ω) => some ()) type :=
    fun _ _ _ _ => rfl
  obtain ⟨m', hphase, heq, hdown, hwithin⟩ := @updateOn_phases ω Unit (fun _ _ => some ()) () () m sc stage target _
    () () () () (fun _ => ignores_move (hignores _) (hignores _))
    (fun _ _ _ _ => ignores_crossing (hignores _) (hignores _) (hignores _) (hignores _))
    (fun _ _ _ _ => ignores_button (hignores _) (hignores _) (hignores _))
    (fun _ _ _ => ignores_doubleClick (hignores _))
  have hkept := hphase.kept
  rw [heq]
  exact ⟨hkept.stage, rfl, hkept.location, hkept.isLocked, hkept.isDoubleClickEvent,
    hkept.mouseIsDown, hkept.disabledEvents, hkept.ignoredInstances, hkept.mouseIsDown,
    hkept.location, hdown, hwithin⟩

/-- The handler of `UPDATE` either updates the mouse on its stage, or does
nothing, where there is none. -/
theorem update_cases (sc : Scene ω) (m : Mouse ω) :
    (∃ stage target, m.stage = some stage ∧ m.target = some target ∧
      m.handleUpdate sc = m.updateOn sc stage target) ∨
    (m.stage = none ∨ m.target = none) ∧ m.handleUpdate sc = m := by
  unfold Mouse.handleUpdate
  split
  · next stage target hstage htarget => exact Or.inl ⟨stage, target, hstage, htarget, rfl⟩
  · next hnone =>
      refine Or.inr ⟨?_, rfl⟩
      cases hstage : m.stage with
      | none => exact Or.inl rfl
      | some stage =>
          cases htarget : m.target with
          | none => exact Or.inr rfl
          | some target => exact absurd htarget (hnone stage target hstage)

end phases

/-! ## Calls that do nothing but change fields and update -/

section calls
variable {ω : Type*} {types : List EventType} {P : Mouse ω → Prop} {sc : Scene ω} {m m' : Mouse ω}

/-- A change of the mouse that no event comes from, and that leaves alone what
an observer of the log compares with it. Events of the given `types` must not
become disabled by it. -/
structure Quiet (types : List EventType) (m m' : Mouse ω) : Prop where
  log : m'.log = m.log
  stage : m'.stage = m.stage
  target : m'.target = m.target
  isDoubleClickEvent : m'.isDoubleClickEvent = m.isDoubleClickEvent
  lastMouseDown : m'.lastMouseDown = m.lastMouseDown
  lastDownTarget : m'.lastDownTarget = m.lastDownTarget
  lastWithinStage : m'.lastWithinStage = m.lastWithinStage
  enabled : ∀ type ∈ types, m.disabledEvents type = false → m'.disabledEvents type = false

/-- The call disables none of the events that a listener counts on. -/
def Call.Keeps (types : List EventType) : Call ω → Prop
  | .disableEvent type => type ∉ types
  | _ => True

/-- The call leaves the stage alone, and it is no double click. The other calls
need an argument of their own for each property. -/
def Call.Plain : Call ω → Prop
  | .stage _ | .dispose | .doubleClick => False
  | _ => True

theorem Call.plain_or (call : Call ω) :
    call.Plain ∨ (∃ s, call = .stage s) ∨ call = .dispose ∨ call = .doubleClick := by
  cases call with
  | stage s => exact Or.inr (Or.inl ⟨s, rfl⟩)
  | dispose => exact Or.inr (Or.inr (Or.inl rfl))
  | doubleClick => exact Or.inr (Or.inr (Or.inr rfl))
  | _ => exact Or.inl trivial

variable [DecidableEq ω]

/-- A property of the mouse that does not depend on what `Quiet` changes, and
that the handler of `UPDATE` keeps. Every plain call keeps such a property
(`Closed.step`). -/
structure Closed (types : List EventType) (sc : Scene ω) (P : Mouse ω → Prop) : Prop where
  quiet : ∀ m m', Quiet types m m' → P m → P m'
  handleUpdate : ∀ m, P m → P (m.handleUpdate sc)

theorem Closed.update (h : Closed types sc P) (m : Mouse ω) (hm : P m) : P (m.update sc) :=
  h.handleUpdate _ (h.quiet m _ ⟨rfl, rfl, rfl, rfl, rfl, rfl, rfl, fun _ _ => id⟩ hm)

theorem Closed.unlessLocked (h : Closed types sc P) (hm : P m) : P (m.updateUnlessLocked sc) := by
  unfold Mouse.updateUnlessLocked
  split
  · exact hm
  · exact h.update m hm

theorem Closed.press (h : Closed types sc P) (hm : P m) : P (m.press sc) := by
  unfold Mouse.press
  split
  · exact hm
  · exact h.unlessLocked (h.quiet m _ ⟨rfl, rfl, rfl, rfl, rfl, rfl, rfl, fun _ _ => id⟩ hm)

theorem Closed.release (h : Closed types sc P) (hm : P m) : P (m.release sc) := by
  unfold Mouse.release
  split
  · exact hm
  · exact h.unlessLocked (h.quiet m _ ⟨rfl, rfl, rfl, rfl, rfl, rfl, rfl, fun _ _ => id⟩ hm)

theorem Closed.click (h : Closed types sc P) (hm : P m) : P (m.click sc) :=
  h.release (h.press hm)

/-- A double click keeps the property as well, if that does not depend on the
flag which is set for the last release. -/
theorem Closed.doubleClick (h : Closed types sc P)
    (hflag : ∀ m b, P m → P { m with isDoubleClickEvent := b }) (hm : P m) :
    P (m.doubleClick sc) := by
  unfold Mouse.doubleClick
  split
  · exact h.release hm
  · exact hflag _ _ (h.release (hflag _ _ (h.press (h.click hm))))

/-- Every plain call changes the mouse quietly and then, unless it is locked,
updates it. -/
theorem Closed.step (h : Closed types sc P) {call : Call ω} (hkeeps : call.Keeps types)
    (hplain : call.Plain) (hm : P m) (hstep : step m (sc, call) = some m') : P m' := by
  have hquiet : ∀ m' : Mouse ω, m'.log = m.log → m'.stage = m.stage → m'.target = m.target →
      m'.isDoubleClickEvent = m.isDoubleClickEvent → m'.lastMouseDown = m.lastMouseDown →
      m'.lastDownTarget = m.lastDownTarget → m'.lastWithinStage = m.lastWithinStage →
      m'.disabledEvents = m.disabledEvents → P m' :=
    fun m' h₁ h₂ h₃ h₄ h₅ h₆ h₇ h₈ =>
      h.quiet m m' ⟨h₁, h₂, h₃, h₄, h₅, h₆, h₇, fun _ _ => by rw [h₈]; exact id⟩ hm
  cases call with
  | stage s => exact hplain.elim
  | dispose => exact hplain.elim
  | doubleClick => exact hplain.elim
  | setLocation a b =>
      obtain rfl := Option.some.inj hstep
      exact h.unlessLocked (hquiet _ rfl rfl rfl rfl rfl rfl rfl rfl)
  | x n =>
      obtain rfl := Option.some.inj hstep
      exact h.unlessLocked (hquiet _ rfl rfl rfl rfl rfl rfl rfl rfl)
  | y n =>
      obtain rfl := Option.some.inj hstep
      exact h.unlessLocked (hquiet _ rfl rfl rfl rfl rfl rfl rfl rfl)
  | useNativeEvents b =>
      obtain rfl := Option.some.inj hstep
      unfold Mouse.setUseNativeEvents
      split
      · exact hm
      · split <;> exact hquiet _ rfl rfl rfl rfl rfl rfl rfl rfl
  | lock =>
      obtain rfl := Option.some.inj hstep
      exact hquiet _ rfl rfl rfl rfl rfl rfl rfl rfl
  | unlock =>
      obtain rfl := Option.some.inj hstep
      exact h.update _ (hquiet _ rfl rfl rfl rfl rfl rfl rfl rfl)
  | disableEvent type =>
      obtain rfl := Option.some.inj hstep
      refine h.quiet m _ ⟨rfl, rfl, rfl, rfl, rfl, rfl, rfl, ?_⟩ hm
      intro t ht hfalse
      show Function.update m.disabledEvents type true t = false
      rw [Function.update_of_ne]
      · exact hfalse
      · rintro rfl
        exact hkeeps ht
  | enableEvent type =>
      obtain rfl := Option.some.inj hstep
      refine h.quiet m _ ⟨rfl, rfl, rfl, rfl, rfl, rfl, rfl, ?_⟩ hm
      intro t ht hfalse
      show Function.update m.disabledEvents type false t = false
      rw [Function.update_apply]
      split
      · rfl
      · exact hfalse
  | ignore object =>
      obtain rfl := Option.some.inj hstep
      exact hquiet _ rfl rfl rfl rfl rfl rfl rfl rfl
  | unignore object =>
      obtain rfl := Option.some.inj hstep
      exact hquiet _ rfl rfl rfl rfl rfl rfl rfl rfl
  | press =>
      obtain rfl := Option.some.inj hstep
      exact h.press hm
  | release =>
      obtain rfl := Option.some.inj hstep
      exact h.release hm
  | click =>
      obtain rfl := Option.some.inj hstep
      exact h.click hm
  | update =>
      obtain rfl := Option.some.inj hstep
      exact h.update m hm
  | key alt ctrl shift =>
      simp only [VirtualMouse.step] at hstep
      split at hstep
      · obtain rfl := Option.some.inj hstep
        exact hquiet _ rfl rfl rfl rfl rfl rfl rfl rfl
      · cases hstep

theorem setStage_of (hnone : P { m with stage := none })
    (hsome : ∀ stage, P { m with stage := some stage, target := some stage })
    (hupdate : ∀ m, P m → P (m.update sc)) (s : Option ω) : P (m.setStage sc s) := by
  unfold Mouse.setStage
  cases s with
  | none => exact hnone
  | some stage =>
      simp only
      split
      · exact hsome stage
      · exact hupdate _ (hsome stage)

omit [DecidableEq ω] in
theorem dispose_of (herror : P { m with lastDownTarget := none })
    (hoff : P { m with lastDownTarget := none, stage := none, target := none }) : P m.dispose := by
  unfold Mouse.dispose
  simp only
  split
  · exact herror
  · exact hoff

end calls

/-! ## An update and another one -/

section settled
variable {ω : Type*} [DecidableEq ω] {m m' : Mouse ω} {sc : Scene ω} {stage target : ω}

/-- An update has nothing to do where neither the location nor the button has
changed, no double click is asked for, and the target is still the same. -/
theorem updateOn_eq_self (hlocation : m.lastLocation = m.location)
    (hdown : m.lastMouseDown = m.mouseIsDown) (htarget : m.target = some target)
    (hfind : m.findTarget sc stage = target) (hsingle : m.isDoubleClickEvent = false) :
    m.updateOn sc stage target = m := by
  have hmove : ∀ p, m.dispatchMove sc stage target p = m := by
    intro p
    rw [Mouse.dispatchMove, hlocation, if_neg (by simp)]
  have hcrossing : ∀ p q, m.dispatchCrossing target target p q = m := fun _ _ =>
    if_neg (not_not.mpr rfl)
  have hbutton : ∀ p, m.dispatchButton target p = m := fun _ => if_neg (not_not.mpr hdown)
  have hdouble : ∀ p, m.dispatchDoubleClick sc target p = m := by
    intro p
    rw [Mouse.dispatchDoubleClick, hsingle, Bool.false_and, if_neg nofun]
  rw [Mouse.updateOn]
  simp only [hfind, hmove, hcrossing, hbutton, hdouble]
  clear hmove hcrossing hbutton hdouble hfind hsingle
  cases m
  cases hlocation
  cases hdown
  cases htarget
  rfl

theorem handleUpdate_on (hstage : m.stage = some stage) (htarget : m.target = some target) :
    m.handleUpdate sc = m.updateOn sc stage target := by
  rw [Mouse.handleUpdate, hstage, htarget]

/-- An update directly after an update in the same scene dispatches one more
`UPDATE` event, and changes nothing: the first has left everything as the
second looks for it. -/
theorem update_update (hsingle : m.isDoubleClickEvent = false) :
    (m.update sc).update sc = { m.update sc with updates := (m.update sc).updates + 1 } := by
  obtain ⟨s, t, hs, -, heq⟩ | ⟨hoff, heq⟩ :=
    update_cases sc { m with updates := m.updates + 1 }
  · have hupdated := updated_updateOn sc s t { m with updates := m.updates + 1 }
    have hupdate : m.update sc = { m with updates := m.updates + 1 }.updateOn sc s t := heq
    rw [hupdate]
    generalize { m with updates := m.updates + 1 }.updateOn sc s t = m' at hupdated
    have hon : m'.update sc = { m' with updates := m'.updates + 1 }.updateOn sc s
        ({ m with updates := m.updates + 1 }.findTarget sc s) :=
      handleUpdate_on (hupdated.stage.trans hs) hupdated.target
    rw [hon]
    refine updateOn_eq_self ?_ ?_ hupdated.target ?_ ?_
    · exact hupdated.lastLocation.trans hupdated.location.symm
    · exact hupdated.lastMouseDown.trans hupdated.mouseIsDown.symm
    · exact findTarget_congr hupdated.location hupdated.ignoredInstances
    · exact hupdated.isDoubleClickEvent.trans hsingle
  · have hupdate : m.update sc = { m with updates := m.updates + 1 } := heq
    rw [hupdate]
    obtain ⟨s, t, hs, ht, -⟩ | ⟨-, heq'⟩ :=
      update_cases sc { m with updates := m.updates + 1 + 1 }
    · rcases hoff with hstage | htarget
      · exact absurd (hs.symm.trans hstage) (Option.some_ne_none s)
      · exact absurd (ht.symm.trans htarget) (Option.some_ne_none t)
    · exact heq'

/-- On a stage there is a target, and unless the mouse is locked its
location and its button are those of the last update. -/
structure Settled (m : Mouse ω) : Prop where
  target : m.stage.isSome = true → m.target.isSome = true
  pending : m.isLocked = false → m.stage.isSome = true →
    m.lastMouseDown = m.mouseIsDown ∧ m.lastLocation = m.location

theorem settled_update (htarget : m.stage.isSome = true → m.target.isSome = true) :
    Settled (m.update sc) := by
  obtain ⟨s, t, hs, ht, heq⟩ | ⟨hoff, heq⟩ :=
    update_cases sc { m with updates := m.updates + 1 }
  · have hupdated := updated_updateOn sc s t { m with updates := m.updates + 1 }
    rw [Mouse.update, heq]
    refine ⟨?_, ?_⟩
    · intro _
      rw [hupdated.target, Option.isSome_some]
    · intro _ _
      rw [hupdated.lastMouseDown, hupdated.mouseIsDown, hupdated.lastLocation, hupdated.location]
      exact ⟨rfl, rfl⟩
  · have hnone : m.stage.isSome = true → False := by
      intro hs
      have ht := htarget hs
      rcases hoff with h | h
      · rw [h] at hs
        cases hs
      · rw [h] at ht
        cases ht
    rw [Mouse.update, heq]
    exact ⟨fun hs => (hnone hs).elim, fun _ hs => (hnone hs).elim⟩

theorem settled_unlessLocked (htarget : m.stage.isSome = true → m.target.isSome = true) :
    Settled (m.updateUnlessLocked sc) := by
  unfold Mouse.updateUnlessLocked
  split
  · next hlocked =>
      refine ⟨htarget, ?_⟩
      intro hunlocked
      rw [hlocked] at hunlocked
      cases hunlocked
  · exact settled_update htarget

theorem Settled.press (h : Settled m) : Settled (m.press sc) := by
  unfold Mouse.press
  split
  · exact h
  · exact settled_unlessLocked h.target

theorem Settled.release (h : Settled m) : Settled (m.release sc) := by
  unfold Mouse.release
  split
  · exact h
  · exact settled_unlessLocked h.target

theorem Settled.doubleClick (h : Settled m) : Settled (m.doubleClick sc) := by
  have hflag : ∀ (m : Mouse ω) b, Settled m → Settled { m with isDoubleClickEvent := b } :=
    fun _ _ h => ⟨h.target, h.pending⟩
  unfold Mouse.doubleClick
  split
  · exact h.release
  · exact hflag _ _ (hflag _ _ h.press.release.press).release

/-- Every call keeps this: those that change the location or the button end
with an update unless the mouse is locked, and `unlock` ends with one always.
-/
theorem settled_step {e : Scene ω × Call ω} (h : Settled m) (hstep : step m e = some m') :
    Settled m' := by
  obtain ⟨sc, call⟩ := e
  cases call with
  | stage s =>
      obtain rfl := Option.some.inj hstep
      unfold Mouse.setStage
      cases s with
      | none => exact ⟨nofun, fun _ => nofun⟩
      | some stage =>
          simp only
          split
          · next hstage => exact ⟨fun _ => rfl, fun hlocked _ => h.pending hlocked hstage⟩
          · exact settled_update fun _ => rfl
  | dispose =>
      obtain rfl := Option.some.inj hstep
      exact dispose_of (P := Settled) ⟨h.target, h.pending⟩ ⟨nofun, fun _ => nofun⟩
  | doubleClick =>
      obtain rfl := Option.some.inj hstep
      exact h.doubleClick
  | setLocation a b =>
      obtain rfl := Option.some.inj hstep
      exact settled_unlessLocked h.target
  | x n =>
      obtain rfl := Option.some.inj hstep
      exact settled_unlessLocked h.target
  | y n =>
      obtain rfl := Option.some.inj hstep
      exact settled_unlessLocked h.target
  | useNativeEvents b =>
      obtain rfl := Option.some.inj hstep
      unfold Mouse.setUseNativeEvents
      split
      · exact h
      · split <;> exact ⟨h.target, h.pending⟩
  | lock =>
      obtain rfl := Option.some.inj hstep
      exact ⟨h.target, nofun⟩
  | unlock =>
      obtain rfl := Option.some.inj hstep
      exact settled_update h.target
  | press =>
      obtain rfl := Option.some.inj hstep
      exact h.press
  | release =>
      obtain rfl := Option.some.inj hstep
      exact h.release
  | click =>
      obtain rfl := Option.some.inj hstep
      exact h.press.release
  | update =>
      obtain rfl := Option.some.inj hstep
      exact settled_update h.target
  | key alt ctrl shift =>
      simp only [step] at hstep
      split at hstep
      · obtain rfl := Option.some.inj hstep
        exact ⟨h.target, h.pending⟩
      · cases hstep
  | _ =>
      obtain rfl := Option.some.inj hstep
      exact ⟨h.target, h.pending⟩

theorem single_closed (sc : Scene ω) :
    Closed [] sc fun m : Mouse ω => m.isDoubleClickEvent = false where
  quiet m m' hquiet h := by rw [hquiet.isDoubleClickEvent, h]
  handleUpdate m h := by
    obtain ⟨s, t, -, -, heq⟩ | ⟨-, heq⟩ := update_cases sc m
    · rw [heq, (updated_updateOn sc s t m).isDoubleClickEvent, h]
    · rw [heq, h]

theorem single_step {e : Scene ω × Call ω} (h : m.isDoubleClickEvent = false)
    (hstep : step m e = some m') : m'.isDoubleClickEvent = false := by
  obtain ⟨sc, call⟩ := e
  obtain hplain | ⟨s, rfl⟩ | rfl | rfl := call.plain_or
  · refine (single_closed sc).step ?_ hplain h hstep
    cases call <;> first | trivial | exact List.not_mem_nil
  · obtain rfl := Option.some.inj hstep
    exact setStage_of (P := fun m => m.isDoubleClickEvent = false) h (fun _ => h)
      (fun m hm => (single_closed sc).update m hm) s
  · obtain rfl := Option.some.inj hstep
    exact dispose_of (P := fun m => m.isDoubleClickEvent = false) h h
  · obtain rfl := Option.some.inj hstep
    show (m.doubleClick sc).isDoubleClickEvent = false
    unfold Mouse.doubleClick
    split
    · exact (single_closed sc).release h
    · rfl

/-- **An update settles the mouse.** In every run the mouse on a stage has a
target, and as long as it is not locked its location and its button are
those of which its last update has told. Another update directly after an
update, in the same scene, dispatches nothing but one more `UPDATE` event
and changes nothing. -/
theorem update_settles {sc₀ : Scene ω} {s : Option ω} {x y : ℚ} {evs : List (Scene ω × Call ω)}
    (hrun : Runs.run step (Mouse.new sc₀ s x y) evs = some m) :
    Settled m ∧ ∀ sc, (m.update sc).update sc =
      { m.update sc with updates := (m.update sc).updates + 1 } := by
  have hstart : Settled (Mouse.new sc₀ s x y) ∧ (Mouse.new sc₀ s x y).isDoubleClickEvent = false :=
    ⟨settled_update id, (single_closed _).update _ rfl⟩
  have hinv : Settled m ∧ m.isDoubleClickEvent = false :=
    Runs.run_invariant (fun m => Settled m ∧ m.isDoubleClickEvent = false)
      (fun _ _ _ h hstep => ⟨settled_step h.1 hstep, single_step h.2 hstep⟩) hstart hrun
  exact ⟨hinv.1, fun _ => update_update hinv.2⟩

end settled

/-- A locked mouse moves and is pressed, and then it is unlocked: the update
has told of both. -/
theorem update_settles_overlay : ∃ m,
    Runs.run step (Mouse.new overlay (some 0) 10 10)
        [(overlay, .lock), (overlay, .setLocation 20 20), (overlay, .press),
          (overlay, .unlock)] = some m ∧
      (m.updates = 3 ∧ m.log.map Dispatched.type =
        [.MOUSE_OUT, .ROLL_OUT, .MOUSE_OVER, .ROLL_OVER, .MOUSE_MOVE, .MOUSE_DOWN]) ∧
      Settled m ∧ ∀ sc, (m.update sc).update sc =
        { m.update sc with updates := (m.update sc).updates + 1 } :=
  ⟨_, rfl, ⟨rfl, rfl⟩, @update_settles ℕ _ _ overlay (some 0) 10 10
    [(overlay, .lock), (overlay, .setLocation 20 20), (overlay, .press), (overlay, .unlock)] rfl⟩

end VirtualMouse

end Resources
