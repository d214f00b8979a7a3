import Resources.VirtualMouseUpdate

/-!
# The button of the virtual mouse

`gesture` follows the events of the button as a listener would: down
before up, a click where it went down, a double click after a click. In
every run it accepts the log (`gestures_accepted`).

A click, here, is a press and a release on one object. As a rule a `CLICK`
event tells of it, but that event can be disabled, and a `DOUBLE_CLICK`
then follows the `MOUSE_UP`.
-/

namespace Resources

namespace VirtualMouse

/-! ## Pressing and clicking -/

/-- What the events of the button have come to, for a listener that has heard
all of them. -/
inductive Button (ω : Type*) where
  | up
  | down (pressed : ω)
  /-- Up again, on the object `released`. -/
  | released (pressed released : ω)
  | clicked (object : ω)
deriving DecidableEq

section gestures
variable {ω : Type*} [DecidableEq ω] {m m' : Mouse ω} {sc : Scene ω} {b s₀ : Button ω}
  {stage target currentTarget : ω} {currentTargetLocal : Point}

/-- What a listener makes of the next event. It refuses what a button cannot
do: to go down or up twice, a `CLICK` on another object than the one that
the button was pressed and released on, and a `DOUBLE_CLICK` on another
object than that of the click before it, whether or not there was a `CLICK`
event for that. -/
def gesture (b : Button ω) (e : Dispatched ω) : Option (Button ω) :=
  match e.type, b with
  | .MOUSE_DOWN, .down _ => none
  | .MOUSE_DOWN, _ => some (.down e.target)
  | .MOUSE_UP, .down pressed => some (.released pressed e.target)
  | .MOUSE_UP, _ => none
  | .CLICK, .released pressed released =>
      if pressed = released ∧ e.target = released then some (.clicked released) else none
  | .CLICK, _ => none
  | .DOUBLE_CLICK, .released pressed released =>
      if pressed = released ∧ e.target = released then some .up else none
  | .DOUBLE_CLICK, .clicked object => if e.target = object then some .up else none
  | .DOUBLE_CLICK, _ => none
  | _, b => some b

def Button.held : Button ω → Option ω
  | .down pressed => some pressed
  | _ => none

/-- What the next update makes of the button, as the listener sees it. A
release is a click right away, if there is a `CLICK` event for it. -/
def pressed (m : Mouse ω) (currentTarget : ω) (b : Button ω) : Button ω :=
  if m.lastMouseDown = m.mouseIsDown then b
  else if m.mouseIsDown then .down currentTarget
  else
    match b with
    | .down pressed =>
        if some currentTarget = m.lastDownTarget ∧ m.disabledEvents .CLICK = false then
          .clicked currentTarget
        else .released pressed currentTarget
    | b => b

/-- The events have led to the button as the mouse has it: down or up, and on
the object that the mouse will compare the release with. -/
structure Agrees (m : Mouse ω) (b : Button ω) : Prop where
  held : b.held.isSome = m.lastMouseDown
  target : ∀ t, m.lastDownTarget = some t → b.held = some t

theorem gesture_ignores {type : EventType}
    (htype : type ∉ [.MOUSE_DOWN, .MOUSE_UP, .CLICK, .DOUBLE_CLICK]) :
    Ignores (gesture (ω := ω)) type := by
  rintro b e rfl
  unfold gesture
  cases heq : e.type
  all_goals first | rfl | (rw [heq] at htype; exact absurd htype (by decide))

/-- The third phase of an update takes the listener to `pressed`. `CLICK` may
be disabled; the other two events must not be. -/
theorem gesture_button (hdown : m.disabledEvents .MOUSE_DOWN = false)
    (hup : m.disabledEvents .MOUSE_UP = false) (hb : Agrees m b) :
    Phase gesture s₀ m (m.dispatchButton currentTarget currentTargetLocal) b
      (pressed m currentTarget b) := by
  unfold Mouse.dispatchButton pressed
  by_cases heq : m.lastMouseDown = m.mouseIsDown
  · rw [if_neg (not_not.mpr heq), if_pos heq]
    exact Phase.refl
  · rw [if_pos heq, if_neg heq]
    have hheld := hb.held
    cases hpress : m.mouseIsDown with
    | true =>
        have hlast : m.lastMouseDown = false := by
          rw [hpress, Bool.not_eq_true] at heq
          exact heq
        simp only [if_true]
        refine (phase_enabled hdown ?_).trans phase_down
        cases b with
        | down d =>
            rw [hlast] at hheld
            cases hheld
        | _ => rfl
    | false =>
        have hlast : m.lastMouseDown = true := by
          rw [hpress, Bool.not_eq_false] at heq
          exact heq
        obtain ⟨d, rfl⟩ : ∃ d, b = .down d := by
          rw [hlast] at hheld
          cases b with
          | down d => exact ⟨d, rfl⟩
          | _ => cases hheld
        simp only [Bool.false_eq_true, if_false, lastDownTarget_dispatch]
        refine Phase.trans ?_ phase_down
        have hrelease : Phase gesture s₀ m (m.dispatch (m.mouseEvent .MOUSE_UP true currentTarget
            currentTargetLocal currentTarget)) (.down d) (.released d currentTarget) :=
          phase_enabled hup rfl
        split
        · next htarget =>
            obtain rfl : d = currentTarget := Option.some.inj (hb.target _ htarget.symm)
            refine hrelease.trans (phase_dispatch ?_ ?_)
            · intro henabled
              rw [hrelease.kept.disabledEvents] at henabled
              rw [if_pos ⟨htarget, henabled⟩]
              exact if_pos ⟨rfl, rfl⟩
            · intro hdis
              rw [hrelease.kept.disabledEvents] at hdis
              refine if_neg fun h => ?_
              rw [show m.disabledEvents .CLICK = true from hdis] at h
              cases h.2
        · next htarget =>
            rw [if_neg fun h => htarget h.1]
            exact hrelease

theorem pressed_held (hb : Agrees m b) :
    (pressed m currentTarget b).held.isSome = m.mouseIsDown := by
  have hheld := hb.held
  unfold pressed
  split
  · next heq => rw [hheld, heq]
  · next hne =>
      split
      · next hdown => rw [hdown, Button.held, Option.isSome_some]
      · next hup =>
          rw [Bool.not_eq_true] at hup
          rw [hup]
          cases b with
          | down d =>
              simp only
              split <;> rfl
          | _ => rfl

/-- What the last phase makes of the button: a double click that is dispatched
ends the gesture. -/
def doubled (sc : Scene ω) (m : Mouse ω) (currentTarget : ω) (b : Button ω) : Button ω :=
  if m.isDoubleClickEvent && sc.doubleClickEnabled currentTarget && !m.disabledEvents .DOUBLE_CLICK
  then .up else b

theorem gesture_doubleClick (hb : m.isDoubleClickEvent = true →
      b = .released currentTarget currentTarget ∨ b = .clicked currentTarget) :
    Phase gesture s₀ m (m.dispatchDoubleClick sc currentTarget currentTargetLocal) b
      (doubled sc m currentTarget b) := by
  unfold Mouse.dispatchDoubleClick doubled
  cases hflag : m.isDoubleClickEvent with
  | false =>
      simp only [Bool.false_and, Bool.false_eq_true, if_false]
      exact Phase.refl
  | true =>
      cases henabled : sc.doubleClickEnabled currentTarget with
      | false =>
          simp only [Bool.and_false, Bool.false_and, Bool.false_eq_true, if_false]
          exact Phase.refl
      | true =>
          simp only [Bool.and_self, if_true, Bool.true_and]
          refine phase_dispatch ?_ ?_
          · intro hdis
            rw [show m.disabledEvents .DOUBLE_CLICK = false from hdis]
            rcases hb hflag with rfl | rfl
            · exact if_pos ⟨rfl, rfl⟩
            · exact if_pos rfl
          · intro hdis
            rw [show m.disabledEvents .DOUBLE_CLICK = true from hdis]
            rfl

/-- If a double click is asked for, the update is about to see the release of a
button that went down on the very target that the mouse has now. -/
def Ready (m : Mouse ω) (currentTarget : ω) : Prop :=
  m.isDoubleClickEvent = true →
    m.lastMouseDown = true ∧ m.mouseIsDown = false ∧ m.lastDownTarget = some currentTarget

theorem Ready.clicks (hready : Ready m currentTarget) (hb : Agrees m b)
    (hflag : m.isDoubleClickEvent = true) :
    pressed m currentTarget b = .released currentTarget currentTarget ∨
      pressed m currentTarget b = .clicked currentTarget := by
  obtain ⟨hlast, hup, htarget⟩ := hready hflag
  have hheld := hb.target _ htarget
  obtain rfl : b = .down currentTarget := by
    cases b with
    | down d =>
        rw [Option.some.inj hheld]
    | _ => cases hheld
  unfold pressed
  rw [hlast, hup, if_neg nofun, if_neg nofun]
  simp only
  split
  · exact Or.inr rfl
  · exact Or.inl rfl

theorem doubled_held (hready : Ready m currentTarget) (hb : Agrees m b) :
    (doubled sc m currentTarget (pressed m currentTarget b)).held.isSome = m.mouseIsDown := by
  unfold doubled
  split
  · next hfires =>
      simp only [Bool.and_eq_true] at hfires
      rw [(hready hfires.1.1).2.1]
      rfl
  · exact pressed_held hb

theorem downTarget_held (hready : Ready m currentTarget) (hb : Agrees m b) {t : ω}
    (ht : downTarget m currentTarget = some t) :
    (doubled sc m currentTarget (pressed m currentTarget b)).held = some t := by
  have hflag : m.isDoubleClickEvent = false := by
    rw [Bool.eq_false_iff]
    intro h
    obtain ⟨hlast, hup, -⟩ := hready h
    rw [downTarget, hlast, hup, if_neg Bool.false_ne_true, if_neg Bool.false_ne_true.symm] at ht
    cases ht
  rw [doubled, hflag, Bool.false_and, Bool.false_and, if_neg Bool.false_ne_true]
  unfold downTarget at ht
  unfold pressed
  split at ht
  · next heq =>
      rw [if_pos heq]
      exact hb.target t ht
  · next hne =>
      split at ht
      · next hdown =>
          rw [if_neg hne, if_pos hdown]
          exact ht
      · cases ht

/-- An update leads the listener from one button that agrees with the mouse to
another one. -/
theorem gesture_updateOn (hdown : m.disabledEvents .MOUSE_DOWN = false)
    (hup : m.disabledEvents .MOUSE_UP = false) (hb : Agrees m b)
    (hready : Ready m (m.findTarget sc stage)) (h : Seen gesture s₀ m b) :
    ∃ b', Seen gesture s₀ (m.updateOn sc stage target) b' ∧
      Agrees (m.updateOn sc stage target) b' := by
  have hignores : ∀ type ∉ [EventType.MOUSE_DOWN, .MOUSE_UP, .CLICK, .DOUBLE_CLICK],
      Ignores (gesture (ω := ω)) type := fun _ => gesture_ignores
  have hbutton : ∀ m' p, Kept m m' → m'.lastDownTarget = m.lastDownTarget →
      Phase gesture s₀ m' (m'.dispatchButton (m.findTarget sc stage) p) b
        (pressed m (m.findTarget sc stage) b) := by
    intro m' p hkept hdt
    have hagrees : Agrees m' b := by
      refine ⟨?_, ?_⟩
      · rw [hkept.lastMouseDown, hb.held]
      · rw [hdt]
        exact hb.target
    have hsame : pressed m' (m.findTarget sc stage) b = pressed m (m.findTarget sc stage) b := by
      simp only [pressed, hkept.lastMouseDown, hkept.mouseIsDown, hkept.disabledEvents, hdt]
    rw [← hsame]
    exact gesture_button (by rw [hkept.disabledEvents, hdown])
      (by rw [hkept.disabledEvents, hup]) hagrees
  have hdouble : ∀ m' p, Kept m m' →
      Phase gesture s₀ m' (m'.dispatchDoubleClick sc (m.findTarget sc stage) p)
        (pressed m (m.findTarget sc stage) b)
        (doubled sc m (m.findTarget sc stage) (pressed m (m.findTarget sc stage) b)) := by
    intro m' p hkept
    have hsame : ∀ b, doubled sc m' (m.findTarget sc stage) b =
        doubled sc m (m.findTarget sc stage) b := by
      intro b
      simp only [doubled, hkept.isDoubleClickEvent, hkept.disabledEvents]
    rw [← hsame]
    refine gesture_doubleClick ?_
    rw [hkept.isDoubleClickEvent]
    exact hready.clicks hb
  obtain ⟨m', hphase, heq, -⟩ := @updateOn_phases ω _ gesture s₀ b m sc stage target _ b b _ _
    (fun _ => ignores_move (hignores _ (by decide)) (hignores _ (by decide)))
    (fun _ _ _ _ => ignores_crossing (hignores _ (by decide)) (hignores _ (by decide))
      (hignores _ (by decide)) (hignores _ (by decide))) hbutton hdouble
  have hupdated := updated_updateOn sc stage target m
  have hseen := hphase.seen h
  refine ⟨doubled sc m (m.findTarget sc stage) (pressed m (m.findTarget sc stage) b), ?_, ?_, ?_⟩
  · rw [heq]
    exact hseen
  · rw [hupdated.lastMouseDown, doubled_held hready hb]
  · intro t ht
    rw [hupdated.lastDownTarget] at ht
    exact downTarget_held hready hb ht

/-- What every call keeps: the events of press and release are not disabled, no
double click is asked for between two calls, and the listener has come to a
button like that of the mouse. -/
structure GestureInv (m : Mouse ω) : Prop where
  down : m.disabledEvents .MOUSE_DOWN = false
  up : m.disabledEvents .MOUSE_UP = false
  single : m.isDoubleClickEvent = false
  seen : ∃ b, Seen gesture .up m b ∧ Agrees m b

theorem GestureInv.handleUpdate (h : GestureInv m) : GestureInv (m.handleUpdate sc) := by
  obtain ⟨stage, target, -, -, heq⟩ | ⟨-, heq⟩ := update_cases sc m
  · have hupdated := updated_updateOn sc stage target m
    obtain ⟨b, hseen, hb⟩ := h.seen
    have hready : Ready m (m.findTarget sc stage) := by
      intro hflag
      rw [h.single] at hflag
      cases hflag
    rw [heq]
    refine ⟨?_, ?_, ?_, gesture_updateOn h.down h.up hb hready hseen⟩
    · rw [hupdated.disabledEvents, h.down]
    · rw [hupdated.disabledEvents, h.up]
    · rw [hupdated.isDoubleClickEvent, h.single]
  · rw [heq]
    exact h

theorem GestureInv.quiet (h : GestureInv m) (hquiet : Quiet [.MOUSE_DOWN, .MOUSE_UP] m m') :
    GestureInv m' := by
  obtain ⟨b, hseen, hb⟩ := h.seen
  refine ⟨?_, ?_, ?_, b, ?_, ?_, ?_⟩
  · exact hquiet.enabled _ List.mem_cons_self h.down
  · exact hquiet.enabled _ (List.mem_cons_of_mem _ List.mem_cons_self) h.up
  · rw [hquiet.isDoubleClickEvent, h.single]
  · rw [Seen, hquiet.log]
    exact hseen
  · rw [hquiet.lastMouseDown, hb.held]
  · rw [hquiet.lastDownTarget]
    exact hb.target

theorem gestureInv_closed : Closed [.MOUSE_DOWN, .MOUSE_UP] sc (GestureInv (ω := ω)) :=
  ⟨fun _ _ hquiet h => h.quiet hquiet, fun _ h => h.handleUpdate⟩

theorem press_frame (sc : Scene ω) (hlocked : m.isLocked = false) :
    (m.press sc).isLocked = false ∧ (m.press sc).mouseIsDown = true := by
  unfold Mouse.press
  split
  · next hdown => exact ⟨hlocked, hdown⟩
  · rw [Mouse.updateUnlessLocked, if_neg (by rw [hlocked]; nofun), Mouse.update]
    obtain ⟨s, t, -, -, heq⟩ | ⟨-, heq⟩ :=
      update_cases sc { m with mouseIsDown := true, updates := m.updates + 1 }
    · have hupdated :=
        updated_updateOn sc s t { m with mouseIsDown := true, updates := m.updates + 1 }
      rw [heq, hupdated.isLocked, hupdated.mouseIsDown]
      exact ⟨hlocked, rfl⟩
    · rw [heq]
      exact ⟨hlocked, rfl⟩

theorem release_frame (sc : Scene ω) (hlocked : m.isLocked = false) (hdown : m.mouseIsDown = true) :
    (m.release sc).isLocked = false ∧ (m.release sc).mouseIsDown = false ∧
      ((m.release sc).stage ≠ none → (m.release sc).target ≠ none →
        (m.release sc).lastMouseDown = false) := by
  unfold Mouse.release
  rw [hdown, if_neg nofun, Mouse.updateUnlessLocked, if_neg (by rw [hlocked]; nofun), Mouse.update]
  obtain ⟨s, t, -, -, heq⟩ | ⟨hoff, heq⟩ :=
    update_cases sc { m with mouseIsDown := false, updates := m.updates + 1 }
  · have hupdated :=
      updated_updateOn sc s t { m with mouseIsDown := false, updates := m.updates + 1 }
    rw [heq, hupdated.isLocked, hupdated.mouseIsDown, hupdated.lastMouseDown]
    exact ⟨hlocked, rfl, fun _ _ => rfl⟩
  · rw [heq]
    refine ⟨hlocked, rfl, ?_⟩
    intro hstage htarget
    rcases hoff with h | h
    · exact absurd h hstage
    · exact absurd h htarget

/-- The press of a double click is seen on the target, and it is that target
that the release will find: both happen in the same scene. -/
theorem press_ready (hlocked : m.isLocked = false) (hup : m.mouseIsDown = false)
    (hlast : m.stage ≠ none → m.target ≠ none → m.lastMouseDown = false)
    (hstage : (m.press sc).stage = some stage) (htarget : (m.press sc).target = some target) :
    (m.press sc).lastMouseDown = true ∧
      (m.press sc).lastDownTarget = some ((m.press sc).findTarget sc stage) := by
  have hpress : m.press sc =
      { m with mouseIsDown := true, updates := m.updates + 1 }.handleUpdate sc := by
    rw [Mouse.press, if_neg (by rw [hup]; exact Bool.false_ne_true), Mouse.updateUnlessLocked,
      if_neg (by rw [hlocked]; exact Bool.false_ne_true), Mouse.update]
  rw [hpress] at hstage htarget ⊢
  obtain ⟨s, t, hs, ht, heq⟩ | ⟨hoff, heq⟩ :=
    update_cases sc { m with mouseIsDown := true, updates := m.updates + 1 }
  · have hupdated :=
      updated_updateOn sc s t { m with mouseIsDown := true, updates := m.updates + 1 }
    rw [heq] at hstage ⊢
    obtain rfl : s = stage := Option.some.inj (by rw [← hs, ← hstage, hupdated.stage])
    have hwas : m.lastMouseDown = false := by
      refine hlast ?_ ?_
      · rw [show m.stage = some s from hs]
        exact Option.some_ne_none s
      · rw [show m.target = some t from ht]
        exact Option.some_ne_none t
    refine ⟨hupdated.lastMouseDown, ?_⟩
    rw [hupdated.lastDownTarget, findTarget_congr hupdated.location hupdated.ignoredInstances,
      downTarget]
    simp only [hwas]
    rfl
  · rw [heq] at hstage htarget
    rcases hoff with h | h
    · rw [h] at hstage
      cases hstage
    · rw [h] at htarget
      cases htarget

/-- The release of a double click, with the flag set for it and cleared after
it. -/
theorem GestureInv.release_double (h : GestureInv m) (hlocked : m.isLocked = false)
    (hdown : m.mouseIsDown = true)
    (hready : ∀ stage target, m.stage = some stage → m.target = some target →
      m.lastMouseDown = true ∧ m.lastDownTarget = some (m.findTarget sc stage)) :
    GestureInv { ({ m with isDoubleClickEvent := true }.release sc) with
      isDoubleClickEvent := false } := by
  have hrelease : { m with isDoubleClickEvent := true }.release sc =
      { m with isDoubleClickEvent := true, mouseIsDown := false, updates := m.updates + 1
        }.handleUpdate sc := by
    rw [Mouse.release, Mouse.updateUnlessLocked]
    simp only [hdown, hlocked]
    rfl
  obtain ⟨b, hseen, hb⟩ := h.seen
  rw [hrelease]
  obtain ⟨s, t, hs, ht, heq⟩ | ⟨-, heq⟩ := update_cases sc
    { m with isDoubleClickEvent := true, mouseIsDown := false, updates := m.updates + 1 }
  · obtain ⟨hlast, htarget⟩ := hready s t hs ht
    have hfind : { m with
        isDoubleClickEvent := true
        mouseIsDown := false
        updates := m.updates + 1 }.findTarget sc s = m.findTarget sc s := findTarget_congr rfl rfl
    rw [← hfind] at htarget
    obtain ⟨b', hseen', hb'⟩ := @gesture_updateOn ω _
      { m with isDoubleClickEvent := true, mouseIsDown := false, updates := m.updates + 1 } sc b
      .up s t h.down h.up ⟨hb.held, hb.target⟩ (fun _ => ⟨hlast, rfl, htarget⟩) hseen
    have hupdated := updated_updateOn sc s t
      { m with isDoubleClickEvent := true, mouseIsDown := false, updates := m.updates + 1 }
    rw [heq]
    refine ⟨?_, ?_, rfl, b', hseen', hb'.held, hb'.target⟩
    · rw [hupdated.disabledEvents]
      exact h.down
    · rw [hupdated.disabledEvents]
      exact h.up
  · rw [heq]
    exact ⟨h.down, h.up, rfl, b, hseen, hb.held, hb.target⟩

theorem GestureInv.doubleClick (h : GestureInv m) : GestureInv (m.doubleClick sc) := by
  unfold Mouse.doubleClick
  split
  · exact gestureInv_closed.release h
  · next hlocked =>
      rw [Bool.not_eq_true] at hlocked
      obtain ⟨hlocked₁, hdown₁⟩ := press_frame sc hlocked
      obtain ⟨hlocked₂, hup₂, hlast₂⟩ := release_frame sc hlocked₁ hdown₁
      obtain ⟨hlocked₃, hdown₃⟩ := press_frame sc hlocked₂
      exact (gestureInv_closed.press (gestureInv_closed.click h)).release_double hlocked₃ hdown₃
        fun _ _ => press_ready hlocked₂ hup₂ hlast₂

/-- **A click needs both**: the button goes down before it comes up, and a
`CLICK` follows only where it has come up on the object that it went down on. A
`DOUBLE_CLICK` follows only a press and a release on one object, right after
them. In every run the listener accepts the whole log, as long as the events of
press and release are not disabled, and it knows whether the button is down. -/
theorem gestures_accepted {sc₀ : Scene ω} {s : Option ω} {x y : ℚ}
    {evs : List (Scene ω × Call ω)} (hrun : Runs.run step (Mouse.new sc₀ s x y) evs = some m)
    (hkeeps : ∀ e ∈ evs, e.2.Keeps [.MOUSE_DOWN, .MOUSE_UP]) :
    ∃ b, Runs.run gesture .up m.log = some b ∧ b.held.isSome = m.lastMouseDown := by
  have hstart : GestureInv (Mouse.new sc₀ s x y) :=
    gestureInv_closed.update _ ⟨rfl, rfl, rfl, .up, rfl, rfl, nofun⟩
  have hQ := (Runs.eachStep_event hrun).mpr hkeeps
  have hinv : GestureInv m := by
    refine Runs.run_each (fun _ m => GestureInv m) hstart ?_ hrun hQ
    rintro - m ⟨sc, call⟩ m' h hstep hkeeps
    obtain ⟨b, hseen, hb⟩ := h.seen
    obtain hplain | ⟨s, rfl⟩ | rfl | rfl := call.plain_or
    · exact gestureInv_closed.step hkeeps hplain h hstep
    · obtain rfl := Option.some.inj hstep
      have hsame : ∀ (s t : Option ω), GestureInv { m with stage := s, target := t } :=
        fun _ _ => ⟨h.down, h.up, h.single, b, hseen, hb.held, hb.target⟩
      exact setStage_of (P := GestureInv) (hsame none m.target)
        (fun stage => hsame (some stage) (some stage))
        (fun _ h => gestureInv_closed.update _ h) s
    · obtain rfl := Option.some.inj hstep
      exact dispose_of (P := GestureInv) ⟨h.down, h.up, h.single, b, hseen, hb.held, nofun⟩
        ⟨h.down, h.up, h.single, b, hseen, hb.held, nofun⟩
    · obtain rfl := Option.some.inj hstep
      exact h.doubleClick
  obtain ⟨b, hseen, hb⟩ := hinv.seen
  exact ⟨b, hseen, hb.held⟩

end gestures

/-- A double click, and a press that is not released. -/
theorem gestures_accepted_overlay : ∃ m,
    Runs.run step (Mouse.new overlay (some 0) 10 10)
        [(overlay, .doubleClick), (overlay, .press)] = some m ∧
      ∃ b, Runs.run gesture .up m.log = some b ∧ b.held.isSome = m.lastMouseDown := by
  refine ⟨_, rfl, @gestures_accepted ℕ _ _ overlay (some 0) 10 10
    [(overlay, .doubleClick), (overlay, .press)] rfl ?_⟩
  simp [Call.Keeps]

end VirtualMouse

end Resources
