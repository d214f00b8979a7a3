import Resources.VirtualMouseUpdate

/-!
# Where the virtual mouse is

An object is left before the next one is entered, and the stage is left
after the mouse has moved on it. `cross` and `presence` follow these
events as a listener would and refuse what a mouse cannot do. In every run
they accept the log, and what they make of it is what the mouse has in its
own fields (`crossings_accepted`, `presence_accepted`).
-/

namespace Resources

namespace VirtualMouse

/-! ## Leaving and entering -/

section crossings
variable {ω : Type*} [DecidableEq ω] {s₀ : Option ω} {m m' : Mouse ω} {sc : Scene ω}
  {leave enter : EventType} {target currentTarget : ω} {targetLocal currentTargetLocal : Point}

/-- What a listener to the two events of a pair makes of the next event: which
object the mouse is over, if any. It refuses an event that leaves another
object than this one, and an event that enters one before the last one is left.
-/
def cross (leave enter : EventType) (seen : Option ω) (e : Dispatched ω) : Option (Option ω) :=
  if e.type = leave then if seen = some e.target then some none else none
  else if e.type = enter then if seen = none then some (some e.target) else none
  else some seen

/-- The two pairs of events that an update dispatches for a crossing: those
that bubble, and those that do not. -/
inductive Pair : EventType → EventType → Prop
  | mouse : Pair .MOUSE_OUT .MOUSE_OVER
  | roll : Pair .ROLL_OUT .ROLL_OVER

theorem cross_ignores {type : EventType} (hleave : type ≠ leave) (henter : type ≠ enter) :
    Ignores (cross (ω := ω) leave enter) type := by
  rintro s e rfl
  rw [cross, if_neg hleave, if_neg henter]

theorem Pair.ignores (hpair : Pair leave enter) {type : EventType}
    (htype : type ∉ [.MOUSE_OUT, .ROLL_OUT, .MOUSE_OVER, .ROLL_OVER]) :
    Ignores (cross (ω := ω) leave enter) type := by
  cases hpair <;> exact cross_ignores (by rintro rfl; simp at htype) (by rintro rfl; simp at htype)

theorem phase_out {e : Dispatched ω} {s : Option ω}
    (h : Phase (cross leave enter) s₀ m m' s (some e.target)) (htype : e.type = leave)
    (hleave : m.disabledEvents leave = false) :
    Phase (cross leave enter) s₀ m (m'.dispatch e) s none := by
  refine h.trans (phase_enabled ?_ ?_)
  · rw [htype, h.kept.disabledEvents, hleave]
  · rw [cross, if_pos htype, if_pos rfl]

theorem phase_over {e : Dispatched ω} {s : Option ω}
    (h : Phase (cross leave enter) s₀ m m' s none) (htype : e.type = enter)
    (hne : enter ≠ leave) (henter : m.disabledEvents enter = false) :
    Phase (cross leave enter) s₀ m (m'.dispatch e) s (some e.target) := by
  refine h.trans (phase_enabled ?_ ?_)
  · rw [htype, h.kept.disabledEvents, henter]
  · rw [cross, htype, if_neg hne, if_pos rfl, if_pos rfl]

theorem phase_other {e : Dispatched ω} {s s' : Option ω}
    (h : Phase (cross leave enter) s₀ m m' s s') (hleave : e.type ≠ leave)
    (henter : e.type ≠ enter) :
    Phase (cross leave enter) s₀ m (m'.dispatch e) s s' :=
  h.trans (cross_ignores hleave henter).phase

theorem crossing_phase (hpair : Pair leave enter) (hleave : m.disabledEvents leave = false)
    (henter : m.disabledEvents enter = false) :
    Phase (cross leave enter) s₀ m
      (m.dispatchCrossing target currentTarget targetLocal currentTargetLocal)
      (some target) (some currentTarget) := by
  unfold Mouse.dispatchCrossing
  split
  · cases hpair with
    | mouse =>
        refine phase_other ?_ nofun nofun
        refine phase_over ?_ rfl nofun henter
        refine phase_other ?_ nofun nofun
        exact phase_out Phase.refl rfl hleave
    | roll =>
        refine phase_over ?_ rfl nofun henter
        refine phase_other ?_ nofun nofun
        refine phase_out ?_ rfl hleave
        exact phase_other Phase.refl nofun nofun
  · next heq =>
      rw [not_not.mp heq]
      exact Phase.refl

/-- An update takes the listener along to the object that the mouse is over
afterwards; the other three phases say nothing to it. -/
theorem crossing_updateOn (hpair : Pair leave enter) {stage : ω}
    (hleave : m.disabledEvents leave = false) (henter : m.disabledEvents enter = false)
    (h : Seen (cross leave enter) s₀ m (some target)) :
    Seen (cross leave enter) s₀ (m.updateOn sc stage target) (some (m.findTarget sc stage)) := by
  have hignores : ∀ type ∉ [EventType.MOUSE_OUT, .ROLL_OUT, .MOUSE_OVER, .ROLL_OVER],
      Ignores (cross (ω := ω) leave enter) type := fun _ => hpair.ignores
  have hcrossing : ∀ m' p q, Kept m m' → Phase (cross leave enter) s₀ m'
      (m'.dispatchCrossing target (m.findTarget sc stage) p q) (some target)
      (some (m.findTarget sc stage)) := fun m' p q hkept =>
    crossing_phase hpair (by rw [hkept.disabledEvents, hleave])
      (by rw [hkept.disabledEvents, henter])
  obtain ⟨m', hphase, heq, -⟩ := updateOn_phases
    (fun _ => ignores_move (hignores _ (by decide)) (hignores _ (by decide))) hcrossing
    (fun _ _ _ _ => ignores_button (hignores _ (by decide)) (hignores _ (by decide))
      (hignores _ (by decide))) (fun _ _ _ => ignores_doubleClick (hignores _ (by decide)))
  rw [heq]
  exact hphase.seen h

/-- What every call keeps: the two events are not disabled, and the listener
has come to the object that the mouse takes itself to be over. -/
structure CrossInv (leave enter : EventType) (s₀ : Option ω) (m : Mouse ω) : Prop where
  leaves : m.disabledEvents leave = false
  enters : m.disabledEvents enter = false
  seen : Seen (cross leave enter) s₀ m m.target

theorem crossInv_update (hpair : Pair leave enter) (h : CrossInv leave enter s₀ m) :
    CrossInv leave enter s₀ (m.handleUpdate sc) := by
  obtain ⟨stage, target, -, htarget, heq⟩ | ⟨-, heq⟩ := update_cases sc m
  · have hupdated := updated_updateOn sc stage target m
    rw [heq]
    refine ⟨?_, ?_, ?_⟩
    · rw [hupdated.disabledEvents, h.leaves]
    · rw [hupdated.disabledEvents, h.enters]
    · rw [hupdated.target]
      exact crossing_updateOn hpair h.leaves h.enters (htarget ▸ h.seen)
  · rw [heq]
    exact h

theorem crossInv_closed (hpair : Pair leave enter) :
    Closed [leave, enter] sc (CrossInv (ω := ω) leave enter s₀) where
  handleUpdate _ h := crossInv_update hpair h
  quiet m m' hquiet h := by
    refine ⟨?_, ?_, ?_⟩
    · exact hquiet.enabled leave List.mem_cons_self h.leaves
    · exact hquiet.enabled enter (List.mem_cons_of_mem _ List.mem_cons_self) h.enters
    · rw [hquiet.target, Seen, hquiet.log]
      exact h.seen

/-- **Every object is left before the next one is entered.** A listener to one
of the two pairs accepts the whole log of every run, as long as its events are
not disabled and the stage stays, and the object it has come to is the `target`
of the mouse. -/
theorem crossings_accepted (hpair : Pair leave enter) {sc₀ : Scene ω} {stage : ω} {x y : ℚ}
    {evs : List (Scene ω × Call ω)}
    (hrun : Runs.run step (Mouse.new sc₀ (some stage) x y) evs = some m)
    (hkeeps : ∀ e ∈ evs, e.2.Keeps [leave, enter])
    (hstays : ∀ e ∈ evs, e.2 ≠ .dispose ∧ ∀ s, e.2 ≠ .stage s) :
    Runs.run (cross leave enter) (some stage) m.log = some m.target := by
  have hstart : CrossInv leave enter (some stage) (Mouse.new sc₀ (some stage) x y) :=
    (crossInv_closed hpair).update _ ⟨rfl, rfl, rfl⟩
  have hQ : Runs.EachStep step (fun _ e _ => e.2.Keeps [leave, enter] ∧ e.2 ≠ .dispose ∧
      ∀ s, e.2 ≠ .stage s) (Mouse.new sc₀ (some stage) x y) evs :=
    (Runs.eachStep_event hrun).mpr fun e he => ⟨hkeeps e he, hstays e he⟩
  refine (Runs.run_each (fun _ m => CrossInv leave enter (some stage) m) hstart ?_ hrun hQ).seen
  rintro - m ⟨sc, call⟩ m' h hstep ⟨hkeeps, hdispose, hstage⟩
  obtain hplain | ⟨s, rfl⟩ | rfl | rfl := call.plain_or
  · exact (crossInv_closed hpair).step hkeeps hplain h hstep
  · exact absurd rfl (hstage s)
  · exact absurd rfl hdispose
  · obtain rfl := Option.some.inj hstep
    exact (crossInv_closed hpair).doubleClick (fun _ _ h => ⟨h.leaves, h.enters, h.seen⟩) h

end crossings

/-! ## On the stage and off it -/

section presence
variable {ω : Type*} {s₀ : Bool} {m m' : Mouse ω} {sc : Scene ω} {stage target currentTarget : ω}
  {currentTargetLocal : Point}

/-- What a listener makes of the next event: whether the mouse is on the stage.
It refuses a mouse that leaves the stage twice in a row. -/
def presence (within : Bool) (e : Dispatched ω) : Option Bool :=
  match e.type with
  | .MOUSE_LEAVE => if within then some false else none
  | .MOUSE_MOVE => some true
  | _ => some within

theorem presence_ignores {type : EventType} (htype : type ∉ [.MOUSE_LEAVE, .MOUSE_MOVE]) :
    Ignores (presence (ω := ω)) type := by
  rintro s e rfl
  unfold presence
  split
  · next heq => simp [heq] at htype
  · next heq => simp [heq] at htype
  · rfl

theorem presence_move (hleave : m.disabledEvents .MOUSE_LEAVE = false)
    (hmove : m.disabledEvents .MOUSE_MOVE = false) :
    Phase presence s₀ m (m.dispatchMove sc stage currentTarget currentTargetLocal)
      m.lastWithinStage (within sc m) := by
  unfold Mouse.dispatchMove within
  split
  · simp only
    generalize (decide (0 ≤ m.location.x ∧ 0 ≤ m.location.y ∧
      m.location.x ≤ sc.stageWidth ∧ m.location.y ≤ sc.stageHeight)) = inside
    refine Phase.trans ?_ phase_within
    cases inside with
    | true => exact phase_enabled hmove rfl
    | false =>
        cases hlast : m.lastWithinStage with
        | true =>
            simp only [Bool.not_false, Bool.and_self, if_true, Bool.false_eq_true, if_false]
            exact phase_enabled hleave rfl
        | false =>
            simp only [Bool.and_false, Bool.false_eq_true, if_false]
            exact Phase.refl
  · exact Phase.refl

/-- What every call keeps: the two events are not disabled, and the listener
agrees with `lastWithinStage`. -/
structure PresenceInv (m : Mouse ω) : Prop where
  leave : m.disabledEvents .MOUSE_LEAVE = false
  move : m.disabledEvents .MOUSE_MOVE = false
  seen : Seen presence true m m.lastWithinStage

variable [DecidableEq ω]

theorem presenceInv_update (h : PresenceInv m) : PresenceInv (m.handleUpdate sc) := by
  obtain ⟨stage, target, -, -, heq⟩ | ⟨-, heq⟩ := update_cases sc m
  · have hupdated := updated_updateOn sc stage target m
    have hignores : ∀ type ∉ [EventType.MOUSE_LEAVE, .MOUSE_MOVE],
        Ignores (presence (ω := ω)) type := fun _ => presence_ignores
    obtain ⟨m', hphase, heq', -⟩ := @updateOn_phases ω Bool presence true m.lastWithinStage m sc stage
      target _ _ _ _ _ (fun _ => presence_move h.leave h.move)
      (fun _ _ _ _ => ignores_crossing (hignores _ (by decide)) (hignores _ (by decide))
        (hignores _ (by decide)) (hignores _ (by decide)))
      (fun _ _ _ _ => ignores_button (hignores _ (by decide)) (hignores _ (by decide))
        (hignores _ (by decide)))
      (fun _ _ _ => ignores_doubleClick (hignores _ (by decide)))
    rw [heq]
    refine ⟨?_, ?_, ?_⟩
    · rw [hupdated.disabledEvents, h.leave]
    · rw [hupdated.disabledEvents, h.move]
    · rw [hupdated.lastWithinStage, heq']
      exact hphase.seen h.seen
  · rw [heq]
    exact h

theorem presenceInv_closed :
    Closed [.MOUSE_LEAVE, .MOUSE_MOVE] sc (PresenceInv (ω := ω)) where
  handleUpdate _ h := presenceInv_update h
  quiet m m' hquiet h := by
    refine ⟨?_, ?_, ?_⟩
    · exact hquiet.enabled _ List.mem_cons_self h.leave
    · exact hquiet.enabled _ (List.mem_cons_of_mem _ List.mem_cons_self) h.move
    · rw [hquiet.lastWithinStage, Seen, hquiet.log]
      exact h.seen

/-- **The mouse leaves the stage it is on**: between two `MOUSE_LEAVE` it has
moved on the stage again. The listener accepts the whole log of every run, as
long as neither event is disabled, and agrees with the mouse on where it is. -/
theorem presence_accepted {sc₀ : Scene ω} {s : Option ω} {x y : ℚ}
    {evs : List (Scene ω × Call ω)} (hrun : Runs.run step (Mouse.new sc₀ s x y) evs = some m)
    (hkeeps : ∀ e ∈ evs, e.2.Keeps [.MOUSE_LEAVE, .MOUSE_MOVE]) :
    Runs.run presence true m.log = some m.lastWithinStage := by
  have hstart : PresenceInv (Mouse.new sc₀ s x y) :=
    presenceInv_closed.update _ ⟨rfl, rfl, rfl⟩
  have hQ := (Runs.eachStep_event hrun).mpr hkeeps
  refine (Runs.run_each (fun _ m => PresenceInv m) hstart ?_ hrun hQ).seen
  rintro - m ⟨sc, call⟩ m' h hstep hkeeps
  obtain hplain | ⟨s, rfl⟩ | rfl | rfl := call.plain_or
  · exact presenceInv_closed.step hkeeps hplain h hstep
  · obtain rfl := Option.some.inj hstep
    exact setStage_of (P := PresenceInv) ⟨h.leave, h.move, h.seen⟩
      (fun _ => ⟨h.leave, h.move, h.seen⟩)
      (fun _ => presenceInv_closed.update _) s
  · obtain rfl := Option.some.inj hstep
    exact dispose_of (P := PresenceInv) ⟨h.leave, h.move, h.seen⟩ ⟨h.leave, h.move, h.seen⟩
  · obtain rfl := Option.some.inj hstep
    exact presenceInv_closed.doubleClick (fun _ _ h => ⟨h.leave, h.move, h.seen⟩) h

end presence

/-- The mouse moves; then the sprite over the button is ignored, and an update
takes the mouse from the root to the button. -/
theorem crossings_accepted_overlay : ∃ m,
    Runs.run step (Mouse.new overlay (some 0) 10 10)
        [(overlay, .setLocation 20 20), (overlay, .ignore 2), (overlay, .update)] = some m ∧
      Runs.run (cross .MOUSE_OUT .MOUSE_OVER) (some 0) m.log = some m.target := by
  refine ⟨_, rfl, @crossings_accepted ℕ _ _ .MOUSE_OUT .MOUSE_OVER .mouse overlay 0 10 10
    [(overlay, .setLocation 20 20), (overlay, .ignore 2), (overlay, .update)] rfl ?_ ?_⟩
  · simp [Call.Keeps]
  · simp

/-- The mouse leaves the stage to the right, and comes back. -/
theorem presence_accepted_overlay : ∃ m,
    Runs.run step (Mouse.new overlay (some 0) 10 10)
        [(overlay, .setLocation 1000 20), (overlay, .x 20)] = some m ∧
      Runs.run presence true m.log = some m.lastWithinStage := by
  refine ⟨_, rfl, @presence_accepted ℕ _ _ overlay (some 0) 10 10
    [(overlay, .setLocation 1000 20), (overlay, .x 20)] rfl ?_⟩
  simp [Call.Keeps]

end VirtualMouse

end Resources
