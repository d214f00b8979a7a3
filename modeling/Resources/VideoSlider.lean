import Resources.Scale
import Resources.VideoSeek

/-!
# The slider and the playhead

The slider's place is computed three times: `onEnterFrame` draws the
playhead, the drag keeps the slider within `_sliderbounds`, and
`stopScrub` reads the place back. The first and the last take the left
end of the bar to be at 0; `_sliderbounds` has it at `_progbar.x`. So
there are two scales of the same width (`drawn` and `bounds`), and what
the slider shows and what it does agree exactly when they are one.
-/

namespace Resources

namespace VideoPlayerGUI

open VideoPlayer (NetStream Player Call)
open State

/-! ## What the slider should do -/

/-- The slider is within `_sliderbounds`. -/
def State.InBounds (s : State) : Prop :=
  s._sliderbounds.x ≤ s._slider.x ∧ s._slider.x ≤ s._sliderbounds.x + s._sliderbounds.width

/-- From `s` to `s'` the stream was sent to this fraction of the clip. -/
def SeeksTo (s s' : State) (pct : ℚ) : Prop := newSeek s s' = some (pct * s._videoObj.clipLength)

/-- `stopScrub` reads the places of `_sliderbounds` as the fractions from 0 to 1. -/
structure Scrubs (s : State) : Prop where
  range : s.InBounds → ∃ pct, 0 ≤ pct ∧ pct ≤ 1 ∧ SeeksTo s s.stopScrub pct
  left : s._slider.x = s._sliderbounds.x → SeeksTo s s.stopScrub 0
  right : s._slider.x = s._sliderbounds.x + s._sliderbounds.width → SeeksTo s s.stopScrub 1

/-- What the user does with the mouse; everything else goes on while the mouse
rests. -/
def Event.fromMouse : Event → Bool
  | .enterFrame | .metaData _ | .progress _ _ | .advance _ | .movieDone => false
  | _ => true

/-- A press on the slider and a release over it, with the mouse at rest in
between, send the stream to this fraction. -/
def SeeksBack (s : State) (pct : ℚ) : Prop :=
  ∀ x held t t', (∀ e ∈ held, e.fromMouse = false) →
    Runs.run step s (.pressSlider x :: held) = some t → step t .releaseSlider = some t' →
      SeeksTo t t' pct

/-- Outside a drag, with the playhead past the beginning of the clip. -/
structure ShowsPlayhead (s : State) : Prop where
  idle : s._dragging = false
  pos : 0 < s._videoObj.getPlayhead
  le : s._videoObj.getPlayhead ≤ 1

/-- In all reachable states of a GUI with these controls and a clip of
positive length, the slider and the playhead agree. -/
def SliderAgrees (slider progbar : Control) : Prop :=
  ∀ evs s, Runs.run step (new Player.new slider progbar) evs = some s →
    0 < s._videoObj.clipLength →
      Scrubs s ∧ (ShowsPlayhead s →
        s.onEnterFrame.InBounds ∧ SeeksBack s.onEnterFrame s._videoObj.getPlayhead)

/-! ## What stays as the constructor made it -/

/-- The measures of the controls, and the drag that goes with `_dragging`. -/
structure Laid (slider progbar : Control) (s : State) : Prop where
  bar : s._progbar = progbar
  width : s._slider.width = slider.width
  bounds : s._sliderbounds = ⟨progbar.x, progbar.y, progbar.width - slider.width, 0⟩
  drag : s.dragOffset.isSome = s._dragging

section laid
variable {slider progbar : Control} {s : State}

theorem laid_new : Laid slider progbar (new Player.new slider progbar) := ⟨rfl, rfl, rfl, rfl⟩

theorem laid_movePointer (h : Laid slider progbar s) (x : ℚ) :
    Laid slider progbar (s.movePointer x) := by
  unfold movePointer
  split
  · exact ⟨h.bar, h.width, h.bounds, h.drag⟩
  · exact ⟨h.bar, h.width, h.bounds, h.drag⟩

theorem laid_stopScrub (h : Laid slider progbar s) : Laid slider progbar s.stopScrub := by
  rw [stopScrub_eq]
  split
  · exact ⟨h.bar, h.width, h.bounds, rfl⟩
  · exact ⟨h.bar, h.width, h.bounds, rfl⟩

/-- Outside a drag the slider is placed where the playhead is. -/
theorem laid_onEnterFrame (h : Laid slider progbar s) : Laid slider progbar s.onEnterFrame := by
  have hplace : Laid slider progbar s.placeSlider := by
    unfold placeSlider
    split
    · exact h
    · simp only
      split
      · exact ⟨h.bar, h.width, h.bounds, h.drag⟩
      · exact h
  unfold onEnterFrame sizeBufferbar
  simp only
  split
  · exact ⟨hplace.bar, hplace.width, hplace.bounds, hplace.drag⟩
  · exact hplace

theorem laid_clickPlayPause (h : Laid slider progbar s) : Laid slider progbar s.clickPlayPause := by
  unfold clickPlayPause
  split
  · exact ⟨h.bar, h.width, h.bounds, h.drag⟩
  · simp only
    split
    · exact ⟨h.bar, h.width, h.bounds, h.drag⟩
    · exact ⟨h.bar, h.width, h.bounds, h.drag⟩

theorem laid_childUpOutside (h : Laid slider progbar s) (onSlider : Bool) :
    Laid slider progbar (s.childUpOutside onSlider) := by
  unfold childUpOutside
  simp only
  split
  · exact laid_stopScrub ⟨h.bar, h.width, h.bounds, h.drag⟩
  · exact ⟨h.bar, h.width, h.bounds, h.drag⟩

theorem laid_loseFocus (h : Laid slider progbar s) : Laid slider progbar s.loseFocus := by
  unfold loseFocus
  simp only
  split
  · exact laid_stopScrub ⟨h.bar, h.width, h.bounds, h.drag⟩
  · exact ⟨h.bar, h.width, h.bounds, h.drag⟩

/-- **Step lemma.** No event changes the measures of the controls. -/
theorem laid_step {s' : State} {e : Event} (h : Laid slider progbar s)
    (hstep : step s e = some s') : Laid slider progbar s' := by
  cases e with
  | pressSlider x =>
      obtain rfl := Option.some.inj hstep
      have hm := laid_movePointer h x
      exact ⟨hm.bar, hm.width, hm.bounds, rfl⟩
  | mouseMove x =>
      obtain rfl := Option.some.inj hstep
      have hm := laid_movePointer h x
      split
      · exact ⟨hm.bar, hm.width, hm.bounds, hm.drag⟩
      · exact hm
  | releaseSlider =>
      obtain rfl := Option.some.inj hstep
      have hs := laid_stopScrub h
      split
      · exact laid_childUpOutside hs true
      · exact hs
  | releaseElsewhere =>
      obtain rfl := Option.some.inj hstep
      split
      · exact laid_childUpOutside h false
      · exact h
  | mouseLeave =>
      obtain rfl := Option.some.inj hstep
      split
      · exact laid_loseFocus h
      · exact h
  | clickPlayPause =>
      rw [step] at hstep
      split at hstep
      · cases hstep
      · obtain rfl := Option.some.inj hstep
        exact laid_clickPlayPause h
  | clickBufferbar x =>
      rw [step] at hstep
      split at hstep
      · cases hstep
      · obtain rfl := Option.some.inj hstep
        have hm := laid_movePointer h x
        exact ⟨hm.bar, hm.width, hm.bounds, hm.drag⟩
  | enterFrame =>
      obtain rfl := Option.some.inj hstep
      exact laid_onEnterFrame h
  | movieDone | metaData | progress =>
      obtain rfl := Option.some.inj hstep
      exact ⟨h.bar, h.width, h.bounds, h.drag⟩
  | advance dt =>
      rw [step] at hstep
      split at hstep
      · obtain rfl := Option.some.inj hstep
        exact ⟨h.bar, h.width, h.bounds, h.drag⟩
      · cases hstep

theorem laid_run {evs : List Event}
    (hrun : Runs.run step (new Player.new slider progbar) evs = some s) : Laid slider progbar s :=
  Runs.run_invariant (Laid slider progbar) (fun _ _ _ => laid_step) laid_new hrun

end laid

/-! ## What the stream is told -/

/-- The fraction is the slider's place, measured from 0. -/
theorem stopScrub_seeksTo (s : State) : SeeksTo s s.stopScrub s.pctdragged := by
  have hcalls : ∃ cs, s.stopScrub.calls =
      s.calls ++ .seek (s.pctdragged * s._videoObj.clipLength) :: cs ∧
        cs.filterMap offset? = [] := by
    rw [State.calls, stopScrub_eq]
    cases s._isPlaying with
    | true => exact ⟨[.resume], by simp [NetStream.resume, NetStream.seek], rfl⟩
    | false => exact ⟨[], rfl, rfl⟩
  obtain ⟨cs, hcs, hnone⟩ := hcalls
  rw [SeeksTo, newSeek_append hcs]
  simp [offset?, hnone]

theorem releaseSlider_seeksTo {s s' : State} (hstep : step s .releaseSlider = some s') :
    SeeksTo s s' s.pctdragged := by
  have hs := stopScrub_seeksTo s
  obtain rfl := Option.some.inj hstep
  split
  · exact hs
  · exact hs

/-- While the slider is dragged and the mouse rests, the slider stays. -/
theorem held_step {s s' : State} {e : Event} (hdrag : s._dragging = true)
    (he : e.fromMouse = false) (hstep : step s e = some s') :
    s'._dragging = true ∧ s'._slider = s._slider := by
  cases e with
  | enterFrame =>
      obtain rfl := Option.some.inj hstep
      have hplace : s.placeSlider = s := if_pos hdrag
      unfold onEnterFrame sizeBufferbar
      rw [hplace]
      simp only
      split
      · exact ⟨hdrag, rfl⟩
      · exact ⟨hdrag, rfl⟩
  | movieDone | metaData | progress =>
      obtain rfl := Option.some.inj hstep
      exact ⟨hdrag, rfl⟩
  | advance dt =>
      rw [step] at hstep
      split at hstep
      · obtain rfl := Option.some.inj hstep
        exact ⟨hdrag, rfl⟩
      · cases hstep
  | _ => cases he

theorem held_run {s s' : State} {held : List Event} (hdrag : s._dragging = true)
    (hheld : ∀ e ∈ held, e.fromMouse = false) (hrun : Runs.run step s held = some s') :
    s'._dragging = true ∧ s'._slider = s._slider := by
  refine Runs.run_history
    (fun es t => (∀ e ∈ es, e.fromMouse = false) → t._dragging = true ∧ t._slider = s._slider)
    (fun _ => ⟨hdrag, rfl⟩) ?_ hrun hheld
  intro es t e u ih hstep hes
  rw [List.forall_mem_append, List.forall_mem_singleton] at hes
  obtain ⟨htdrag, hslider⟩ := ih hes.1
  obtain ⟨hudrag, hkept⟩ := held_step htdrag hes.2 hstep
  exact ⟨hudrag, hkept.trans hslider⟩

/-! ## The two scales -/

section scales
variable {slider progbar : Control} (hwidth : slider.width < progbar.width)
include hwidth

/-- The scale of `onEnterFrame` and `stopScrub`, which begins at 0. -/
def drawn : Scale ℚ := ⟨0, progbar.width - slider.width, sub_pos.mpr hwidth⟩

/-- The scale of `_sliderbounds`, which begins where the bar does. -/
def bounds : Scale ℚ := ⟨progbar.x, progbar.width - slider.width, sub_pos.mpr hwidth⟩

variable {s : State}

theorem inBounds_iff (h : Laid slider progbar s) :
    s.InBounds ↔ s._slider.x ∈ (bounds hwidth).range := by
  rw [State.InBounds, h.bounds]
  rfl

theorem pctdragged_eq (h : Laid slider progbar s) :
    s.pctdragged = (drawn hwidth).fraction s._slider.x := by
  rw [pctdragged, h.bar, h.width, Scale.fraction, drawn, sub_zero]

theorem onEnterFrame_slider (h : Laid slider progbar s) (hp : ShowsPlayhead s) :
    s.onEnterFrame._slider.x = (drawn hwidth).position s._videoObj.getPlayhead := by
  have hplace : s.onEnterFrame._slider = s.placeSlider._slider := by
    unfold onEnterFrame sizeBufferbar
    simp only
    split <;> rfl
  have hpos : 0 < s._videoObj.getPlayhead * (s._progbar.width - s._slider.width) := by
    rw [h.bar, h.width]
    exact mul_pos hp.pos (drawn hwidth).width_pos
  rw [hplace, placeSlider, if_neg (by rw [hp.idle]; decide)]
  simp only [if_pos hpos]
  rw [h.bar, h.width, Scale.position, drawn, zero_add]

/-- With one scale, `stopScrub` reads what the drag can reach. -/
theorem scrubs_of_left (h : Laid slider progbar s) (hleft : progbar.x = 0) : Scrubs s := by
  have hseek := stopScrub_seeksTo s
  have hsame : drawn hwidth = bounds hwidth := Scale.eq_of_left rfl hleft.symm
  rw [pctdragged_eq hwidth h, hsame] at hseek
  refine ⟨?_, ?_, ?_⟩
  · intro hx
    obtain ⟨hlow, hhigh⟩ := Scale.fraction_mem.mpr ((inBounds_iff hwidth h).mp hx)
    exact ⟨_, hlow, hhigh, hseek⟩
  · intro hx
    rw [h.bounds] at hx
    rwa [hx, show progbar.x = (bounds hwidth).left from rfl, Scale.fraction_left] at hseek
  · intro hx
    rw [h.bounds] at hx
    rwa [hx, show progbar.x + (progbar.width - slider.width) =
      (bounds hwidth).left + (bounds hwidth).width from rfl, Scale.fraction_right] at hseek

/-- If `stopScrub` reads a place as a fraction of the clip, the place has
that fraction on the scale that begins at 0. -/
theorem fraction_mem_of_scrubs (h : Laid slider progbar s) (hclip : 0 < s._videoObj.clipLength)
    (hs : Scrubs s) (hx : s._slider.x ∈ (bounds hwidth).range) :
    (drawn hwidth).fraction s._slider.x ∈ Set.Icc 0 1 := by
  obtain ⟨pct, hlow, hhigh, hpct⟩ := hs.range ((inBounds_iff hwidth h).mpr hx)
  have hseek := stopScrub_seeksTo s
  rw [pctdragged_eq hwidth h] at hseek
  have heq := mul_right_cancel₀ hclip.ne' (Option.some.inj (hseek.symm.trans hpct))
  rw [heq]
  exact ⟨hlow, hhigh⟩

/-- What `onEnterFrame` draws is read back as it was, wherever the bar is. -/
theorem seeksBack_onEnterFrame (h : Laid slider progbar s) (hp : ShowsPlayhead s) :
    SeeksBack s.onEnterFrame s._videoObj.getPlayhead := by
  intro x held t t' hheld hrun hstep
  have hframe := laid_onEnterFrame h
  obtain ⟨u, hu, hrest⟩ := Runs.run_cons.mp hrun
  have ht : Laid slider progbar t :=
    Runs.run_invariant (Laid slider progbar) (fun _ _ _ => laid_step) (laid_step hframe hu) hrest
  obtain rfl := Option.some.inj hu
  -- no drag is in progress, so the press leaves the slider where it is
  have hnone : s.onEnterFrame.dragOffset = none := by
    rw [← Option.not_isSome_iff_eq_none, hframe.drag]
    obtain ⟨_, _, heq⟩ := onEnterFrame_frame s
    rw [heq, hp.idle]
    decide
  have hpress : (s.onEnterFrame.movePointer x).startScrub._slider = s.onEnterFrame._slider := by
    unfold movePointer
    rw [hnone]
    rfl
  obtain ⟨-, hslider⟩ := held_run rfl hheld hrest
  have hseek := releaseSlider_seeksTo hstep
  rwa [pctdragged_eq hwidth ht, hslider, hpress, onEnterFrame_slider hwidth h hp,
    Scale.fraction_position] at hseek

end scales

/-! ## The states that show it -/

section reach
variable (slider progbar : Control)

/-- Any place within the bounds, by a drag. -/
theorem reach_place {x : ℚ} (hlow : progbar.x ≤ x)
    (hhigh : x ≤ progbar.x + (progbar.width - slider.width)) : ∃ evs s,
    Runs.run step (new Player.new slider progbar) evs = some s ∧ 0 < s._videoObj.clipLength ∧
      s._slider.x = x := by
  refine ⟨[.metaData 1, .pressSlider 0, .mouseMove (x - slider.x)], _, rfl, zero_lt_one, ?_⟩
  show max progbar.x (min (x - slider.x - (0 - slider.x))
    (progbar.x + (progbar.width - slider.width))) = x
  rw [sub_sub_sub_cancel_right, sub_zero, min_eq_left hhigh, max_eq_right hlow]

/-- Any fraction of the clip, by playing up to it. -/
theorem reach_playhead {p : ℚ} (hpos : 0 < p) (hle : p ≤ 1) : ∃ evs s,
    Runs.run step (new Player.new slider progbar) evs = some s ∧ 0 < s._videoObj.clipLength ∧
      ShowsPlayhead s ∧ s._videoObj.getPlayhead = p := by
  obtain ⟨t, hrun, hplays, htime, hclip, hidle⟩ : ∃ t,
      Runs.run step (new Player.new slider progbar) [.metaData 1, .clickPlayPause] = some t ∧
        t.running = true ∧ t.time = 0 ∧ t._videoObj.clipLength = 1 ∧ t._dragging = false :=
    ⟨_, rfl, rfl, rfl, rfl, rfl⟩
  have hstep : step t (.advance p) = some (t.advance p) := if_pos hpos.le
  have hplayhead : (t.advance p)._videoObj.getPlayhead = p := by
    rw [Player.getPlayhead, State.advance, stream_ns, if_pos hplays]
    show (t.time + p) / t._videoObj.clipLength = p
    rw [htime, hclip, zero_add, div_one]
  refine ⟨[.metaData 1, .clickPlayPause] ++ [.advance p], t.advance p,
    Runs.run_snoc.mpr ⟨t, hrun, hstep⟩, ?_, ⟨hidle, ?_, ?_⟩, hplayhead⟩
  · show 0 < t._videoObj.clipLength
    rw [hclip]
    exact zero_lt_one
  · rwa [hplayhead]
  · rwa [hplayhead]

end reach

/-! ## Exactly when they agree -/

/-- **Reading.** `stopScrub` reads all places of the bounds as they should be
read, exactly when the bar begins at 0. -/
theorem scrubs_iff {slider progbar : Control} (hwidth : slider.width < progbar.width) :
    (∀ evs s, Runs.run step (new Player.new slider progbar) evs = some s →
      0 < s._videoObj.clipLength → Scrubs s) ↔ progbar.x = 0 := by
  have hscale := Scale.fraction_mem_iff (s := drawn hwidth) (t := bounds hwidth) rfl
  constructor
  · intro h
    refine (hscale.mp ?_).symm
    intro x hx
    obtain ⟨evs, s, hrun, hclip, rfl⟩ := reach_place slider progbar hx.1 hx.2
    exact fraction_mem_of_scrubs hwidth (laid_run hrun) hclip (h evs s hrun hclip) hx
  · intro hleft evs s hrun _
    exact scrubs_of_left hwidth (laid_run hrun) hleft

/-- **Drawing.** The playhead is always drawn within the bounds, exactly when
the bar begins at 0. -/
theorem inBounds_onEnterFrame_iff {slider progbar : Control}
    (hwidth : slider.width < progbar.width) :
    (∀ evs s, Runs.run step (new Player.new slider progbar) evs = some s →
      0 < s._videoObj.clipLength → ShowsPlayhead s → s.onEnterFrame.InBounds) ↔ progbar.x = 0 := by
  have hdraw : ∀ s, Laid slider progbar s → ShowsPlayhead s →
      (s.onEnterFrame.InBounds ↔
        (drawn hwidth).position s._videoObj.getPlayhead ∈ (bounds hwidth).range) := by
    intro s h hp
    rw [inBounds_iff hwidth (laid_onEnterFrame h), onEnterFrame_slider hwidth h hp]
  have hscale := Scale.position_mem_iff (s := drawn hwidth) (t := bounds hwidth) rfl
  rw [show progbar.x = 0 ↔ (drawn hwidth).left = (bounds hwidth).left from eq_comm, ← hscale]
  constructor
  · intro h p hp
    obtain ⟨evs, s, hrun, hclip, hplay, rfl⟩ := reach_playhead slider progbar hp.1 hp.2
    exact (hdraw s (laid_run hrun) hplay).mp (h evs s hrun hclip hplay)
  · intro h evs s hrun _ hp
    exact (hdraw s (laid_run hrun) hp).mpr (h _ ⟨hp.pos, hp.le⟩)

/-- **The slider and the playhead agree**, in all reachable states, exactly
when the bar begins at 0. -/
theorem sliderAgrees_iff {slider progbar : Control} (hwidth : slider.width < progbar.width) :
    SliderAgrees slider progbar ↔ progbar.x = 0 := by
  constructor
  · intro h
    refine (scrubs_iff hwidth).mp ?_
    intro evs s hrun hclip
    exact (h evs s hrun hclip).1
  · intro hleft evs s hrun hclip
    refine ⟨(scrubs_iff hwidth).mpr hleft evs s hrun hclip, ?_⟩
    intro hp
    refine ⟨(inBounds_onEnterFrame_iff hwidth).mpr hleft evs s hrun hclip hp, ?_⟩
    exact seeksBack_onEnterFrame hwidth (laid_run hrun) hp

/-- A bar that begins at 0, where all three formulas mean the same places. -/
theorem sliderAgrees_iff_flush :
    SliderAgrees ⟨0, 0, 10⟩ ⟨0, 0, 110⟩ ↔ (⟨0, 0, 110⟩ : Control).x = 0 :=
  @sliderAgrees_iff ⟨0, 0, 10⟩ ⟨0, 0, 110⟩ (by decide)

/-- A bar that begins at 20: the slider is let go at the left end, and a
clip of 100 seconds goes to second 20. -/
theorem leftEnd_not_zero :
    ¬∀ slider progbar : Control, 0 < slider.width → slider.width < progbar.width →
      SliderAgrees slider progbar := by
  intro h
  have hscrubs := (h ⟨20, 0, 10⟩ ⟨20, 0, 110⟩ (by decide) (by decide) [.metaData 100] _ rfl
    (by decide)).1
  have hleft : some (20 / (110 - 10) * 100 : ℚ) = some (0 * 100) := hscrubs.left rfl
  exact absurd (Option.some.inj hleft) (by norm_num)

end VideoPlayerGUI

end Resources
