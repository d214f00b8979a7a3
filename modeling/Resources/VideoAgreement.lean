import Resources.VideoPlayer

/-!
# The controls agree with the stream

While the slider is dragged the stream is paused and follows the pointer;
otherwise it runs exactly when `_isPlaying` says so, and the button shows
the frame that goes with it (`Agreement`).

The invariant `Inv` adds what makes the end of a drag reliable: during a
drag all three stage listeners are registered, so whichever of release
and mouse-leave comes first reaches `stopScrub`. A release over the
slider is seen twice, by `stopScrub` and then by `childUpOutside`, which
by then only has listeners left to remove.
-/

namespace Resources

namespace VideoPlayerGUI

open VideoPlayer (NetStream Player Call)
open State

abbrev State.running (s : State) : Bool := s._videoObj.ns.running

/-- What the user sees and hears agrees with the flags. -/
structure Agreement (s : State) : Prop where
  dragging : s._dragging = true → s.running = false ∧ s.onMouseMove = true
  idle : s._dragging = false →
    s.onMouseMove = false ∧ (s.running = true ↔ s._isPlaying = true)
  button : s._playpause = .PAUSE ↔ s._isPlaying = true

/-- During a drag, both ways to end it are listened for. -/
structure Inv (s : State) : Prop extends Agreement s where
  listening : s._dragging = true → s.onMouseUp = true ∧ s.onMouseLeave = true

/-! ## What the handlers do -/

section calls
variable (s : State) (x : ℚ) (f : NetStream → NetStream)

@[simp] theorem stream_videoEnd : (s.stream f)._videoEnd = s._videoEnd := rfl
@[simp] theorem stream_ns : (s.stream f)._videoObj.ns = f s._videoObj.ns := rfl

@[simp] theorem seekTo_ns : (s.seekTo x)._videoObj.ns
    = s._videoObj.ns.seek (x * s._videoObj.clipLength) := rfl

end calls

/-- A pointer move changes no flag and leaves the player alone. -/
theorem movePointer_frame (s : State) (x : ℚ) :
    ∃ slider, s.movePointer x = { s with mouseX := x, _slider := slider } := by
  unfold movePointer
  split
  · exact ⟨_, rfl⟩
  · exact ⟨s._slider, rfl⟩

/-- `onEnterFrame` only places the slider and sizes the buffer bar. -/
theorem onEnterFrame_frame (s : State) :
    ∃ slider width, s.onEnterFrame = { s with _slider := slider, _bufferbar_width := width } := by
  obtain ⟨slider, hslider⟩ : ∃ slider, s.placeSlider = { s with _slider := slider } := by
    unfold placeSlider
    split
    · exact ⟨s._slider, rfl⟩
    · simp only
      split
      · exact ⟨_, rfl⟩
      · exact ⟨s._slider, rfl⟩
  unfold onEnterFrame sizeBufferbar
  rw [hslider]
  simp only
  split
  · exact ⟨slider, _, rfl⟩
  · exact ⟨slider, s._bufferbar_width, rfl⟩

/-- The fraction of the bar at which `stopScrub` finds the slider. -/
def State.pctdragged (s : State) : ℚ := s._slider.x / (s._progbar.width - s._slider.width)

/-- `stopScrub`: seek to where the slider is, play on if playing, and
forget the drag and the end of the movie. -/
theorem stopScrub_eq (s : State) :
    s.stopScrub =
      { (if s._isPlaying then (s.seekTo s.pctdragged).stream .resume else s.seekTo s.pctdragged) with
        dragOffset := none, _dragging := false, _videoEnd := false } := by
  unfold stopScrub pctdragged
  by_cases hplay : s._isPlaying = true
  · simp only [seekTo, hplay, if_true, stream]
  · simp only [seekTo, hplay, stream]
    rfl

section stopScrub
variable (s : State)

@[simp] theorem stopScrub_dragging : s.stopScrub._dragging = false := by
  rw [stopScrub_eq]

@[simp] theorem stopScrub_videoEnd : s.stopScrub._videoEnd = false := by
  rw [stopScrub_eq]

@[simp] theorem stopScrub_isPlaying : s.stopScrub._isPlaying = s._isPlaying := by
  rw [stopScrub_eq]; split <;> rfl

@[simp] theorem stopScrub_playpause : s.stopScrub._playpause = s._playpause := by
  rw [stopScrub_eq]; split <;> rfl

@[simp] theorem stopScrub_onMouseUp : s.stopScrub.onMouseUp = s.onMouseUp := by
  rw [stopScrub_eq]; split <;> rfl

@[simp] theorem stopScrub_onMouseMove : s.stopScrub.onMouseMove = s.onMouseMove := by
  rw [stopScrub_eq]; split <;> rfl

/-- After `stopScrub` the stream runs if the GUI plays, or ran before. -/
theorem stopScrub_running : s.stopScrub.running = (s._isPlaying || s.running) := by
  rw [stopScrub_eq]
  cases hplay : s._isPlaying with
  | true => rfl
  | false => rfl

end stopScrub

/-! ## Every event keeps the invariant -/

theorem inv_new {slider progbar : Control} : Inv (new Player.new slider progbar) where
  dragging := nofun
  idle := fun _ => ⟨rfl, by simp [new, Player.new, NetStream.pause]⟩
  button := by simp [new]
  listening := nofun

/-- Outside a drag, three flags are left to check. -/
theorem inv_idle {s : State} (hdrag : s._dragging = false) (hmove : s.onMouseMove = false)
    (hrun : s.running = true ↔ s._isPlaying = true)
    (hbutton : s._playpause = .PAUSE ↔ s._isPlaying = true) : Inv s where
  dragging := fun hd => by rw [hdrag] at hd; cases hd
  idle := fun _ => ⟨hmove, hrun⟩
  button := hbutton
  listening := fun hd => by rw [hdrag] at hd; cases hd

/-- Any drag has ended once `stopScrub` has run and the stage handlers of
the drag are gone. -/
theorem inv_stopped {s s' : State} (h : Inv s) (hdrag : s'._dragging = false)
    (hmove : s'.onMouseMove = false) (hplay : s'._isPlaying = s._isPlaying)
    (hbutton : s'._playpause = s._playpause) (hrun : s'.running = (s._isPlaying || s.running)) :
    Inv s' := by
  refine inv_idle hdrag hmove ?_ (by rw [hbutton, hplay]; exact h.button)
  rw [hrun, hplay, Bool.or_eq_true]
  constructor
  · rintro (hp | hr)
    · exact hp
    · -- the stream ran: then no drag was in progress, and it ran because the GUI plays
      cases hd : s._dragging with
      | true => rw [(h.dragging hd).1] at hr; cases hr
      | false => exact (h.idle hd).2.mp hr
  · exact Or.inl

/-- Outside a drag no `MOUSE_MOVE` handler is registered, so that a move of the
pointer goes unnoticed. -/
theorem Inv.move_iff {s : State} (h : Inv s) : s.onMouseMove = s._dragging := by
  cases hd : s._dragging with
  | true => exact (h.dragging hd).2
  | false => exact (h.idle hd).1

theorem inv_movePointer {s : State} (h : Inv s) (x : ℚ) : Inv (s.movePointer x) := by
  obtain ⟨slider, heq⟩ := movePointer_frame s x
  rw [heq]
  exact ⟨⟨h.dragging, h.idle, h.button⟩, h.listening⟩

theorem inv_startScrub {s : State} (h : Inv s) : Inv s.startScrub where
  dragging := fun _ => ⟨rfl, rfl⟩
  idle := nofun
  button := h.button
  listening := fun _ => ⟨rfl, rfl⟩

theorem inv_updateWhileScrubbing {s : State} (h : Inv s) (hmove : s.onMouseMove = true) :
    Inv s.updateWhileScrubbing where
  dragging := fun _ => ⟨rfl, hmove⟩
  idle := fun hd => by
    have hdrag : s._dragging = false := hd
    rw [(h.idle hdrag).1] at hmove
    cases hmove
  button := h.button
  listening := h.listening

/-- A release over the slider: `stopScrub`, then what is left for
`childUpOutside`. -/
theorem inv_releaseSlider {s : State} (h : Inv s) :
    Inv (if s.stopScrub.onMouseUp then s.stopScrub.childUpOutside true else s.stopScrub) := by
  split
  · refine inv_stopped h ?_ rfl ?_ ?_ ?_
    · exact stopScrub_dragging s
    · exact stopScrub_isPlaying s
    · exact stopScrub_playpause s
    · exact stopScrub_running s
  · next hup =>
      refine inv_stopped h (stopScrub_dragging s) ?_ (stopScrub_isPlaying s)
        (stopScrub_playpause s) (stopScrub_running s)
      -- without the stage's `MOUSE_UP` handler there was no drag
      rw [stopScrub_onMouseMove, h.move_iff]
      rw [stopScrub_onMouseUp] at hup
      cases hd : s._dragging with
      | true => exact absurd (h.listening hd).1 hup
      | false => rfl

theorem inv_childUpOutside {s : State} (h : Inv s) : Inv (s.childUpOutside false) := by
  unfold childUpOutside
  cases hd : s._dragging with
  | true =>
      simp only [Bool.not_false, Bool.true_and, if_true]
      refine inv_stopped h ?_ ?_ ?_ ?_ ?_
      · exact stopScrub_dragging _
      · exact stopScrub_onMouseMove _
      · exact stopScrub_isPlaying _
      · exact stopScrub_playpause _
      · exact stopScrub_running _
  | false =>
      exact ⟨⟨nofun, fun _ => ⟨rfl, (h.idle hd).2⟩, h.button⟩, nofun⟩

theorem inv_loseFocus {s : State} (h : Inv s) : Inv s.loseFocus := by
  unfold loseFocus
  cases hd : s._dragging with
  | true =>
      simp only [if_true]
      refine inv_stopped h ?_ ?_ ?_ ?_ ?_
      · exact stopScrub_dragging _
      · exact stopScrub_onMouseMove _
      · exact stopScrub_isPlaying _
      · exact stopScrub_playpause _
      · exact stopScrub_running _
  | false =>
      exact ⟨⟨nofun, fun _ => ⟨rfl, (h.idle hd).2⟩, h.button⟩, nofun⟩

/-- A click on the button changes flag, stream and frame together. It is no
event of a drag. -/
theorem inv_clickPlayPause {s : State} (h : Inv s) (hdrag : s._dragging = false) :
    Inv s.clickPlayPause := by
  have hmove := (h.idle hdrag).1
  unfold clickPlayPause
  cases hplay : s._isPlaying with
  | true => exact inv_idle hdrag hmove (by simp [stream, NetStream.pause]) (by simp [stream])
  | false =>
      cases hend : s._videoEnd with
      | true => exact inv_idle hdrag hmove (by simp [stream, NetStream.resume]) (by simp [stream])
      | false => exact inv_idle hdrag hmove (by simp [stream, NetStream.resume]) (by simp [stream])

/-- The movie may end in the middle of a drag: the stream is stopped as it
was paused, and `_isPlaying` is off when the drag ends. -/
theorem inv_movieDone {s : State} (h : Inv s) : Inv s.movieDone where
  dragging := fun hd => ⟨rfl, (h.dragging hd).2⟩
  idle := fun hd => ⟨(h.idle hd).1, by simp [movieDone, movieEnd, stream]⟩
  button := by simp [movieDone, movieEnd]
  listening := h.listening

/-- What changes neither a flag nor whether the stream runs keeps the
invariant. -/
theorem inv_of_running {s : State} (h : Inv s) {f : NetStream → NetStream}
    (hf : (f s._videoObj.ns).running = s.running) : Inv (s.stream f) where
  dragging := fun hd => ⟨hf.trans (h.dragging hd).1, (h.dragging hd).2⟩
  idle := fun hd => ⟨(h.idle hd).1, by
    rw [show (s.stream f).running = s.running from hf]
    exact (h.idle hd).2⟩
  button := h.button
  listening := h.listening

/-- **Step lemma.** Each event keeps the invariant, and the release over the
slider does so in its two halves. -/
theorem inv_step {s s' : State} {e : Event} (h : Inv s) (hstep : step s e = some s') : Inv s' := by
  cases e with
  | pressSlider x =>
      obtain rfl := Option.some.inj hstep
      exact inv_startScrub (inv_movePointer h x)
  | mouseMove x =>
      obtain rfl := Option.some.inj hstep
      have hm := inv_movePointer h x
      split
      · next hmove => exact inv_updateWhileScrubbing hm hmove
      · exact hm
  | releaseSlider =>
      obtain rfl := Option.some.inj hstep
      exact inv_releaseSlider h
  | releaseElsewhere =>
      obtain rfl := Option.some.inj hstep
      split
      · exact inv_childUpOutside h
      · exact h
  | mouseLeave =>
      obtain rfl := Option.some.inj hstep
      split
      · exact inv_loseFocus h
      · exact h
  | clickPlayPause =>
      rw [step] at hstep
      split at hstep
      · cases hstep
      · next hdrag =>
          obtain rfl := Option.some.inj hstep
          exact inv_clickPlayPause h (Bool.not_eq_true _ ▸ hdrag)
  | clickBufferbar x =>
      rw [step] at hstep
      split at hstep
      · cases hstep
      · obtain rfl := Option.some.inj hstep
        have hm := inv_movePointer h x
        exact ⟨⟨hm.dragging, hm.idle, hm.button⟩, hm.listening⟩
  | movieDone =>
      obtain rfl := Option.some.inj hstep
      exact inv_movieDone h
  | enterFrame =>
      obtain rfl := Option.some.inj hstep
      obtain ⟨slider, width, heq⟩ := onEnterFrame_frame s
      rw [heq]
      exact ⟨⟨h.dragging, h.idle, h.button⟩, h.listening⟩
  | metaData duration =>
      obtain rfl := Option.some.inj hstep
      exact ⟨⟨h.dragging, h.idle, h.button⟩, h.listening⟩
  | progress bytesLoaded bytesTotal =>
      obtain rfl := Option.some.inj hstep
      exact inv_of_running h rfl
  | advance dt =>
      rw [step] at hstep
      split at hstep
      · obtain rfl := Option.some.inj hstep
        refine inv_of_running h ?_
        split <;> rfl
      · cases hstep

theorem inv_run {slider progbar : Control} {evs : List Event} {s : State}
    (hrun : Runs.run step (new Player.new slider progbar) evs = some s) : Inv s :=
  Runs.run_invariant Inv (fun _ _ _ => inv_step) inv_new hrun

/-- **Stream agreement**: after any sequence of events, whatever the order in
which drags, clicks and the end of the movie come, flag, stream and button
agree. -/
theorem stream_agreement {slider progbar : Control} {evs : List Event} {s : State}
    (hrun : Runs.run step (new Player.new slider progbar) evs = some s) :
    (s._dragging = true → s._videoObj.ns.running = false ∧ s.onMouseMove = true)
      ∧ (s._dragging = false →
          s.onMouseMove = false ∧ (s._videoObj.ns.running = true ↔ s._isPlaying = true))
      ∧ (s._playpause = .PAUSE ↔ s._isPlaying = true) :=
  have h := inv_run hrun
  ⟨h.dragging, h.idle, h.button⟩

/-- The movie ends while the slider is dragged. The stream rests as long as
the drag goes on, and the release over the slider leaves it stopped. -/
theorem stream_agreement_end_in_drag : ∃ s t : State,
    Runs.run step (new Player.new ⟨0, 0, 10⟩ ⟨0, 0, 110⟩)
        [.metaData 100, .clickPlayPause, .pressSlider 3, .mouseMove 60, .movieDone] = some s
      ∧ s._dragging = true
      ∧ (s._dragging = true → s._videoObj.ns.running = false ∧ s.onMouseMove = true)
      ∧ Runs.run step (new Player.new ⟨0, 0, 10⟩ ⟨0, 0, 110⟩)
          [.metaData 100, .clickPlayPause, .pressSlider 3, .mouseMove 60, .movieDone,
            .releaseSlider] = some t
      ∧ t._dragging = false
      ∧ (t._dragging = false →
          t.onMouseMove = false ∧ (t._videoObj.ns.running = true ↔ t._isPlaying = true)) :=
  ⟨_, _, rfl, rfl, (@stream_agreement ⟨0, 0, 10⟩ ⟨0, 0, 110⟩
      [.metaData 100, .clickPlayPause, .pressSlider 3, .mouseMove 60, .movieDone] _ rfl).1,
    rfl, rfl, (@stream_agreement ⟨0, 0, 10⟩ ⟨0, 0, 110⟩
      [.metaData 100, .clickPlayPause, .pressSlider 3, .mouseMove 60, .movieDone,
        .releaseSlider] _ rfl).2.1⟩

end VideoPlayerGUI

end Resources
