import Resources.VideoAgreement

/-!
# A seek made after the movie ended

After `MOVIE_DONE` a click on play restarts the movie, unless the user
moved the playhead in between. `stopScrub` clears `_videoEnd` for that
reason; `jumpToSection`, the click on the buffer bar, does not.

`Watch` is the GUI together with an observer that only looks at the
events and at the calls the stream receives: where the latest seek since
the latest `MOVIE_DONE` went and how much has been played since, and
whether the buffer bar was clicked while nothing else took note of it.
`keepsSeek_iff` says that clicks on play respect the user's seeks
exactly when none of them comes in that last situation.
-/

namespace Resources

namespace VideoPlayerGUI

open VideoPlayer (NetStream Player Call)
open State

/-! ## The observer -/

abbrev State.time (s : State) : ℚ := s._videoObj.ns.time

abbrev State.calls (s : State) : List Call := s._videoObj.ns.calls

def offset? : Call → Option ℚ
  | .seek offset => some offset
  | _ => none

/-- Where the last `seek` issued between two states went. -/
def newSeek (s s' : State) : Option ℚ :=
  ((s'.calls.drop s.calls.length).filterMap offset?).getLast?

def Event.isBarClick : Event → Bool
  | .clickBufferbar _ => true
  | _ => false

/-- The event lets go of the slider: a release over it, or during a drag a
release elsewhere or the pointer leaving the stage. -/
def endsScrub (s : State) : Event → Bool
  | .releaseSlider => true
  | .releaseElsewhere | .mouseLeave => s._dragging
  | _ => false

/-- The GUI, and what an observer has written down who sees only events and the
calls of the stream. -/
structure Watch where
  gui : State
  /-- The target of the latest seek by scrubbing or by the buffer bar, if
  there was one since the latest `MOVIE_DONE`. -/
  seek : Option ℚ
  /-- How much has been played since that seek. -/
  played : ℚ
  /-- The movie has ended, and since the latest end neither was a scrub
  finished nor `_playpause` clicked. -/
  ended : Bool
  /-- The buffer bar has been clicked since the latest `MOVIE_DONE`. -/
  bar : Bool
deriving Repr, DecidableEq

/-- What the observer writes down when `e` led to `s'`. -/
def Watch.note (w : Watch) (e : Event) (s' : State) : Watch :=
  match e with
  | .movieDone => { gui := s', seek := none, played := 0, ended := true, bar := false }
  | .clickPlayPause => { w with gui := s', ended := false }
  | .advance dt =>
      { w with gui := s', played := if w.gui.running then w.played + dt else w.played }
  | e =>
      { gui := s'
        seek := (newSeek w.gui s').or w.seek
        played := if (newSeek w.gui s').isSome then 0 else w.played
        ended := w.ended && !endsScrub w.gui e
        bar := w.bar || e.isBarClick }

def watchStep (w : Watch) (e : Event) : Option Watch := (step w.gui e).map (w.note e)

/-- The observer of a new player and its controls. -/
def Watch.start (slider progbar : Control) : Watch :=
  { gui := new Player.new slider progbar, seek := none, played := 0, ended := false, bar := false }

theorem watchStep_eq {w w' : Watch} {e : Event} :
    watchStep w e = some w' ↔ ∃ s', step w.gui e = some s' ∧ w.note e s' = w' := by
  simp [watchStep, Option.map_eq_some_iff]

/-! ## The events that are neither `MOVIE_DONE`, a click on `_playpause`, nor playing on -/

theorem newSeek_append {s s' : State} {cs : List Call} (h : s'.calls = s.calls ++ cs) :
    newSeek s s' = (cs.filterMap offset?).getLast? := by
  rw [newSeek, h, List.drop_left]

/-- What such an event does to the playhead and to the flags. -/
structure Handled (s : State) (e : Event) (s' : State) : Prop where
  position : s'.time = (newSeek s s').getD s.time
  ended : s'._videoEnd = (s._videoEnd && !endsScrub s e)
  playing : s'._isPlaying = s._isPlaying
  drag : endsScrub s e = false → s._dragging = true → s'._dragging = true
  seeks : (newSeek s s').isSome → endsScrub s e = true ∨ e.isBarClick = true ∨ s'._dragging = true
  bar : e.isBarClick = true → (newSeek s s').isSome

/-- Events that reach no handler of the stream, or only its `pause`. -/
theorem handled_quiet {s s' : State} {e : Event} (cs : List Call) (hcs : cs.filterMap offset? = [])
    (hcalls : s'.calls = s.calls ++ cs) (htime : s'.time = s.time)
    (hend : s'._videoEnd = s._videoEnd) (hplay : s'._isPlaying = s._isPlaying)
    (hdrag : s._dragging = true → s'._dragging = true) (hscrub : endsScrub s e = false)
    (hbar : e.isBarClick = false) : Handled s e s' := by
  have hnone : newSeek s s' = none := by rw [newSeek_append hcalls, hcs]; rfl
  refine ⟨by rw [hnone]; exact htime, ?_, hplay, fun _ => hdrag, fun h => ?_, fun h => ?_⟩
  · rw [hend, hscrub, Bool.not_false, Bool.and_true]
  · rw [hnone] at h; cases h
  · rw [hbar] at h; cases h

/-- Events that let go of the slider. -/
theorem handled_stopScrub {s s' : State} {e : Event} (t : State) (hscrub : endsScrub s e = true)
    (hbar : e.isBarClick = false) (hns : t._videoObj = s._videoObj)
    (hplay : t._isPlaying = s._isPlaying) (hobj : s'._videoObj = t.stopScrub._videoObj)
    (hplay' : s'._isPlaying = t._isPlaying) (hend : s'._videoEnd = false) : Handled s e s' := by
  obtain ⟨cs, p, hcalls, htime, hlast⟩ : ∃ cs p, s'.calls = s.calls ++ cs ∧ s'.time = p
      ∧ (cs.filterMap offset?).getLast? = some p := by
    rw [State.calls, State.time, hobj, stopScrub_eq, State.calls, ← hns]
    cases t._isPlaying with
    | true => exact ⟨[.seek _, .resume], _, by simp [NetStream.resume, NetStream.seek], rfl, rfl⟩
    | false => exact ⟨[.seek _], _, rfl, rfl, rfl⟩
  have hsome : newSeek s s' = some p := (newSeek_append hcalls).trans hlast
  refine ⟨by rw [hsome]; exact htime, ?_, hplay'.trans hplay, ?_, fun _ => Or.inl hscrub, ?_⟩
  · rw [hend, hscrub, Bool.not_true, Bool.and_false]
  · intro h
    rw [hscrub] at h
    cases h
  · intro h
    rw [hbar] at h
    cases h

/-- `seekTo` by the buffer bar or by a move during a drag. -/
theorem handled_seekTo {s s' : State} {e : Event} (p : ℚ) (cs : List Call)
    (hcs : cs.filterMap offset? = []) (hcalls : s'.calls = s.calls ++ .seek p :: cs)
    (htime : s'.time = p) (hend : s'._videoEnd = s._videoEnd)
    (hplay : s'._isPlaying = s._isPlaying) (hdrag : s'._dragging = s._dragging)
    (hscrub : endsScrub s e = false) (hwhy : e.isBarClick = true ∨ s._dragging = true) :
    Handled s e s' := by
  have hsome : newSeek s s' = some p := by
    rw [newSeek_append hcalls]
    simp [offset?, hcs]
  refine ⟨by rw [hsome]; exact htime, ?_, hplay, fun _ h => hdrag.trans h, fun _ => ?_, fun _ => ?_⟩
  · rw [hend, hscrub, Bool.not_false, Bool.and_true]
  · rw [hdrag]
    exact Or.inr hwhy
  · rw [hsome]
    rfl

/-- One case per event; the three that the observer treats by themselves
are excluded. -/
theorem step_handled {s s' : State} {e : Event} (h : Inv s) (hstep : step s e = some s')
    (hmovie : e ≠ .movieDone) (hclick : e ≠ .clickPlayPause) (hadv : ∀ dt, e ≠ .advance dt) :
    Handled s e s' := by
  cases e with
  | pressSlider x =>
      obtain rfl := Option.some.inj hstep
      obtain ⟨slider, heq⟩ := movePointer_frame s x
      rw [heq]
      exact handled_quiet [.pause] rfl rfl rfl rfl rfl (fun _ => rfl) rfl rfl
  | mouseMove x =>
      obtain rfl := Option.some.inj hstep
      obtain ⟨slider, heq⟩ := movePointer_frame s x
      rw [heq]
      cases hmove : s.onMouseMove with
      | true =>
          have hdrag : s._dragging = true := by rw [← h.move_iff, hmove]
          refine handled_seekTo (x / s._progbar.width * s._videoObj.clipLength)
            [.pause] rfl ?_ rfl rfl rfl rfl rfl (Or.inr hdrag)
          exact List.append_assoc _ [Call.seek _] [Call.pause]
      | false =>
          exact handled_quiet [] rfl (List.append_nil _).symm rfl rfl rfl id rfl rfl
  | releaseSlider =>
      obtain rfl := Option.some.inj hstep
      refine handled_stopScrub s rfl rfl rfl rfl ?_ ?_ ?_
      · split <;> rfl
      · split <;> exact stopScrub_isPlaying s
      · split <;> exact stopScrub_videoEnd s
  | releaseElsewhere =>
      obtain rfl := Option.some.inj hstep
      cases hdrag : s._dragging with
      | true =>
          rw [if_pos (h.listening hdrag).1, childUpOutside, if_pos (by simpa using hdrag)]
          exact handled_stopScrub { s with onMouseUp := false, onMouseMove := false }
            hdrag rfl rfl rfl rfl (stopScrub_isPlaying _) (stopScrub_videoEnd _)
      | false =>
          refine handled_quiet [] rfl ?_ ?_ ?_ ?_ ?_ hdrag rfl
          all_goals
            split <;> simp [childUpOutside, hdrag]
  | mouseLeave =>
      obtain rfl := Option.some.inj hstep
      cases hdrag : s._dragging with
      | true =>
          rw [if_pos (h.listening hdrag).2, loseFocus, if_pos hdrag]
          exact handled_stopScrub { s with onMouseLeave := false, onMouseMove := false }
            hdrag rfl rfl rfl rfl (stopScrub_isPlaying _) (stopScrub_videoEnd _)
      | false =>
          refine handled_quiet [] rfl ?_ ?_ ?_ ?_ ?_ hdrag rfl
          all_goals
            split <;> simp [loseFocus, hdrag]
  | clickPlayPause => exact absurd rfl hclick
  | clickBufferbar x =>
      rw [step] at hstep
      split at hstep
      · cases hstep
      · obtain rfl := Option.some.inj hstep
        obtain ⟨slider, heq⟩ := movePointer_frame s x
        rw [heq]
        exact handled_seekTo (x / s._progbar.width * s._videoObj.clipLength) []
          rfl rfl rfl rfl rfl rfl rfl (Or.inl rfl)
  | movieDone => exact absurd rfl hmovie
  | enterFrame =>
      obtain rfl := Option.some.inj hstep
      obtain ⟨slider, width, heq⟩ := onEnterFrame_frame s
      rw [heq]
      exact handled_quiet [] rfl (List.append_nil _).symm rfl rfl rfl id rfl rfl
  | metaData duration =>
      obtain rfl := Option.some.inj hstep
      exact handled_quiet [] rfl (List.append_nil _).symm rfl rfl rfl id rfl rfl
  | progress bytesLoaded bytesTotal =>
      obtain rfl := Option.some.inj hstep
      exact handled_quiet [] rfl (List.append_nil _).symm rfl rfl rfl id rfl rfl
  | advance dt => exact absurd rfl (hadv dt)

/-! ## Clicks on play -/

/-- The click issued `seek 0` and `resume`. -/
def Restarts (s s' : State) : Prop := s'.calls = s.calls ++ [.seek 0, .resume]

/-- A click on play restarts the movie only if there was no seek since the
latest `MOVIE_DONE`, and otherwise resumes it where that seek, and playing
since, has brought it. -/
def KeepsSeek (w : Watch) (e : Event) (w' : Watch) : Prop :=
  e = .clickPlayPause → w.gui._isPlaying = false →
    (Restarts w.gui w'.gui → w.seek = none)
      ∧ ∀ p, w.seek = some p → w'.gui.running = true ∧ w'.gui.time = p + w.played

/-- No click on play comes after the movie has ended and the buffer bar
was clicked, with neither a scrub nor a click on `_playpause` in between. -/
def NotOverlooked (w : Watch) (e : Event) (_ : Watch) : Prop :=
  e = .clickPlayPause → w.gui._isPlaying = false → ¬(w.ended = true ∧ w.bar = true)

/-- What the observer knows about the GUI: where the stream is, and whether the
end of the movie is still noted and why it would be. -/
structure WatchInv (w : Watch) : Prop where
  gui : Inv w.gui
  position : ∀ p, w.seek = some p → w.gui.time = p + w.played
  ended : w.gui._videoEnd = w.ended
  stopped : w.ended = true → w.gui._isPlaying = false
  bar : w.bar = true → w.seek.isSome
  source : w.ended = true → w.seek.isSome → w.bar = true ∨ w.gui._dragging = true

theorem watchInv_start {slider progbar : Control} : WatchInv (Watch.start slider progbar) where
  gui := inv_new
  position := nofun
  ended := rfl
  stopped := nofun
  bar := nofun
  source := nofun

theorem watchInv_movieDone {w : Watch} (h : WatchInv w) :
    WatchInv (w.note .movieDone w.gui.movieDone) where
  gui := inv_movieDone h.gui
  position := nofun
  ended := rfl
  stopped := fun _ => rfl
  bar := nofun
  source := fun _ => nofun

theorem watchInv_advance {w : Watch} {dt : ℚ} {s' : State} (h : WatchInv w)
    (hstep : step w.gui (.advance dt) = some s') : WatchInv (w.note (.advance dt) s') := by
  have hinv := inv_step h.gui hstep
  rw [step] at hstep
  split at hstep
  · obtain rfl := Option.some.inj hstep
    refine ⟨hinv, ?_, h.ended, h.stopped, h.bar, h.source⟩
    intro p hp
    have hpos := h.position p hp
    cases hrun : w.gui.running with
    | true => simp [Watch.note, advance, State.time, hrun, hpos, add_assoc]
    | false => simp [Watch.note, advance, State.time, hrun, hpos]
  · cases hstep

theorem watchInv_handled {w : Watch} {e : Event} {s' : State} (h : WatchInv w) (hinv : Inv s')
    (hh : Handled w.gui e s')
    (hnote : w.note e s' =
      { gui := s'
        seek := (newSeek w.gui s').or w.seek
        played := if (newSeek w.gui s').isSome then 0 else w.played
        ended := w.ended && !endsScrub w.gui e
        bar := w.bar || e.isBarClick }) : WatchInv (w.note e s') := by
  rw [hnote]
  refine ⟨hinv, ?_, ?_, ?_, ?_, ?_⟩
  · intro p hp
    show s'.time = p + _
    rw [hh.position]
    cases hnew : newSeek w.gui s' with
    | some q =>
        rw [hnew] at hp
        obtain rfl := Option.some.inj hp
        simp
    | none =>
        rw [hnew, Option.none_or] at hp
        simpa using h.position p hp
  · rw [hh.ended, h.ended]
  · intro hend
    rw [hh.playing]
    exact h.stopped (Bool.and_elim_left hend)
  · intro hbar
    rw [Bool.or_eq_true] at hbar
    rcases hbar with hbar | hbar
    · rw [Option.isSome_or, h.bar hbar, Bool.or_true]
    · rw [Option.isSome_or, hh.bar hbar, Bool.true_or]
  · intro hend hseek
    simp only [Bool.and_eq_true, Bool.not_eq_true'] at hend
    rw [Option.isSome_or, Bool.or_eq_true] at hseek
    rw [Bool.or_eq_true]
    rcases hseek with hnew | hold
    · rcases hh.seeks hnew with hscrub | hbar | hdrag
      · rw [hend.2] at hscrub
        cases hscrub
      · exact Or.inl (Or.inr hbar)
      · exact Or.inr hdrag
    · rcases h.source hend.1 hold with hbar | hdrag
      · exact Or.inl (Or.inl hbar)
      · exact Or.inr (hh.drag hend.2 hdrag)

/-- A click on play: where the stream is afterwards, and what it was told. -/
theorem clickPlayPause_play {s : State} (hplay : s._isPlaying = false) :
    s.clickPlayPause.running = true ∧ s.clickPlayPause._videoEnd = false
      ∧ s.clickPlayPause.time = (if s._videoEnd then 0 else s.time)
      ∧ (Restarts s s.clickPlayPause ↔ s._videoEnd = true) := by
  cases hend : s._videoEnd with
  | true =>
      simp [clickPlayPause, hplay, hend, Restarts, stream, NetStream.seek, NetStream.resume]
  | false =>
      simp [clickPlayPause, hplay, hend, Restarts, State.calls, stream, NetStream.resume]

/-- The end of the movie is forgotten at every click on `_playpause`. -/
theorem watchInv_clickPlayPause {w : Watch} (h : WatchInv w)
    (hdrag : w.gui._dragging = false)
    (hkeep : w.gui._isPlaying = false → ∀ p, w.seek = some p →
      w.gui.clickPlayPause.time = p + w.played) :
    WatchInv (w.note .clickPlayPause w.gui.clickPlayPause) := by
  refine ⟨inv_clickPlayPause h.gui hdrag, ?_, ?_, nofun, h.bar, nofun⟩
  · intro p hp
    cases hplay : w.gui._isPlaying with
    | true =>
        have hpos := h.position p hp
        simpa [Watch.note, clickPlayPause, hplay, State.time, NetStream.pause] using hpos
    | false => exact hkeep hplay p hp
  · show w.gui.clickPlayPause._videoEnd = false
    cases hplay : w.gui._isPlaying with
    | true =>
        have hend : w.ended = false := by
          rw [← Bool.not_eq_true]
          intro hend
          rw [h.stopped hend] at hplay
          cases hplay
        simp [clickPlayPause, hplay, h.ended, hend]
    | false => exact (clickPlayPause_play hplay).2.1

/-- A click on play keeps the seek exactly when none was overlooked. -/
theorem keepsSeek_step {w w' : Watch} {e : Event} (h : WatchInv w)
    (hstep : watchStep w e = some w') : KeepsSeek w e w' ↔ NotOverlooked w e w' := by
  obtain ⟨s', hs', rfl⟩ := watchStep_eq.mp hstep
  by_cases hclick : e = .clickPlayPause
  · subst hclick
    rw [step] at hs'
    split at hs'
    · cases hs'
    · next hdrag =>
        obtain rfl := Option.some.inj hs'
        constructor
        · -- an overlooked click on the buffer bar: the restart discards its seek
          rintro hkeep - hplay ⟨hend, hbar⟩
          obtain ⟨hnone, -⟩ := hkeep rfl hplay
          have hseek := h.bar hbar
          rw [hnone ((clickPlayPause_play hplay).2.2.2.mpr (h.ended.trans hend))] at hseek
          cases hseek
        · intro hnot _ hplay
          obtain ⟨hrun, -, htime, hrestart⟩ := clickPlayPause_play hplay
          -- no drag is in progress, so a seek since the end came from the buffer bar
          have hsome : w.seek.isSome → w.ended = false := by
            intro hseek
            rw [← Bool.not_eq_true]
            intro hend
            rcases h.source hend hseek with hbar | hd
            · exact hnot rfl hplay ⟨hend, hbar⟩
            · exact hdrag hd
          constructor
          · intro hre
            cases hseek : w.seek with
            | none => rfl
            | some p =>
                have hend := hsome (by rw [hseek]; rfl)
                rw [← h.ended, hrestart.mp hre] at hend
                cases hend
          · intro p hp
            have hend := hsome (by rw [hp]; rfl)
            refine ⟨hrun, ?_⟩
            show w.gui.clickPlayPause.time = p + w.played
            rw [htime, h.ended, hend]
            exact h.position p hp
  · exact ⟨fun _ he => absurd he hclick, fun _ he => absurd he hclick⟩

/-- **Step lemma.** Only a click that discards a seek breaks the invariant. -/
theorem watchInv_step {w w' : Watch} {e : Event} (h : WatchInv w)
    (hstep : watchStep w e = some w') (hkeep : KeepsSeek w e w') : WatchInv w' := by
  obtain ⟨s', hs', rfl⟩ := watchStep_eq.mp hstep
  have hinv := inv_step h.gui hs'
  cases e with
  | movieDone =>
      obtain rfl := Option.some.inj hs'
      exact watchInv_movieDone h
  | clickPlayPause =>
      rw [step] at hs'
      split at hs'
      · cases hs'
      · next hdrag =>
          obtain rfl := Option.some.inj hs'
          refine watchInv_clickPlayPause h (Bool.not_eq_true _ ▸ hdrag) ?_
          intro hplay p hp
          exact ((hkeep rfl hplay).2 p hp).2
  | advance dt => exact watchInv_advance h hs'
  | _ => exact watchInv_handled h hinv (step_handled h.gui hs' (by simp) (by simp) (by simp)) rfl

/-- **Seeks are kept** by all clicks on play of a run exactly when none of
them comes while the movie has ended, the buffer bar has been clicked
since, and no scrub and no click on `_playpause` has come after the end. -/
theorem keepsSeek_iff {slider progbar : Control} {evs : List Event} {w : Watch}
    (hrun : Runs.run watchStep (Watch.start slider progbar) evs = some w) :
    Runs.EachStep watchStep KeepsSeek (Watch.start slider progbar) evs ↔
      Runs.EachStep watchStep NotOverlooked (Watch.start slider progbar) evs :=
  Runs.eachStep_iff WatchInv (fun _ _ _ => keepsSeek_step) (fun _ _ _ => watchInv_step)
    watchInv_start hrun

/-- The movie ends, and the slider is let go after that: the next click on play
goes on from where the slider is. -/
theorem keepsSeek_iff_scrub : ∃ w : Watch,
    Runs.run watchStep (Watch.start ⟨0, 0, 10⟩ ⟨0, 0, 110⟩)
        [.metaData 100, .clickPlayPause, .movieDone, .releaseSlider, .clickPlayPause] = some w
      ∧ (Runs.EachStep watchStep KeepsSeek (Watch.start ⟨0, 0, 10⟩ ⟨0, 0, 110⟩)
            [.metaData 100, .clickPlayPause, .movieDone, .releaseSlider, .clickPlayPause] ↔
          Runs.EachStep watchStep NotOverlooked (Watch.start ⟨0, 0, 10⟩ ⟨0, 0, 110⟩)
            [.metaData 100, .clickPlayPause, .movieDone, .releaseSlider, .clickPlayPause]) :=
  ⟨_, rfl, @keepsSeek_iff ⟨0, 0, 10⟩ ⟨0, 0, 110⟩
    [.metaData 100, .clickPlayPause, .movieDone, .releaseSlider, .clickPlayPause] _ rfl⟩

/-- The movie has ended, and half of it is loaded, so that the buffer bar is
55 wide. A click on the bar at 44 seeks to 40, and the next click on play
starts from 0. -/
theorem barClick_discarded :
    ¬ ∀ slider progbar evs w, Runs.run watchStep (Watch.start slider progbar) evs = some w →
      Runs.EachStep watchStep KeepsSeek (Watch.start slider progbar) evs := by
  intro h
  let start := Watch.start ⟨0, 0, 10⟩ ⟨0, 0, 110⟩
  let evs : List Event := [.metaData 100, .clickPlayPause, .progress 500 1000, .enterFrame,
    .movieDone, .clickBufferbar 44]
  have hends : ((Runs.run watchStep start evs).bind fun w => (watchStep w .clickPlayPause).map
      fun w' => (w.gui._isPlaying, w.seek, w.played, w'.gui.time)) =
        some (false, some 40, 0, 0) := by
    decide +kernel
  obtain ⟨w, hrun, hlast⟩ := Option.bind_eq_some_iff.mp hends
  obtain ⟨w', hstep, heq⟩ := Option.map_eq_some_iff.mp hlast
  simp only [Prod.mk.injEq] at heq
  obtain ⟨hplaying, hseek, hplayed, htime⟩ := heq
  have hwhole : Runs.run watchStep start (evs ++ [.clickPlayPause]) = some w' :=
    Runs.run_append.mpr ⟨w, hrun, Runs.run_cons.mpr ⟨w', hstep, rfl⟩⟩
  have hkeep := h _ _ _ _ hwhole evs .clickPlayPause [] rfl w w' hrun hstep rfl hplaying
  have hresumed := (hkeep.2 40 hseek).2
  rw [htime, hplayed] at hresumed
  exact absurd hresumed (by decide +kernel)

end VideoPlayerGUI

end Resources
