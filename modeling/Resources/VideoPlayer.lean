import Mathlib.Algebra.Order.Field.Rat
import Resources.Runs

/-!
# `VideoPlayer` and `VideoPlayerGUI`

The player owns a `NetStream`; the GUI owns the player's controls. A
`Number` is a rational. The state is flat: the GUI's fields, the display
objects it moves, the stream, and what Flash keeps for it (the three
listeners it puts on the stage, and the drag of the slider).

A stream is running or paused. `resume` and `pause` act at once, `seek`
moves the position and nothing else, and `MOVIE_DONE` stops it. `calls`
is the sequence of calls the stream received.

`step` is one event, handled to the end: a release over the slider goes
to the slider's handler and then bubbles to the stage. A click is a
press and a release of the one mouse button on the same object, so there
is none on `_playpause` or `_bufferbar` while the slider is dragged.
-/

namespace Resources

namespace VideoPlayer

/-! ## The stream and its player -/

inductive Call where
  | seek (offset : ℚ)
  | pause
  | resume
deriving Repr, DecidableEq

/-- The `flash.net.NetStream` of the player, as far as the controls read it,
with the calls it has received. -/
structure NetStream where
  running : Bool
  time : ℚ
  bytesLoaded : ℚ
  bytesTotal : ℚ
  calls : List Call
deriving Repr, DecidableEq

namespace NetStream

def seek (offset : ℚ) (ns : NetStream) : NetStream :=
  { ns with time := offset, calls := ns.calls ++ [.seek offset] }

def pause (ns : NetStream) : NetStream :=
  { ns with running := false, calls := ns.calls ++ [.pause] }

def resume (ns : NetStream) : NetStream :=
  { ns with running := true, calls := ns.calls ++ [.resume] }

def play (ns : NetStream) : NetStream := { ns with running := true, time := 0 }

end NetStream

/-- The player's fields that a control reads: its stream, and the length of the
clip. -/
structure Player where
  ns : NetStream
  clipLength : ℚ
deriving Repr, DecidableEq

namespace Player

/-- The constructor: connect the media and go to the first frame. -/
def new : Player where
  ns := NetStream.pause (NetStream.seek 0 (NetStream.play
    { running := false, time := 0, bytesLoaded := 0, bytesTotal := 0, calls := [] }))
  clipLength := 0

/-- `metaDataHandler` reads the clip's length. -/
def metaDataHandler (duration : ℚ) (v : Player) : Player := { v with clipLength := duration }

def seekTo (pct : ℚ) (v : Player) : Player := { v with ns := v.ns.seek (pct * v.clipLength) }

/-- Before any byte is known the quotient is `NaN`, which is not positive;
nor is `0 / 0` here. -/
def getPercentLoaded (v : Player) : ℚ := v.ns.bytesLoaded / v.ns.bytesTotal

/-- While the length of the clip is not known, which is 0 then, the quotient
of a stream that plays is `Infinity`, and here it is 0. It is read in
`placeSlider` alone, which puts the slider out of sight by it until the
metadata come, and here leaves the slider where it is. -/
def getPlayhead (v : Player) : ℚ := v.ns.time / v.clipLength

end Player

end VideoPlayer

namespace VideoPlayerGUI

open VideoPlayer (NetStream Player Call)

/-- The frame labels of `_playpause`. -/
inductive Frame where
  | PLAY
  | PAUSE
deriving Repr, DecidableEq

structure Rectangle where
  x : ℚ
  y : ℚ
  width : ℚ
  height : ℚ
deriving Repr, DecidableEq

/-- `_slider` and `_progbar`: the position and width of a control. -/
structure Control where
  x : ℚ
  y : ℚ
  width : ℚ
deriving Repr, DecidableEq

/-- The fields of the GUI, the display objects that it moves, and what Flash
keeps for it: the pointer, the drag and the listeners on the stage. -/
structure State where
  _slider : Control
  _progbar : Control
  /-- Of `_bufferbar` only the width is ever set. -/
  _bufferbar_width : ℚ
  _playpause : Frame
  _isPlaying : Bool
  _videoObj : Player
  _sliderbounds : Rectangle
  _dragging : Bool
  _videoEnd : Bool
  /-- `childUpOutside` listens for `MOUSE_UP` on the stage. -/
  onMouseUp : Bool
  /-- `loseFocus` listens for `MOUSE_LEAVE`. -/
  onMouseLeave : Bool
  /-- `updateWhileScrubbing` listens for `MOUSE_MOVE`. -/
  onMouseMove : Bool
  /-- The pointer's position, and while `startDrag` is in force how far the
  pointer is from the slider's `x`. -/
  mouseX : ℚ
  dragOffset : Option ℚ
deriving Repr, DecidableEq

/-- The constructor, for the graphic's slider and progress bar. -/
def new (vidobj : Player) (slider progbar : Control) : State where
  _slider := slider
  _progbar := progbar
  _bufferbar_width := 0
  _playpause := .PLAY
  _isPlaying := false
  _videoObj := vidobj
  _sliderbounds := ⟨progbar.x, progbar.y, progbar.width - slider.width, 0⟩
  _dragging := false
  _videoEnd := false
  onMouseUp := false
  onMouseLeave := false
  onMouseMove := false
  mouseX := 0
  dragOffset := none

namespace State

def stream (f : NetStream → NetStream) (s : State) : State :=
  { s with _videoObj := { s._videoObj with ns := f s._videoObj.ns } }

/-- `_videoObj.seekTo(pct)`. -/
def seekTo (pct : ℚ) (s : State) : State := { s with _videoObj := s._videoObj.seekTo pct }

def movieEnd (s : State) : State :=
  { s with _videoEnd := true, _isPlaying := false, _playpause := .PLAY }

/-- The handler of a click on `_playpause`. Play begins again where the movie
has ended. -/
def clickPlayPause (s : State) : State :=
  if s._isPlaying then
    { s with _isPlaying := false, _playpause := .PLAY }.stream .pause
  else
    let s := { s with _isPlaying := true }
    let s :=
      if s._videoEnd then ({ s with _videoEnd := false }.stream (.seek 0)).stream .resume
      else s.stream .resume
    { s with _playpause := .PAUSE }

/-- `onEnterFrame`'s first half: outside a drag the slider shows the playhead. -/
def placeSlider (s : State) : State :=
  if s._dragging then s
  else
    let playheadPos := s._videoObj.getPlayhead * (s._progbar.width - s._slider.width)
    if 0 < playheadPos then { s with _slider := { s._slider with x := playheadPos } } else s

/-- `onEnterFrame`'s second half. -/
def sizeBufferbar (s : State) : State :=
  let pctloaded := s._videoObj.getPercentLoaded
  if 0 < pctloaded then { s with _bufferbar_width := pctloaded * s._progbar.width } else s

def onEnterFrame (s : State) : State := s.placeSlider.sizeBufferbar

/-- The slider is let go: the stream is sent to where the slider is, and plays
on if it did. The end of the movie is forgotten, since the playhead has moved.
-/
def stopScrub (s : State) : State :=
  let s := { s with dragOffset := none }
  let pctdragged := s._slider.x / (s._progbar.width - s._slider.width)
  let s := s.seekTo pctdragged
  let s := if s._isPlaying then s.stream .resume else s
  { s with _dragging := false, _videoEnd := false }

/-- The slider is taken: the stream is paused, and the stage is listened to for
the end of the drag. -/
def startScrub (s : State) : State :=
  let s := { s with onMouseUp := true, onMouseLeave := true, onMouseMove := true }
  let s := s.stream .pause
  { s with _dragging := true, dragOffset := some (s.mouseX - s._slider.x) }

/-- The handler of a release anywhere on the stage. `onSlider` says that the
target of the event is `_slider`, whose own handler has seen it before. -/
def childUpOutside (onSlider : Bool) (s : State) : State :=
  let s := { s with onMouseUp := false, onMouseMove := false }
  if !onSlider && s._dragging then s.stopScrub else s

def loseFocus (s : State) : State :=
  let s := { s with onMouseLeave := false, onMouseMove := false }
  if s._dragging then s.stopScrub else s

/-- The handler of a click on the buffer bar. It sends the stream to where the
pointer is, and does nothing else. -/
def jumpToSection (s : State) : State :=
  let jumpPct := s.mouseX / s._progbar.width
  s.seekTo jumpPct

def updateWhileScrubbing (s : State) : State :=
  let jumpPct := s.mouseX / s._progbar.width
  (s.seekTo jumpPct).stream .pause

/-! ## What Flash does -/

/-- The pointer moves; a dragged slider follows it within `_sliderbounds`. -/
def movePointer (x : ℚ) (s : State) : State :=
  match s.dragOffset with
  | some d =>
      { s with
        mouseX := x
        _slider := { s._slider with
          x := max s._sliderbounds.x (min (x - d) (s._sliderbounds.x + s._sliderbounds.width)) } }
  | none => { s with mouseX := x }

/-- `MOVIE_DONE`: the stream has stopped, and `movieEnd` is called. -/
def movieDone (s : State) : State :=
  (s.stream fun ns => { ns with running := false }).movieEnd

/-- A running stream plays on. -/
def advance (dt : ℚ) (s : State) : State :=
  s.stream fun ns => if ns.running then { ns with time := ns.time + dt } else ns

end State

inductive Event where
  /-- A press on the slider, with the pointer at `x`. -/
  | pressSlider (x : ℚ)
  | mouseMove (x : ℚ)
  /-- A release over the slider, wherever the press was. -/
  | releaseSlider
  | releaseElsewhere
  | mouseLeave
  | clickPlayPause
  /-- A click on the buffer bar at `x`. -/
  | clickBufferbar (x : ℚ)
  | movieDone
  | enterFrame
  | metaData (duration : ℚ)
  | progress (bytesLoaded bytesTotal : ℚ)
  | advance (dt : ℚ)
deriving Repr, DecidableEq

open State

def step (s : State) : Event → Option State
  | .pressSlider x => some (s.movePointer x).startScrub
  | .mouseMove x =>
      let s := s.movePointer x
      some (if s.onMouseMove then s.updateWhileScrubbing else s)
  | .releaseSlider =>
      let s := s.stopScrub
      some (if s.onMouseUp then s.childUpOutside true else s)
  | .releaseElsewhere => some (if s.onMouseUp then s.childUpOutside false else s)
  | .mouseLeave => some (if s.onMouseLeave then s.loseFocus else s)
  | .clickPlayPause => if s._dragging then none else some s.clickPlayPause
  | .clickBufferbar x => if s._dragging then none else some (s.movePointer x).jumpToSection
  | .movieDone => some s.movieDone
  | .enterFrame => some s.onEnterFrame
  | .metaData duration =>
      some { s with _videoObj := s._videoObj.metaDataHandler duration }
  | .progress bytesLoaded bytesTotal =>
      some (s.stream fun ns => { ns with bytesLoaded := bytesLoaded, bytesTotal := bytesTotal })
  | .advance dt => if 0 ≤ dt then some (s.advance dt) else none

end VideoPlayerGUI

end Resources
