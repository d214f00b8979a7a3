import Mathlib.Logic.Function.Basic
import Resources.Runs

/-!
# `AssetLoader`: a queue of urls, loaded four at a time

`com.cortinaproductions.util.AssetLoader` keeps its queue, the index of
the next url to start, a dictionary from loaders to urls and two
counters. `startQueue` starts loads while a slot is free; the completion
handler frees a slot, starts the next loads and reports.

The state below is the class' fields together with what the player keeps
for it: the `Loader` objects it created, in order of creation, the
listeners registered on them, and the events dispatched so far. A
`Loader` and its `contentLoaderInfo` are two objects (`Obj`); the
dictionary and the listener registry tell them apart by identity.

`step` is one event of the player: a call of a public method, or a
`COMPLETE` or `IO_ERROR` event of a started loader, at most one
`COMPLETE` for each. `settleStep` is the player that ends every load
once, with one of the two. Handlers of the dispatched events may call
the public methods again: `dispatchEvent` is the last thing `onComplete`
does, so such calls are events that follow.
-/

namespace Resources

namespace AssetLoader

abbrev Url := String

/-- `flash.events` types the loader listens to. -/
inductive LoaderEvent where
  | OPEN
  | COMPLETE
  | PROGRESS
  | HTTP_STATUS
  | IO_ERROR
deriving Repr, DecidableEq

/-- The object identities in play: the `n`-th `Loader` created, and the
`LoaderInfo` it holds in `contentLoaderInfo`. -/
inductive Obj where
  | loader (n : Nat)
  | contentLoaderInfo (n : Nat)
deriving Repr, DecidableEq

inductive Handler where
  | onStart
  | onComplete
  | onUpdate
  | onHTTPStatus
  | onIOError
deriving Repr, DecidableEq

inductive EventType where
  | ALL_COMPLETE_LOADING
  | COMPLETE_LOADING
deriving Repr, DecidableEq

/-- A dispatched `AssetLoaderEvent`. `parameters` is the array
`[dictionary[event.target], percent]`; a missing key reads `undefined`,
which is `none` here. -/
structure AssetLoaderEvent where
  type : EventType
  parameters : Option Url × String
deriving Repr, DecidableEq

/-- A `Loader` after its `load(request)`, and how the load went so far. -/
structure Load where
  request : Url
  completed : Bool := false
  failed : Bool := false
deriving Repr, DecidableEq

/-- The constant `MAX_LOAD`: how many loads may go on at a time. -/
def MAX_LOAD : Nat := 4

/-- `--` on a `uint`: below zero it wraps. -/
def uintDecr : Nat → Nat
  | 0 => 0xFFFFFFFF
  | n + 1 => n

/-- The class' fields (`currentLoading` is the only counter that goes
down, and wraps as a `uint` does; `loadIndex` and `finishLoading` count
urls of the queue), then the player's side. -/
structure State where
  queue : List Url
  loadIndex : Nat
  dictionary : Obj → Option Url
  currentLoading : Nat
  finishLoading : Nat
  loads : List Load
  listeners : Obj × LoaderEvent → Option Handler
  dispatched : List AssetLoaderEvent

namespace State

def addToQueue (args : List Url) (s : State) : State :=
  { s with queue := s.queue ++ args }

/-- `startListeners`: one handler for each event type of `loaderInfo`. -/
def startListeners (loaderInfo : Obj) (s : State) : State :=
  { s with listeners := fun key =>
      if key = (loaderInfo, .OPEN) then some .onStart
      else if key = (loaderInfo, .COMPLETE) then some .onComplete
      else if key = (loaderInfo, .PROGRESS) then some .onUpdate
      else if key = (loaderInfo, .HTTP_STATUS) then some .onHTTPStatus
      else if key = (loaderInfo, .IO_ERROR) then some .onIOError
      else s.listeners key }

/-- The body of `startQueue`'s loop, for the url at `loadIndex`: a new
`Loader` listens, loads, and is entered in the dictionary. -/
def startLoad (url : Url) (s : State) : State :=
  let n := s.loads.length
  let s := s.startListeners (.contentLoaderInfo n)
  { s with
    loads := s.loads ++ [{ request := url }]
    dictionary := Function.update s.dictionary (.loader n) (some url)
    currentLoading := s.currentLoading + 1
    loadIndex := s.loadIndex + 1 }

/-- `startQueue`'s loop, for at most `fuel` rounds. -/
def startLoop : Nat → State → State
  | 0, s => s
  | fuel + 1, s =>
      match s.queue[s.loadIndex]? with
      | some url => if s.currentLoading < MAX_LOAD then startLoop fuel (s.startLoad url) else s
      | none => s

/-- `startQueue`: every round of the loop advances `loadIndex`, so there
are no more rounds than urls left. That this is fuel enough, so that the
loop ends by its own condition, is `startQueue_eq`. -/
def startQueue (s : State) : State := startLoop (s.queue.length - s.loadIndex) s

def dispatchEvent (e : AssetLoaderEvent) (s : State) : State :=
  { s with dispatched := s.dispatched ++ [e] }

/-- The handler of `COMPLETE`: the load is counted, a slot is free for the next
ones, and the completion is reported with the counts as they were before those
were started. -/
def onComplete (target : Obj) (s : State) : State :=
  let s := { s with
    currentLoading := uintDecr s.currentLoading
    finishLoading := s.finishLoading + 1 }
  let percent := toString s.finishLoading ++ "/" ++ toString s.queue.length
  let s := s.startQueue
  if s.finishLoading = s.queue.length then
    s.dispatchEvent ⟨.ALL_COMPLETE_LOADING, s.dictionary target, percent⟩
  else
    s.dispatchEvent ⟨.COMPLETE_LOADING, s.dictionary target, percent⟩

/-- The handlers but `onComplete` do nothing: the bodies of `onStart`,
`onUpdate`, `onHTTPStatus` and `onIOError` are empty but for a commented-out
trace. -/
def handle (target : Obj) (s : State) : Handler → State
  | .onComplete => s.onComplete target
  | .onStart | .onUpdate | .onHTTPStatus | .onIOError => s

def fire (target : Obj) (e : LoaderEvent) (s : State) : State :=
  match s.listeners (target, e) with
  | some h => s.handle target h
  | none => s

end State

/-- The constructor. -/
def new (args : List Url) : State :=
  State.addToQueue args
    { queue := []
      loadIndex := 0
      dictionary := fun _ => none
      currentLoading := 0
      finishLoading := 0
      loads := []
      listeners := fun _ => none
      dispatched := [] }

/-! ## The player's events -/

/-- The calls of the two public methods, and the two events of the player that
end a load. -/
inductive Event where
  | addToQueue (args : List Url)
  | startQueue
  | complete (n : Nat)
  | ioError (n : Nat)
deriving Repr, DecidableEq

open State

/-- One event. `COMPLETE` comes at most once for a started loader. -/
def step (s : State) : Event → Option State
  | .addToQueue args => some (s.addToQueue args)
  | .startQueue => some s.startQueue
  | .complete n =>
      match s.loads[n]? with
      | some l =>
          if l.completed then none
          else some (fire (.contentLoaderInfo n) .COMPLETE
            { s with loads := s.loads.set n { l with completed := true } })
      | none => none
  | .ioError n =>
      match s.loads[n]? with
      | some l =>
          some (fire (.contentLoaderInfo n) .IO_ERROR
            { s with loads := s.loads.set n { l with failed := true } })
      | none => none

/-- The load has ended, one way or the other. -/
def Load.settled (l : Load) : Bool := l.completed || l.failed

/-- `step`, for a player that ends every load only once. -/
def settleStep (s : State) : Event → Option State
  | .complete n =>
      if (s.loads[n]?).any (! ·.settled) then step s (.complete n) else none
  | .ioError n =>
      if (s.loads[n]?).any (! ·.settled) then step s (.ioError n) else none
  | e => step s e

theorem settleStep_step {s s' : State} {e : Event} (h : settleStep s e = some s') :
    step s e = some s' := by
  cases e with
  | addToQueue args => exact h
  | startQueue => exact h
  | complete n =>
      rw [settleStep] at h
      split at h
      · exact h
      · cases h
  | ioError n =>
      rw [settleStep] at h
      split at h
      · exact h
      · cases h

end AssetLoader

end Resources
