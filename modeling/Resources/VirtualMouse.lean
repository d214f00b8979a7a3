import Mathlib.Data.Rat.Defs
import Mathlib.Algebra.Order.Ring.Rat
import Mathlib.Logic.Function.Basic
import Resources.Runs

/-!
# `VirtualMouse`

A mouse that the program moves. Most changes of it end in `update`, which
dispatches an `UPDATE` event on the mouse itself. The mouse listens to it:
`handleUpdate` looks for the object under the mouse and dispatches what a
mouse would. The display list belongs to the player, so that every call
comes with the `Scene` it finds.

The `UPDATE` events are counted (`updates`), because they come from every
call of `update` and cannot be disabled; all other events are in the `log`.
What listeners do while an event is dispatched is left out, and so are
`delta`, which is always 0, and the static copy of the location.
-/

namespace Resources

namespace VirtualMouse

structure Point where
  x : ℚ
  y : ℚ
deriving DecidableEq

/-- The types of the events that an update can dispatch, under the names that
they have in `Event` and `MouseEvent`. -/
inductive EventType where
  | MOUSE_LEAVE
  | MOUSE_MOVE
  | MOUSE_OUT
  | ROLL_OUT
  | MOUSE_OVER
  | ROLL_OVER
  | MOUSE_DOWN
  | MOUSE_UP
  | CLICK
  | DOUBLE_CLICK
deriving Repr, DecidableEq

/-- What a call finds on the display list of the player, whose objects are `ω`.
Nothing is assumed of it here: `OnStage` below says what the results about
targets need. -/
structure Scene (ω : Type*) where
  /-- From the bottom to the top. -/
  getObjectsUnderPoint : Point → List ω
  /-- An object, its parent, and so on up to the stage. -/
  hierarchy : ω → List ω
  isInteractiveObject : ω → Bool
  isSimpleButton : ω → Bool
  mouseEnabled : ω → Bool
  mouseChildren : ω → Bool
  doubleClickEnabled : ω → Bool
  globalToLocal : ω → Point → Point
  stageWidth : ℚ
  stageHeight : ℚ

/-- An event as its constructor is called. Every event is dispatched twice in a
row, by its target and then by the mouse; it stands in the log once. -/
structure Dispatched (ω : Type*) where
  type : EventType
  bubbles : Bool
  target : ω
  localPoint : Option Point
  relatedObject : Option ω
  ctrlKey : Bool
  altKey : Bool
  shiftKey : Bool
  buttonDown : Bool
  /-- The event is an `IVirtualMouseEvent`. -/
  wrapped : Bool
deriving DecidableEq

/-- The fields of a `VirtualMouse` under their names in the source, and what it
has dispatched. `disabledEvents` and `ignoredInstances` are looked up with
`[..]` only, so that each is the function that this gives. -/
structure Mouse (ω : Type*) where
  altKey : Bool
  ctrlKey : Bool
  shiftKey : Bool
  stage : Option ω
  target : Option ω
  location : Point
  isLocked : Bool
  isDoubleClickEvent : Bool
  mouseIsDown : Bool
  disabledEvents : EventType → Bool
  ignoredInstances : ω → Bool
  lastMouseDown : Bool
  lastLocation : Point
  lastDownTarget : Option ω
  lastWithinStage : Bool
  useNativeEvents : Bool
  /-- The classes `eventEvent` and `mouseEventEvent` are the wrappers. -/
  wrapped : Bool
  /-- How many `UPDATE` events there have been. -/
  updates : ℕ
  /-- All other events so far; `_lastEvent` is the last one. -/
  log : List (Dispatched ω)

variable {ω : Type*}

section code
variable [DecidableEq ω]

namespace Mouse

/-! ## The object under the mouse -/

/-- The inner `while` of `handleUpdate`: it walks from an object under the
mouse up its hierarchy, and carries the target that it has found so far. A
simple button, or a parent without `mouseChildren`, takes a target away that
lies inside it; an ignored object ends the walk with none. -/
def searchParents (sc : Scene ω) (m : Mouse ω) : Option ω → List ω → Option ω
  | currentTarget, [] => currentTarget
  | currentTarget, currentParent :: parents =>
      if m.ignoredInstances currentParent then none
      else
        let currentTarget :=
          if currentTarget.isSome && sc.isSimpleButton currentParent then none
          else if currentTarget.isSome && !sc.mouseChildren currentParent then none
          else currentTarget
        let currentTarget :=
          if currentTarget.isNone && sc.isInteractiveObject currentParent
              && sc.mouseEnabled currentParent then
            some currentParent
          else currentTarget
        searchParents sc m currentTarget parents

/-- The outer `while` over the objects under the mouse, here from the top down.
It ends at the first object whose hierarchy gives a target. -/
def searchObjects (sc : Scene ω) (m : Mouse ω) : List ω → Option ω
  | [] => none
  | object :: below =>
      match m.searchParents sc none (sc.hierarchy object) with
      | some currentTarget => some currentTarget
      | none => searchObjects sc m below

def findTarget (sc : Scene ω) (m : Mouse ω) (stage : ω) : ω :=
  (m.searchObjects sc (sc.getObjectsUnderPoint m.location).reverse).getD stage

/-! ## The events of an update -/

/-- A `new mouseEventEvent(...)` of the source. All the calls of it differ in
these arguments only; they take the keys and the button as they are at that
time. -/
def mouseEvent (m : Mouse ω) (type : EventType) (bubbles : Bool) (target : ω) (localPoint : Point)
    (relatedObject : ω) : Dispatched ω where
  type := type
  bubbles := bubbles
  target := target
  localPoint := some localPoint
  relatedObject := some relatedObject
  ctrlKey := m.ctrlKey
  altKey := m.altKey
  shiftKey := m.shiftKey
  buttonDown := m.mouseIsDown
  wrapped := m.wrapped

def mouseLeave (m : Mouse ω) (stage : ω) : Dispatched ω where
  type := .MOUSE_LEAVE
  bubbles := false
  target := stage
  localPoint := none
  relatedObject := none
  ctrlKey := false
  altKey := false
  shiftKey := false
  buttonDown := false
  wrapped := m.wrapped

/-- An event is dispatched, unless its type is disabled. -/
def dispatch (m : Mouse ω) (e : Dispatched ω) : Mouse ω :=
  if m.disabledEvents e.type then m else { m with log := m.log ++ [e] }

/-- The events of a mouse that has moved. Outside the stage it is told only
that it has left, and only once; `lastWithinStage` changes even where the event
is disabled. -/
def dispatchMove (sc : Scene ω) (stage currentTarget : ω) (currentTargetLocal : Point)
    (m : Mouse ω) : Mouse ω :=
  if m.lastLocation.x ≠ m.location.x ∨ m.lastLocation.y ≠ m.location.y then
    let withinStage : Bool := 0 ≤ m.location.x ∧ 0 ≤ m.location.y ∧
      m.location.x ≤ sc.stageWidth ∧ m.location.y ≤ sc.stageHeight
    let m := if !withinStage && m.lastWithinStage then m.dispatch (m.mouseLeave stage) else m
    let m :=
      if withinStage then
        m.dispatch (m.mouseEvent .MOUSE_MOVE true currentTarget currentTargetLocal currentTarget)
      else m
    { m with lastWithinStage := withinStage }
  else m

/-- The events of a mouse that has come from one object to another: two of the
object it leaves, then two of the one it gets to. Each names the other one of
the two as its related object. -/
def dispatchCrossing (target currentTarget : ω) (targetLocal currentTargetLocal : Point)
    (m : Mouse ω) : Mouse ω :=
  if currentTarget ≠ target then
    let m := m.dispatch (m.mouseEvent .MOUSE_OUT true target targetLocal currentTarget)
    let m := m.dispatch (m.mouseEvent .ROLL_OUT false target targetLocal currentTarget)
    let m := m.dispatch (m.mouseEvent .MOUSE_OVER true currentTarget currentTargetLocal target)
    m.dispatch (m.mouseEvent .ROLL_OVER false currentTarget currentTargetLocal target)
  else m

/-- The events of a button that was pressed or released since the last update.
A release is a click only on the object where the press was seen, and that
object is forgotten afterwards. -/
def dispatchButton (currentTarget : ω) (currentTargetLocal : Point) (m : Mouse ω) : Mouse ω :=
  if m.lastMouseDown ≠ m.mouseIsDown then
    if m.mouseIsDown then
      let m := m.dispatch
        (m.mouseEvent .MOUSE_DOWN true currentTarget currentTargetLocal currentTarget)
      { m with lastDownTarget := some currentTarget }
    else
      let m := m.dispatch
        (m.mouseEvent .MOUSE_UP true currentTarget currentTargetLocal currentTarget)
      let m :=
        if some currentTarget = m.lastDownTarget then
          m.dispatch (m.mouseEvent .CLICK true currentTarget currentTargetLocal currentTarget)
        else m
      { m with lastDownTarget := none }
  else m

def dispatchDoubleClick (sc : Scene ω) (currentTarget : ω) (currentTargetLocal : Point)
    (m : Mouse ω) : Mouse ω :=
  if m.isDoubleClickEvent && sc.doubleClickEnabled currentTarget then
    m.dispatch (m.mouseEvent .DOUBLE_CLICK true currentTarget currentTargetLocal currentTarget)
  else m

/-- `handleUpdate` on a stage: the target is looked for, the events are
dispatched in this order, and then the mouse remembers what it has seen. -/
def updateOn (sc : Scene ω) (stage target : ω) (m : Mouse ω) : Mouse ω :=
  let currentTarget := m.findTarget sc stage
  let targetLocal := sc.globalToLocal target m.location
  let currentTargetLocal := sc.globalToLocal currentTarget m.location
  let m := m.dispatchMove sc stage currentTarget currentTargetLocal
  let m := m.dispatchCrossing target currentTarget targetLocal currentTargetLocal
  let m := m.dispatchButton currentTarget currentTargetLocal
  let m := m.dispatchDoubleClick sc currentTarget currentTargetLocal
  { m with
    lastLocation := m.location
    lastMouseDown := m.mouseIsDown
    target := some currentTarget }

/-- The handler of `UPDATE`. Without a stage it returns at once. On a stage
there is always a target, since setting the stage sets it as well
(`Settled.target`). -/
def handleUpdate (sc : Scene ω) (m : Mouse ω) : Mouse ω :=
  match m.stage, m.target with
  | some stage, some target => m.updateOn sc stage target
  | _, _ => m

/-! ## The calls -/

/-- The `UPDATE` event, which only the handler listens to. -/
def update (sc : Scene ω) (m : Mouse ω) : Mouse ω :=
  { m with updates := m.updates + 1 }.handleUpdate sc

/-- The constructor. It sets the stage before there is a handler, so that
nothing comes of the `UPDATE` event which that dispatches; the update at its
end is the first one that is heard. -/
def new (sc : Scene ω) (stage : Option ω) (startX startY : ℚ) : Mouse ω :=
  update sc {
    altKey := false
    ctrlKey := false
    shiftKey := false
    stage := stage
    target := stage
    location := ⟨startX, startY⟩
    isLocked := false
    isDoubleClickEvent := false
    mouseIsDown := false
    disabledEvents := fun _ => false
    ignoredInstances := fun _ => false
    lastMouseDown := false
    lastLocation := ⟨startX, startY⟩
    lastDownTarget := none
    lastWithinStage := true
    useNativeEvents := false
    wrapped := true
    updates := if stage.isSome then 1 else 0
    log := [] }

/-- The line `if (!isLocked) update()`, which ends every call that changes the
location or the button. -/
def updateUnlessLocked (sc : Scene ω) (m : Mouse ω) : Mouse ω :=
  if m.isLocked then m else m.update sc

/-- The setter of `stage`. The stage becomes the target of the mouse, but there
is an update only where there was no stage before, even if the mouse is locked.
-/
def setStage (sc : Scene ω) (s : Option ω) (m : Mouse ω) : Mouse ω :=
  let hadStage := m.stage.isSome
  match s with
  | none => { m with stage := none }
  | some stage =>
      let m := { m with stage := some stage, target := some stage }
      if hadStage then m else m.update sc

def setLocation (sc : Scene ω) (a b : ℚ) (m : Mouse ω) : Mouse ω :=
  { m with location := ⟨a, b⟩ }.updateUnlessLocked sc

def setX (sc : Scene ω) (n : ℚ) (m : Mouse ω) : Mouse ω :=
  { m with location := ⟨n, m.location.y⟩ }.updateUnlessLocked sc

def setY (sc : Scene ω) (n : ℚ) (m : Mouse ω) : Mouse ω :=
  { m with location := ⟨m.location.x, n⟩ }.updateUnlessLocked sc

/-- The setter of `useNativeEvents`, which chooses the classes of the events.
As the source has it, asking for native events gives the wrappers, and asking
for the others gives the native classes. -/
def setUseNativeEvents (b : Bool) (m : Mouse ω) : Mouse ω :=
  if b = m.useNativeEvents then m
  else if b then { m with useNativeEvents := b, wrapped := true }
  else { m with useNativeEvents := b, wrapped := false }

def lock (m : Mouse ω) : Mouse ω := { m with isLocked := true }

def unlock (sc : Scene ω) (m : Mouse ω) : Mouse ω := { m with isLocked := false }.update sc

def disableEvent (type : EventType) (m : Mouse ω) : Mouse ω :=
  { m with disabledEvents := Function.update m.disabledEvents type true }

def enableEvent (type : EventType) (m : Mouse ω) : Mouse ω :=
  { m with disabledEvents := Function.update m.disabledEvents type false }

def ignore (object : ω) (m : Mouse ω) : Mouse ω :=
  { m with ignoredInstances := Function.update m.ignoredInstances object true }

def unignore (object : ω) (m : Mouse ω) : Mouse ω :=
  { m with ignoredInstances := Function.update m.ignoredInstances object false }

def press (sc : Scene ω) (m : Mouse ω) : Mouse ω :=
  if m.mouseIsDown then m else { m with mouseIsDown := true }.updateUnlessLocked sc

def release (sc : Scene ω) (m : Mouse ω) : Mouse ω :=
  if !m.mouseIsDown then m else { m with mouseIsDown := false }.updateUnlessLocked sc

def click (sc : Scene ω) (m : Mouse ω) : Mouse ω := (m.press sc).release sc

/-- A click, and another one whose release is marked as the double click. A
locked mouse is only released. -/
def doubleClick (sc : Scene ω) (m : Mouse ω) : Mouse ω :=
  if m.isLocked then m.release sc
  else
    let m := m.click sc
    let m := m.press sc
    let m := { m with isDoubleClickEvent := true }
    let m := m.release sc
    { m with isDoubleClickEvent := false }

def keyHandler (alt ctrl shift : Bool) (m : Mouse ω) : Mouse ω :=
  { m with altKey := alt, ctrlKey := ctrl, shiftKey := shift }

/-- Frees the mouse from its stage. Where there is none, the second line of the
source is an error, so that only `lastDownTarget` is reset. The button stays as
it is. -/
def dispose (m : Mouse ω) : Mouse ω :=
  let m := { m with lastDownTarget := none }
  if m.stage.isNone then m else { m with stage := none, target := none }

end Mouse

/-- What a program can do with the mouse, and a key event that the player
sends. Key events come from the stage, so that there is none without a stage.
-/
inductive Call (ω : Type*) where
  | stage (s : Option ω)
  | setLocation (a b : ℚ)
  | x (n : ℚ)
  | y (n : ℚ)
  | useNativeEvents (b : Bool)
  | lock
  | unlock
  | disableEvent (type : EventType)
  | enableEvent (type : EventType)
  | ignore (object : ω)
  | unignore (object : ω)
  | press
  | release
  | click
  | doubleClick
  | update
  | key (alt ctrl shift : Bool)
  | dispose

/-- One call, on the display list that it finds. Every call is possible at any
time, except for a key event without a stage. -/
def step (m : Mouse ω) (e : Scene ω × Call ω) : Option (Mouse ω) :=
  match e.2 with
  | .stage s => some (m.setStage e.1 s)
  | .setLocation a b => some (m.setLocation e.1 a b)
  | .x n => some (m.setX e.1 n)
  | .y n => some (m.setY e.1 n)
  | .useNativeEvents b => some (m.setUseNativeEvents b)
  | .lock => some m.lock
  | .unlock => some (m.unlock e.1)
  | .disableEvent type => some (m.disableEvent type)
  | .enableEvent type => some (m.enableEvent type)
  | .ignore object => some (m.ignore object)
  | .unignore object => some (m.unignore object)
  | .press => some (m.press e.1)
  | .release => some (m.release e.1)
  | .click => some (m.click e.1)
  | .doubleClick => some (m.doubleClick e.1)
  | .update => some (m.update e.1)
  | .key alt ctrl shift => if m.stage.isSome then some (m.keyHandler alt ctrl shift) else none
  | .dispose => some m.dispose

end code

/-! ## Which object it is -/

section target
variable (sc : Scene ω)

/-- A parent that keeps the mouse from everything inside it: a simple button,
or a container without `mouseChildren`. -/
def Blocks (object : ω) : Prop :=
  sc.isSimpleButton object = true ∨ sc.mouseChildren object = false

/-- The object takes the mouse itself, and all of its parents let the mouse
through. -/
def Open (object : ω) (parents : List ω) : Prop :=
  (sc.isInteractiveObject object = true ∧ sc.mouseEnabled object = true) ∧
    ∀ p ∈ parents, ¬Blocks sc p

instance (object : ω) : Decidable (Blocks sc object) := inferInstanceAs (Decidable (_ ∨ _))

instance (object : ω) (parents : List ω) : Decidable (Open sc object parents) :=
  inferInstanceAs (Decidable (_ ∧ _))

/-- The first open object of a hierarchy, which starts with the innermost
object. -/
def innermost : List ω → Option ω
  | [] => none
  | object :: parents => if Open sc object parents then some object else innermost parents

/-- The object stands in the hierarchy and is open, and no object further in is
open. -/
def Receives (hierarchy : List ω) (object : ω) : Prop :=
  ∃ inner parents, hierarchy = inner ++ object :: parents ∧ Open sc object parents ∧
    ∀ pre o rest, inner = pre ++ o :: rest → ¬Open sc o (rest ++ object :: parents)

/-- Nothing in the hierarchy is ignored, from the object itself up to the
stage. -/
def Heeded (m : Mouse ω) (hierarchy : List ω) : Prop :=
  ∀ o ∈ hierarchy, m.ignoredInstances o = false

instance (m : Mouse ω) (hierarchy : List ω) : Decidable (Heeded m hierarchy) :=
  List.decidableBAll _ hierarchy

variable {sc}

theorem innermost_eq_some_iff {object : ω} : ∀ {hierarchy : List ω},
    innermost sc hierarchy = some object ↔ Receives sc hierarchy object
  | [] => by
      constructor
      · intro h
        cases h
      · rintro ⟨inner, parents, heq, -⟩
        simp at heq
  | o :: parents => by
      rw [innermost]
      split
      · next hopen =>
          constructor
          · intro h
            obtain rfl := Option.some.inj h
            refine ⟨[], parents, rfl, hopen, ?_⟩
            intro pre o rest heq
            simp at heq
          · rintro ⟨inner, outer, heq, -, hinner⟩
            cases inner with
            | nil => rw [(List.cons.inj heq).1]
            | cons a inner =>
                obtain ⟨rfl, rfl⟩ := List.cons.inj heq
                exact absurd hopen (hinner [] o inner rfl)
      · next hclosed =>
          rw [innermost_eq_some_iff]
          constructor
          · rintro ⟨inner, outer, rfl, hopen, hinner⟩
            refine ⟨o :: inner, outer, rfl, hopen, ?_⟩
            intro pre a rest heq
            cases pre with
            | nil =>
                obtain ⟨rfl, rfl⟩ := List.cons.inj heq
                exact hclosed
            | cons b pre => exact hinner pre a rest (List.cons.inj heq).2
          · rintro ⟨inner, outer, heq, hopen, hinner⟩
            cases inner with
            | nil =>
                obtain ⟨rfl, rfl⟩ := List.cons.inj heq
                exact absurd hopen hclosed
            | cons a inner =>
                obtain ⟨rfl, rfl⟩ := List.cons.inj heq
                refine ⟨inner, outer, rfl, hopen, ?_⟩
                intro pre b rest heq'
                exact hinner (o :: pre) b rest (by rw [heq', List.cons_append])

/-- One round of the walk over a parent that is not ignored. What it does to
the target is what the statement of `searchParents_eq` says of the longer
hierarchy. -/
theorem walk_step {o : ω} {parents : List ω} (currentTarget : Option ω) :
    (let left := if Blocks sc o then none else currentTarget
      let next := if left.isNone && sc.isInteractiveObject o && sc.mouseEnabled o then some o
        else left
      if next.isSome ∧ ∀ p ∈ parents, ¬Blocks sc p then next else innermost sc parents) =
    if currentTarget.isSome ∧ ∀ p ∈ o :: parents, ¬Blocks sc p then currentTarget
    else innermost sc (o :: parents) := by
  simp only [List.forall_mem_cons, innermost]
  by_cases hclear : ∀ p ∈ parents, ¬Blocks sc p
  · have hopen : Open sc o parents ↔ (sc.isInteractiveObject o && sc.mouseEnabled o) = true := by
      rw [Bool.and_eq_true]
      exact and_iff_left hclear
    simp only [eq_true hclear, and_true, hopen, Bool.and_assoc]
    generalize (sc.isInteractiveObject o && sc.mouseEnabled o) = enabled
    by_cases hblocks : Blocks sc o <;> cases enabled <;> cases currentTarget <;> simp [hblocks]
  · have hclosed : ¬Open sc o parents := fun h => hclear h.2
    simp only [hclear, and_false, if_false, if_neg hclosed]

/-- What the walk comes to: it gives the target that it came with, if no parent
blocks it, and else the innermost open object. If anything is ignored on the
way, it gives nothing. -/
theorem searchParents_eq {m : Mouse ω} : ∀ (hierarchy : List ω) (currentTarget : Option ω),
    m.searchParents sc currentTarget hierarchy =
      if Heeded m hierarchy then
        if currentTarget.isSome ∧ ∀ o ∈ hierarchy, ¬Blocks sc o then currentTarget
        else innermost sc hierarchy
      else none
  | [], currentTarget => by
      cases currentTarget <;> simp [Mouse.searchParents, Heeded, innermost]
  | o :: parents, currentTarget => by
      rw [Mouse.searchParents]
      split
      · next hignored =>
          rw [if_neg]
          intro hheeded
          rw [hheeded o List.mem_cons_self] at hignored
          cases hignored
      · next hheeded =>
          rw [Bool.not_eq_true] at hheeded
          have hcons : Heeded m (o :: parents) ↔ Heeded m parents := by
            rw [Heeded, List.forall_mem_cons]
            exact and_iff_right hheeded
          have hleft : (if currentTarget.isSome && sc.isSimpleButton o then none
              else if currentTarget.isSome && !sc.mouseChildren o then none
              else currentTarget) = if Blocks sc o then none else currentTarget := by
            cases currentTarget <;> cases h : sc.isSimpleButton o <;>
              cases h' : sc.mouseChildren o <;> simp [Blocks, h, h']
          simp only [searchParents_eq parents, hcons, hleft]
          by_cases hall : Heeded m parents
          · rw [if_pos hall, if_pos hall]
            exact walk_step currentTarget
          · rw [if_neg hall, if_neg hall]

section objects
variable {m : Mouse ω} {stage : ω}

/-- What one object under the mouse makes of it: the target in its hierarchy,
unless the hierarchy has something ignored in it. -/
def takes (sc : Scene ω) (m : Mouse ω) (object : ω) : Option ω :=
  if Heeded m (sc.hierarchy object) then innermost sc (sc.hierarchy object) else none

theorem searchObjects_eq (objects : List ω) :
    m.searchObjects sc objects = objects.findSome? (takes sc m) := by
  induction objects with
  | nil => rfl
  | cons object below ih =>
      have hwalk : m.searchParents sc none (sc.hierarchy object) = takes sc m object := by
        rw [searchParents_eq]
        exact if_congr Iff.rfl (if_neg fun h => by cases h.1) rfl
      rw [Mouse.searchObjects, hwalk, ih, List.findSome?_cons]
      rfl

/-- The player keeps the stage at the end of every hierarchy, and the stage
takes the mouse. Then every hierarchy has an open object. -/
structure OnStage (sc : Scene ω) (m : Mouse ω) (stage : ω) : Prop where
  isInteractiveObject : sc.isInteractiveObject stage = true
  mouseEnabled : sc.mouseEnabled stage = true
  top : ∀ object ∈ sc.getObjectsUnderPoint m.location,
    ∃ inner, sc.hierarchy object = inner ++ [stage]

theorem innermost_isSome (henabled : sc.isInteractiveObject stage = true ∧
    sc.mouseEnabled stage = true) (inner : List ω) :
    (innermost sc (inner ++ [stage])).isSome = true := by
  induction inner with
  | nil =>
      have hopen : Open sc stage [] := ⟨henabled, List.forall_mem_nil _⟩
      rw [List.nil_append, innermost, if_pos hopen]
      rfl
  | cons o inner ih =>
      rw [List.cons_append, innermost]
      split
      · rfl
      · exact ih

theorem takes_eq_some_iff {object target : ω} : takes sc m object = some target ↔
    Heeded m (sc.hierarchy object) ∧ Receives sc (sc.hierarchy object) target := by
  rw [takes, ← innermost_eq_some_iff]
  split
  · next hheeded => exact (and_iff_right hheeded).symm
  · next hheeded => exact iff_of_false nofun fun h => hheeded h.1

theorem takes_eq_none_iff (hstage : OnStage sc m stage) {object : ω}
    (hobject : object ∈ sc.getObjectsUnderPoint m.location) :
    takes sc m object = none ↔ ¬Heeded m (sc.hierarchy object) := by
  obtain ⟨inner, hinner⟩ := hstage.top object hobject
  have hsome := innermost_isSome ⟨hstage.isInteractiveObject, hstage.mouseEnabled⟩ inner
  rw [← hinner, Option.isSome_iff_ne_none] at hsome
  rw [takes]
  split
  · next hheeded => exact iff_of_false hsome (not_not_intro hheeded)
  · next hheeded => exact iff_of_true rfl hheeded

/-- **Who gets the mouse**: of the topmost object under it that is heeded,
the innermost open one of the object and its parents. That object hides
what is below, also where it does not take the mouse itself. -/
theorem findTarget_iff (hstage : OnStage sc m stage) {target : ω} :
    m.findTarget sc stage = target ↔
      (∃ below object above, sc.getObjectsUnderPoint m.location = below ++ object :: above ∧
        (∀ a ∈ above, ¬Heeded m (sc.hierarchy a)) ∧ Heeded m (sc.hierarchy object) ∧
        Receives sc (sc.hierarchy object) target) ∨
      (∀ a ∈ sc.getObjectsUnderPoint m.location, ¬Heeded m (sc.hierarchy a)) ∧ target = stage := by
  rw [Mouse.findTarget, searchObjects_eq]
  constructor
  · intro h
    cases hfound : (sc.getObjectsUnderPoint m.location).reverse.findSome? (takes sc m) with
    | none =>
        rw [hfound, Option.getD_none] at h
        refine Or.inr ⟨?_, h.symm⟩
        intro a ha
        exact (takes_eq_none_iff hstage ha).mp
          (List.findSome?_eq_none_iff.mp hfound a (List.mem_reverse.mpr ha))
    | some t =>
        rw [hfound, Option.getD_some] at h
        obtain ⟨above, object, below, hobjects, htakes, habove⟩ :=
          List.findSome?_eq_some_iff.mp hfound
        have hobjects : sc.getObjectsUnderPoint m.location =
            below.reverse ++ object :: above.reverse := by
          rw [← List.reverse_reverse (sc.getObjectsUnderPoint m.location), hobjects]
          simp
        obtain ⟨hheeded, hreceives⟩ := takes_eq_some_iff.mp htakes
        refine Or.inl ⟨below.reverse, object, above.reverse, hobjects, ?_, hheeded, ?_⟩
        · intro a ha
          refine (takes_eq_none_iff hstage ?_).mp (habove a (List.mem_reverse.mp ha))
          rw [hobjects]
          exact List.mem_append_right _ (List.mem_cons_of_mem _ ha)
        · rw [← h]
          exact hreceives
  · rintro (⟨below, object, above, hobjects, habove, hheeded, hreceives⟩ | ⟨hall, rfl⟩)
    · have hfound : (sc.getObjectsUnderPoint m.location).reverse.findSome? (takes sc m) =
          some target := by
        refine List.findSome?_eq_some_iff.mpr ⟨above.reverse, object, below.reverse, ?_, ?_, ?_⟩
        · rw [hobjects]
          simp
        · exact takes_eq_some_iff.mpr ⟨hheeded, hreceives⟩
        · intro a ha
          exact if_neg (habove a (List.mem_reverse.mp ha))
      rw [hfound, Option.getD_some]
    · rw [List.findSome?_eq_none_iff.mpr, Option.getD_none]
      intro a ha
      exact if_neg (hall a (List.mem_reverse.mp ha))

end objects

end target

/-- A stage 0 with its root 1. In the root there is a button 3, and over the
button a sprite 2 that does not take the mouse. -/
def overlay : Scene ℕ where
  getObjectsUnderPoint := fun _ => [3, 2]
  hierarchy := fun object =>
    if object = 0 then [0] else if object = 1 then [1, 0] else [object, 1, 0]
  isInteractiveObject := fun _ => true
  isSimpleButton := fun _ => false
  mouseEnabled := fun object => object ≠ 2
  mouseChildren := fun _ => true
  doubleClickEnabled := fun object => object = 3
  globalToLocal := fun _ point => point
  stageWidth := 800
  stageHeight := 600

/-- The mouse is over the sprite and over the button below it. The root gets
it, not the button, since the sprite hides what is below. -/
theorem findTarget_overlay :
    (Mouse.new overlay (some 0) 10 10).findTarget overlay 0 = 1 ↔
      (∃ below object above, overlay.getObjectsUnderPoint ⟨10, 10⟩ = below ++ object :: above ∧
        (∀ a ∈ above, ¬Heeded (Mouse.new overlay (some 0) 10 10) (overlay.hierarchy a)) ∧
        Heeded (Mouse.new overlay (some 0) 10 10) (overlay.hierarchy object) ∧
        Receives overlay (overlay.hierarchy object) 1) ∨
      (∀ a ∈ overlay.getObjectsUnderPoint ⟨10, 10⟩,
        ¬Heeded (Mouse.new overlay (some 0) 10 10) (overlay.hierarchy a)) ∧ 1 = 0 :=
  findTarget_iff ⟨rfl, rfl, List.forall_mem_cons.mpr
    ⟨⟨[3, 1], rfl⟩, List.forall_mem_singleton.mpr ⟨[2, 1], rfl⟩⟩⟩

end VirtualMouse

end Resources
