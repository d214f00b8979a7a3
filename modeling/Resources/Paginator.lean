import Mathlib.Data.Rat.Floor
import Resources.Runs

/-!
# `Paginator`

A row of numbered buttons between `<` and `>`. The class `Item` of the
buttons is not part of the sources, so the model takes it as a parameter:
`ItemClass` lists the members that the paginator calls, over an arbitrary
type of items, and `ItemClass.Lawful` collects what the paginator relies
on when it calls them. Nothing else is assumed of an item. In particular
its `width` may depend on everything the item shows.

`itemArray` holds the numbered buttons and `holder` the children of the
sprite that shows them. `removeChild` throws when its argument is not a
child, so the handlers return an `Option`; `itemPicked_isSome` and
`setIndex_isSome`, of the next module, say that they never do.

The difference of a `uint` and an `int` is a `Number`, so `totalItem - 5`
is negative for short lists.
-/

namespace Resources

namespace Paginator

/-- What an `Item` is built with: the number it stands for, or one of the
strings `<` and `>`. -/
inductive Info where
  | number (n : ℕ)
  | string (s : String)
deriving Repr, DecidableEq

/-! ## The class `Item` -/

/-- The members of `Item` that the paginator calls. An assignment to `x`
and a call of `greyOut` return the item as it is afterwards; `greyOut none`
is the call without an argument. `grey` is what a user sees of `greyOut`: a
button that is greyed out sends no `ITEM_PICK`. -/
structure ItemClass (Item : Type*) where
  new : Info → Item
  info : Item → Info
  width : Item → ℚ
  setX : ℕ → Item → Item
  greyOut : Option Bool → Item → Item
  grey : Item → Bool

/-- What the paginator relies on: a new item has the `info` it was built
with and is not greyed out, `greyOut()` greys it out and `greyOut(false)`
takes that back, and neither a call nor an assignment to `x` changes
anything else of what the paginator reads again. -/
structure ItemClass.Lawful {Item : Type*} (C : ItemClass Item) : Prop where
  info_new : ∀ info, C.info (C.new info) = info
  grey_new : ∀ info, C.grey (C.new info) = false
  info_setX : ∀ x item, C.info (C.setX x item) = C.info item
  grey_setX : ∀ x item, C.grey (C.setX x item) = C.grey item
  info_greyOut : ∀ grey item, C.info (C.greyOut grey item) = C.info item
  grey_greyOut : ∀ item, C.grey (C.greyOut none item) = true
  grey_greyOut_false : ∀ item, C.grey (C.greyOut (some false) item) = false

/-- A reference to an item. Two items are told apart by `id`, and not by
what they show. -/
structure Ref (Item : Type*) where
  id : ℕ
  item : Item
deriving Repr, DecidableEq

/-! ## The paginator -/

/-- The fields of the paginator. `created` is not one of them: it counts
the items built so far and gives each of them its `id`. -/
structure State (Item : Type*) where
  itemArray : List (Ref Item)
  itemIndex : ℤ
  totalItem : ℕ
  xPos : ℕ
  holder : List (Ref Item)
  prev : Item
  next : Item
  current : Option Item
  created : ℕ
deriving Repr, DecidableEq

def padding : ℕ := 1

def limit : ℕ := 10

/-- Assigning a `Number` to a `uint`. -/
def uint (x : ℚ) : ℕ := ((if 0 ≤ x then x.floor else x.ceil) % 4294967296).toNat

variable {Item : Type*} (C : ItemClass Item)

namespace State

/-- One round of the loops that build the buttons. -/
def addItem (s : State Item) (i : ℕ) : State Item :=
  let myItem := C.setX s.xPos (C.new (.number (i + 1)))
  { s with
    itemArray := s.itemArray ++ [⟨s.created, myItem⟩]
    xPos := uint (s.xPos + (C.width myItem + padding))
    holder := s.holder ++ [⟨s.created, myItem⟩]
    created := s.created + 1 }

/-- `current` is never assigned, so this does nothing in any run. -/
def updateCurrentItem (s : State Item) : State Item :=
  match s.current with
  | some current => { s with current := some (C.greyOut (some false) current) }
  | none => s

/-- `holder.removeChild(myItem)`; `none` is the error that it throws. -/
def removeChild (holder : List (Ref Item)) (myItem : Ref Item) : Option (List (Ref Item)) :=
  if holder.any (fun child => child.id == myItem.id) then
    some (holder.eraseP fun child => child.id == myItem.id)
  else none

/-- The index is in the middle of the list: not among the first six
entries, nor among the last five. -/
def Middle (totalItem : ℕ) (itemIndex : ℤ) : Prop :=
  itemIndex > 5 ∧ itemIndex < (totalItem : ℤ) - 5

instance (totalItem : ℕ) (itemIndex : ℤ) : Decidable (Middle totalItem itemIndex) :=
  inferInstanceAs (Decidable (_ ∧ _))

/-- Remove all the buttons and build those around the index. -/
def rebuild (s : State Item) : Option (State Item) := do
  let holder ← s.itemArray.foldlM removeChild s.holder
  let min := (s.itemIndex - 4).toNat
  let max := min + 10
  let s := { s with
    holder := holder
    xPos := uint (C.width s.prev + padding)
    itemArray := [] }
  some ((List.range' min (max - min)).foldl (addItem C) s)

/-- Grey out the button that leads out of the list. -/
def greyEnd (s : State Item) : State Item :=
  if s.itemIndex ≥ (s.totalItem : ℤ) - 1 then { s with next := C.greyOut none s.next }
  else if s.itemIndex ≤ 0 then { s with prev := C.greyOut none s.prev }
  else s

def reset (s : State Item) : State Item :=
  { s with prev := C.greyOut (some false) s.prev, next := C.greyOut (some false) s.next }

/-- What happens whenever the index has changed: the buttons are built anew
where the index is in the middle, and an end button is greyed out at an end. -/
def checkIndex (s : State Item) : Option (State Item) := do
  let s := s.reset C
  let s ← if Middle s.totalItem s.itemIndex then s.rebuild C else some s
  some ((s.greyEnd C).updateCurrentItem C)

/-- The setter of `index`, which takes any number. -/
def setIndex (val : ℤ) (s : State Item) : Option (State Item) :=
  { s with itemIndex := val }.checkIndex C

/-- The handler of `ITEM_PICK`, by the `info` of the event's target. The
second `typeof` of the source is that of a comparison, and so always a
non-empty string: every string other than `<` leads to the next entry. -/
def itemPicked (info : Info) (s : State Item) : Option (State Item) :=
  match info with
  | .number n => { s with itemIndex := (n : ℤ) - 1 }.checkIndex C
  | .string label =>
      if label = "<" then { s with itemIndex := s.itemIndex - 1 }.checkIndex C
      else { s with itemIndex := s.itemIndex + 1 }.checkIndex C

end State

open State

/-- The constructor, for a list of `totalItem` entries. The two initialisers
of `prev` and `next` have run before it. -/
def new (totalItem : ℕ) : State Item :=
  let prev := C.new (.string "<")
  let next := C.new (.string ">")
  let s : State Item :=
    { itemArray := [], itemIndex := 0, totalItem := totalItem
      xPos := uint (C.width prev + padding)
      holder := [], prev := prev, next := next, current := none, created := 2 }
  let s := (List.range limit).foldl (addItem C) s
  let s := { s with prev := C.greyOut none s.prev }
  { s with next := C.setX s.xPos s.next }.updateCurrentItem C

/-! ## Events -/

/-- A pick of a button with this `info`: one that is on display and not
greyed out. -/
def pick (s : State Item) (info : Info) : Option (State Item) :=
  if (s.prev :: s.next :: s.holder.map Ref.item).any
      fun item => C.info item = info && !C.grey item then
    s.itemPicked C info
  else none

inductive Event where
  | setIndex (val : ℤ)
  | itemPick (info : Info)
deriving Repr, DecidableEq

/-- One event. A pick needs a button that can be picked; the setter can be
called at any time. -/
def step (s : State Item) : Event → Option (State Item)
  | .setIndex val => s.setIndex C val
  | .itemPick info => pick C s info

/-! ## An implementation of the class -/

/-- An item that only keeps what is said to it. -/
structure Button where
  info : Info
  x : ℕ
  grey : Bool
deriving Repr, DecidableEq

/-- Buttons that are all of one width. -/
def buttons : ItemClass Button where
  new info := { info := info, x := 0, grey := false }
  info := Button.info
  width _ := 20
  setX x item := { item with x := x }
  greyOut grey item := { item with grey := grey.getD true }
  grey := Button.grey

/-- The laws can be met, with buttons that only keep what they are told. -/
theorem buttons_lawful : buttons.Lawful where
  info_new _ := rfl
  grey_new _ := rfl
  info_setX _ _ := rfl
  grey_setX _ _ := rfl
  info_greyOut _ _ := rfl
  grey_greyOut _ := rfl
  grey_greyOut_false _ := rfl

end Paginator

end Resources
