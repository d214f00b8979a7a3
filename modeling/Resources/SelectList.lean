import Mathlib.Data.List.Basic
import Mathlib.Logic.Function.Basic
import Resources.Runs

/-!
# `SelectList`

A list of buttons, some of which are radio buttons and the others check
boxes. What is selected is a matter of the buttons; the list goes by the
last item that was selected, and disables the radio button that is
selected. `Choice` says what this comes to: a radio button is selected
alone, a check box goes on or off and takes away the radio button, and no
check box can be selected before a radio button was (`selects_chosen`).

The order of `listDict` is one that it may have. Buttons are selected and
enabled only here, and a button that is not enabled hears no mouse.
-/

namespace Dictionary

variable {κ α : Type*} [DecidableEq κ] {key k : κ} {value : α} {l : List (κ × α)}

/-- The assignment `dictionary[key] = value`. A key that is there already moves
to the end. -/
def assign (key : κ) (value : α) (l : List (κ × α)) : List (κ × α) :=
  l.filter (·.1 ≠ key) ++ [(key, value)]

theorem lookup_filter : (l.filter (·.1 ≠ key)).lookup k = if k = key then none else l.lookup k := by
  induction l with
  | nil => exact (ite_self none).symm
  | cons p l ih =>
      obtain ⟨a, b⟩ := p
      by_cases ha : a = key
      · rw [List.filter_cons_of_neg (by simpa using ha), ih, List.lookup_cons]
        split
        · rfl
        · next hk =>
            have hka : (k == a) = false := by
              rw [beq_eq_false_iff_ne, ha]
              exact hk
            rw [hka]
      · rw [List.filter_cons_of_pos (by simpa using ha), List.lookup_cons, List.lookup_cons, ih]
        by_cases hka : k = a
        · have hne : k ≠ key := fun hk => ha (hka.symm.trans hk)
          rw [beq_iff_eq.mpr hka]
          exact (if_neg hne).symm
        · rw [beq_eq_false_iff_ne.mpr hka]

theorem lookup_assign :
    (assign key value l).lookup k = if k = key then some value else l.lookup k := by
  rw [assign, List.lookup_append, lookup_filter, List.lookup_cons]
  by_cases hk : k = key
  · rw [if_pos hk, if_pos hk, beq_iff_eq.mpr hk]
    rfl
  · rw [if_neg hk, if_neg hk, beq_eq_false_iff_ne.mpr hk, List.lookup_nil, Option.or_none]

end Dictionary

namespace Resources

namespace SelectList

variable {ι : Type*} [DecidableEq ι]

/-- What `listDict` has for a button, under the names of the parameters of
`addItem`. -/
structure Entry where
  id : String
  radio : Bool
  group : String
deriving Repr, DecidableEq

/-- The state of an `IButton`. -/
@[ext] structure Button where
  selected : Bool
  isEnabled : Bool
deriving Repr, DecidableEq

inductive EventType where
  | SELECTED
  | ROLLOVER
  | ROLLOUT
deriving Repr, DecidableEq

structure SelectListEvent (ι : Type*) where
  type : EventType
  id : String
  group : String
  item : ι
deriving Repr, DecidableEq

def entry (listDict : List (ι × Entry)) (item : ι) : Option Entry := listDict.lookup item

def isRadio (listDict : List (ι × Entry)) (item : ι) : Bool :=
  (entry listDict item).any fun entry => entry.radio

def getItemById (listDict : List (ι × Entry)) (id : String) : Option ι :=
  (listDict.find? fun key => key.2.id = id).map (·.1)

inductive Call (ι : Type*) where
  | addItem (item : ι) (id : String) (radio : Bool) (group : String)
  | lock
  | unlock
  | selectItem (item : ι) (broadcast : Bool)
  | selectItemById (val : String) (broadcast : Bool)
  | deselectItem (item : ι)
  | deselectAll
  /-- The mouse, on a button. -/
  | click (item : ι)
  | rollOver (item : ι)
  | rollOut (item : ι)
deriving Repr, DecidableEq

/-! ## The list -/

/-- The fields of the list, together with the state of every button there is
and the events so far. `lastItem` is the last one that was selected, whether or
not it still is. -/
structure State (ι : Type*) where
  listDict : List (ι × Entry)
  button : ι → Button
  lastItem : Option ι
  radioAware : Bool
  locked : Bool
  out : List (SelectListEvent ι)

def new : State ι where
  listDict := []
  button _ := ⟨false, true⟩
  lastItem := none
  radioAware := false
  locked := false
  out := []

namespace State

def setButton (item : ι) (button : Button) (s : State ι) : State ι :=
  { s with button := Function.update s.button item button }

def select (item : ι) (s : State ι) : State ι :=
  s.setButton item { s.button item with selected := true }

def deselect (item : ι) (s : State ι) : State ι :=
  s.setButton item { s.button item with selected := false }

def isEnabled (item : ι) (val : Bool) (s : State ι) : State ι :=
  s.setButton item { s.button item with isEnabled := val }

def addItem (item : ι) (id : String) (radio : Bool) (group : String) (s : State ι) : State ι :=
  let s := { s with listDict := Dictionary.assign item ⟨id, radio, group⟩ s.listDict }
  if radio then { s with radioAware := true } else s

def deselectItem (item : ι) (s : State ι) : State ι := (s.deselect item).isEnabled item true

def deselectAll (s : State ι) : State ι :=
  { s with button := fun key =>
      if (entry s.listDict key).isSome then ⟨false, true⟩ else s.button key }

def dispatchEvent (type : EventType) (item : ι) (entry : Entry) (s : State ι) : State ι :=
  { s with out := s.out ++ [⟨type, entry.id, entry.group, item⟩] }

/-- Previous selections are reset: all of them before a radio button, and
before a check box only a radio button that was the last one. There
`listDict[lastItem]` is an error if nothing was selected before. -/
def reset (radio : Bool) (s : State ι) : Option (State ι) :=
  if radio then some s.deselectAll
  else
    match s.lastItem with
    | none => none
    | some lastItem =>
        (entry s.listDict lastItem).map fun last =>
          if last.radio then s.deselect lastItem else s

/-- The last item is enabled again, since it may be the radio button that was
disabled. -/
def enableLast (s : State ι) : State ι :=
  match s.lastItem with
  | some lastItem => s.isEnabled lastItem true
  | none => s

/-- The button goes on or off. It goes off only in a list that has radio
buttons, and a radio button that goes on is disabled. -/
def turn (item : ι) (radio : Bool) (s : State ι) : State ι :=
  if (s.button item).selected then
    if s.radioAware then s.deselect item else s
  else
    let s := s.select item
    if radio then s.isEnabled item false else s

/-- The body of `selectItem`. A list that is locked ignores the call, and a
button that is not in the list is an error. -/
def selectItem (item : ι) (broadcast : Bool) (s : State ι) : Option (State ι) :=
  if s.locked then some s
  else
    match entry s.listDict item with
    | none => none
    | some found =>
        (s.reset found.radio).map fun s =>
          let s := s.enableLast.turn item found.radio
          let s := { s with lastItem := some item }
          if broadcast then s.dispatchEvent .SELECTED item found else s

def selectItemById (val : String) (broadcast : Bool) (s : State ι) : Option (State ι) :=
  match getItemById s.listDict val with
  | some but => s.selectItem but broadcast
  | none => some s

/-- The listeners of a button that is in the list, and is enabled. -/
def hear (item : ι) (handler : Entry → State ι → Option (State ι)) (s : State ι) :
    Option (State ι) :=
  match entry s.listDict item with
  | some found => if (s.button item).isEnabled then handler found s else some s
  | none => some s

def handleMouseUp (item : ι) (s : State ι) : Option (State ι) :=
  if s.locked then some s else s.selectItem item true

def handleMouse (type : EventType) (item : ι) (found : Entry) (s : State ι) :
    Option (State ι) :=
  if s.locked then some s else some (s.dispatchEvent type item found)

end State

open State in
/-- One call, where `none` is an error of the source. What a call has changed
before its error does not matter here, since the run ends with it. -/
def step (s : State ι) : Call ι → Option (State ι)
  | .addItem item id radio group => some (s.addItem item id radio group)
  | .lock => some { s with locked := true }
  | .unlock => some { s with locked := false }
  | .selectItem item broadcast => s.selectItem item broadcast
  | .selectItemById val broadcast => s.selectItemById val broadcast
  | .deselectItem item => some (s.deselectItem item)
  | .deselectAll => some s.deselectAll
  | .click item => s.hear item fun _ => handleMouseUp item
  | .rollOver item => s.hear item (handleMouse .ROLLOVER item)
  | .rollOut item => s.hear item (handleMouse .ROLLOUT item)

/-! ## What is chosen -/

/-- What a list of buttons is for: which of them are chosen. It has neither the
buttons, nor the last item, nor the flag that the list goes by. -/
structure Choice (ι : Type*) where
  listDict : List (ι × Entry)
  chosen : ι → Bool
  /-- Something was selected before. -/
  begun : Bool
  locked : Bool
  out : List (SelectListEvent ι)

namespace Choice

def new : Choice ι where
  listDict := []
  chosen _ := false
  begun := false
  locked := false
  out := []

/-- A radio button that is chosen is the only one. A check box goes on or off,
leaves the other check boxes alone, and takes the place of a radio button. -/
def choose (item : ι) (radio : Bool) (c : Choice ι) : ι → Bool := fun i =>
  if i = item then radio || !c.chosen item
  else !radio && c.chosen i && !isRadio c.listDict i

def dispatchEvent (type : EventType) (item : ι) (entry : Entry) (c : Choice ι) : Choice ι :=
  { c with out := c.out ++ [⟨type, entry.id, entry.group, item⟩] }

/-- A choice is possible for a radio button, and for a check box once something
was chosen before. -/
def selectItem (item : ι) (broadcast : Bool) (c : Choice ι) : Option (Choice ι) :=
  if c.locked then some c
  else
    match entry c.listDict item with
    | none => none
    | some found =>
        if found.radio || c.begun then
          let c := { c with chosen := c.choose item found.radio, begun := true }
          some (if broadcast then c.dispatchEvent .SELECTED item found else c)
        else none

/-- Every button is enabled, except for a radio button that is chosen. -/
def isEnabled (item : ι) (c : Choice ι) : Bool := !(isRadio c.listDict item && c.chosen item)

def hear (item : ι) (handler : Entry → Choice ι → Option (Choice ι)) (c : Choice ι) :
    Option (Choice ι) :=
  match entry c.listDict item with
  | some found => if c.isEnabled item then handler found c else some c
  | none => some c

def handleMouse (type : EventType) (item : ι) (found : Entry) (c : Choice ι) :
    Option (Choice ι) :=
  if c.locked then some c else some (c.dispatchEvent type item found)

def step (c : Choice ι) : Call ι → Option (Choice ι)
  | .addItem item id radio group =>
      some { c with listDict := Dictionary.assign item ⟨id, radio, group⟩ c.listDict }
  | .lock => some { c with locked := true }
  | .unlock => some { c with locked := false }
  | .selectItem item broadcast => c.selectItem item broadcast
  | .selectItemById val broadcast =>
      match getItemById c.listDict val with
      | some but => c.selectItem but broadcast
      | none => some c
  | .deselectItem item => some { c with chosen := fun i => c.chosen i && i ≠ item }
  | .deselectAll => some { c with chosen := fun _ => false }
  | .click item => c.hear item fun _ c => c.selectItem item true
  | .rollOver item => c.hear item (handleMouse .ROLLOVER item)
  | .rollOut item => c.hear item (handleMouse .ROLLOUT item)

end Choice

/-- What a list has chosen, as the buttons show it. -/
def State.choice (s : State ι) : Choice ι where
  listDict := s.listDict
  chosen i := (s.button i).selected
  begun := s.lastItem.isSome
  locked := s.locked
  out := s.out

/-! ## The invariant -/

/-- A radio button that is selected is the last item, and nothing else is
selected beside it; it is disabled, and no other button is. The other fields
say that the list knows the last item, and has noticed its radio buttons. -/
structure Inv (s : State ι) : Prop where
  enabled : ∀ i, (s.button i).isEnabled = !(isRadio s.listDict i && (s.button i).selected)
  alone : ∀ i, isRadio s.listDict i = true → (s.button i).selected = true →
    s.lastItem = some i ∧ ∀ j, (s.button j).selected = true → j = i
  listed : ∀ i, s.lastItem = some i → (entry s.listDict i).isSome
  aware : s.lastItem.isSome → s.radioAware = true
  radios : ∀ i, isRadio s.listDict i = true → s.radioAware = true
  unlisted : ∀ i, entry s.listDict i = none → (s.button i).selected = false

variable {s t : State ι} {i item : ι} {radio broadcast : Bool} {found : Entry}

theorem Inv.of_unselected (h : Inv s) (hi : (s.button i).selected = false) :
    s.button i = ⟨false, true⟩ := by
  have henabled := h.enabled i
  rw [hi, Bool.and_false, Bool.not_false] at henabled
  exact Button.ext hi henabled

theorem isRadio_of_entry (hfound : entry s.listDict item = some found) :
    isRadio s.listDict item = found.radio := by
  rw [isRadio, hfound]
  rfl

/-! ## A selection -/

theorem enableLast_eq (s : State ι) : s.enableLast = { s with button := s.enableLast.button } := by
  unfold State.enableLast
  split <;> rfl

theorem turn_eq (item : ι) (radio : Bool) (s : State ι) :
    s.turn item radio = { s with button := (s.turn item radio).button } := by
  unfold State.turn
  simp only
  split
  · split <;> rfl
  · split <;> rfl

theorem enableLast_button (s : State ι) (i : ι) : s.enableLast.button i =
    if s.lastItem = some i then { s.button i with isEnabled := true } else s.button i := by
  unfold State.enableLast
  split
  · next last hlast =>
      unfold State.isEnabled State.setButton
      by_cases hi : i = last
      · rw [hi, if_pos hlast]
        exact Function.update_self _ _ _
      · rw [hlast, if_neg fun heq => hi (Option.some.inj heq).symm]
        exact Function.update_of_ne hi _ _
  · next hnone =>
      rw [hnone, if_neg (Option.some_ne_none i).symm]

theorem deselectAll_button (h : Inv s) (i : ι) : s.deselectAll.button i = ⟨false, true⟩ := by
  unfold State.deselectAll
  simp only
  split
  · rfl
  · next hout => exact h.of_unselected (h.unlisted i (Option.not_isSome_iff_eq_none.mp hout))

/-- Before a radio button nothing stays selected, and everything is enabled. -/
theorem reset_radio (h : Inv s) (i : ι) : s.deselectAll.enableLast.button i = ⟨false, true⟩ := by
  rw [enableLast_button, deselectAll_button h]
  split <;> rfl

/-- Before a check box the radio button goes, if there is one. -/
theorem reset_check (h : Inv s) {last : ι} (hlast : s.lastItem = some last)
    (hfound : entry s.listDict last = some found) (i : ι) :
    (if found.radio then s.deselect last else s).enableLast.button i =
      ⟨(s.button i).selected && !isRadio s.listDict i, true⟩ := by
  have hsame : (if found.radio then s.deselect last else s).lastItem = s.lastItem := by
    split <;> rfl
  have hradio := isRadio_of_entry hfound
  rw [enableLast_button, hsame, hlast]
  by_cases hi : last = i
  · rw [if_pos (congrArg some hi), ← hi, hradio]
    refine Button.ext ?_ rfl
    cases found.radio with
    | true =>
        have hself : (s.deselect last).button last = { s.button last with selected := false } :=
          Function.update_self _ _ _
        rw [Bool.not_true, Bool.and_false, if_pos rfl, hself]
    | false =>
        rw [Bool.not_false, Bool.and_true, if_neg Bool.false_ne_true]
  · have hother : (if found.radio then s.deselect last else s).button i = s.button i := by
      split
      · exact Function.update_of_ne (Ne.symm hi) _ _
      · rfl
    have halone : isRadio s.listDict i = true → (s.button i).selected = false := by
      intro hr
      rw [Bool.eq_false_iff]
      intro hselected
      have hi' := (h.alone i hr hselected).1
      exact hi (Option.some.inj (hlast.symm.trans hi'))
    rw [if_neg fun heq => hi (Option.some.inj heq), hother]
    cases hr : isRadio s.listDict i with
    | false =>
        rw [Bool.not_false, Bool.and_true]
        refine Button.ext rfl ?_
        rw [h.enabled i, hr]
        rfl
    | true =>
        rw [halone hr]
        exact h.of_unselected (halone hr)

/-- The button is turned on or off, and no other button changes. The list is
aware of its radio buttons here, so that a check box can go off. -/
theorem turn_button (haware : s.radioAware = true) (hitem : (s.button item).isEnabled = true)
    (hon : radio = true → (s.button item).selected = false) (i : ι) :
    (s.turn item radio).button i =
      if i = item then ⟨!(s.button item).selected, !radio⟩ else s.button i := by
  unfold State.turn
  simp only
  rw [if_pos haware]
  cases hselected : (s.button item).selected with
  | true =>
      have hcheck : radio = false := by
        rw [Bool.eq_false_iff]
        intro hradio
        exact Bool.false_ne_true ((hon hradio).symm.trans hselected)
      rw [if_pos rfl, hcheck]
      by_cases hi : i = item
      · rw [if_pos hi, hi]
        refine (Function.update_self _ _ _).trans (Button.ext rfl hitem)
      · rw [if_neg hi]
        exact Function.update_of_ne hi _ _
  | false =>
      rw [if_neg Bool.false_ne_true]
      have hselect : ∀ i, (s.select item).button i =
          if i = item then ⟨true, true⟩ else s.button i := by
        intro i
        by_cases hi : i = item
        · rw [if_pos hi, hi]
          exact (Function.update_self _ _ _).trans (Button.ext rfl hitem)
        · rw [if_neg hi]
          exact Function.update_of_ne hi _ _
      cases radio with
      | false =>
          rw [if_neg Bool.false_ne_true]
          exact hselect i
      | true =>
          rw [if_pos rfl]
          by_cases hi : i = item
          · rw [if_pos hi, hi]
            refine (Function.update_self _ _ _).trans (Button.ext ?_ rfl)
            show ((s.select item).button item).selected = true
            rw [hselect item, if_pos rfl]
          · rw [if_neg hi]
            exact (Function.update_of_ne hi _ _).trans ((hselect i).trans (if_neg hi))

/-- Only buttons are changed before the item is the last one. -/
theorem turn_frame (ht : t = { s with button := t.button }) (item : ι) (radio : Bool) :
    t.enableLast.turn item radio = { s with button := (t.enableLast.turn item radio).button } := by
  have hkeep : ∀ button : ι → Button, { t with button := button } = { s with button := button } := by
    intro button
    rw [ht]
  have hlast : t.enableLast = { s with button := t.enableLast.button } :=
    (enableLast_eq t).trans (hkeep _)
  refine (turn_eq item radio t.enableLast).trans ?_
  generalize (t.enableLast.turn item radio).button = button
  rw [hlast]

/-- What `selectItem` comes to, in one equation: it succeeds for a radio
button, and otherwise if there is a last item; the buttons then are as
`Choice.choose` has them, and the radio button among them is disabled. -/
theorem selectItem_eq (h : Inv s) (hlocked : s.locked = false)
    (hfound : entry s.listDict item = some found) : s.selectItem item broadcast =
      if found.radio || s.lastItem.isSome then
        let t := { s with
          button := fun i => ⟨s.choice.choose item found.radio i,
            !(isRadio s.listDict i && s.choice.choose item found.radio i)⟩
          lastItem := some item }
        some (if broadcast then t.dispatchEvent .SELECTED item found else t)
      else none := by
  have hitem := isRadio_of_entry hfound
  have hturn : ∀ t : State ι, t.radioAware = true → (∀ i, t.button i =
      ⟨!found.radio && (s.button i).selected && !isRadio s.listDict i, true⟩) →
      (t.turn item found.radio).button = fun i => ⟨s.choice.choose item found.radio i,
        !(isRadio s.listDict i && s.choice.choose item found.radio i)⟩ := by
    intro t haware hbutton
    funext i
    rw [turn_button haware (by rw [hbutton]) ?_ i]
    · unfold Choice.choose
      by_cases hi : i = item
      · rw [if_pos hi, if_pos hi, hbutton, hi, hitem]
        show (⟨_, _⟩ : Button) = ⟨found.radio || !(s.button item).selected,
          !(found.radio && (found.radio || !(s.button item).selected))⟩
        cases found.radio <;> cases (s.button item).selected <;> rfl
      · rw [if_neg hi, if_neg hi, hbutton]
        show (⟨_, _⟩ : Button) = ⟨!found.radio && (s.button i).selected && !isRadio s.listDict i,
          !(isRadio s.listDict i &&
            (!found.radio && (s.button i).selected && !isRadio s.listDict i))⟩
        cases isRadio s.listDict i <;> simp
    · intro hradio
      rw [hbutton, hradio]
      rfl
  unfold State.selectItem
  rw [if_neg (hlocked ▸ Bool.false_ne_true), hfound]
  have hsame : ∀ t : State ι, t = { s with button := t.button } → s.radioAware = true →
      (∀ i, t.enableLast.button i =
        ⟨!found.radio && (s.button i).selected && !isRadio s.listDict i, true⟩) →
      t.enableLast.turn item found.radio = { s with
        button := fun i => ⟨s.choice.choose item found.radio i,
          !(isRadio s.listDict i && s.choice.choose item found.radio i)⟩ } := by
    intro t ht haware hbutton
    rw [turn_frame ht, hturn _ ?_ hbutton]
    rw [enableLast_eq, ht]
    exact haware
  simp only
  cases hradio : found.radio with
  | true =>
      rw [hradio] at hsame hitem
      have haware := h.radios item hitem
      have hall := hsame s.deselectAll rfl haware (reset_radio h)
      rw [State.reset, if_pos rfl, Option.map_some, hall]
      rfl
  | false =>
      rw [hradio] at hsame
      unfold State.reset
      rw [if_neg Bool.false_ne_true]
      cases hlast : s.lastItem with
      | none => rfl
      | some last =>
          obtain ⟨before, hbefore⟩ := Option.isSome_iff_exists.mp (h.listed last hlast)
          have haware := h.aware (hlast ▸ rfl)
          have hall := hsame (if before.radio then s.deselect last else s) ?_ haware
            (reset_check h hlast hbefore)
          · simp only
            rw [hbefore, Option.map_some, Option.map_some, hall]
            rfl
          · split <;> rfl

/-! ## Every call -/

theorem Inv.of_eq (h : Inv s) (hdict : t.listDict = s.listDict) (hbutton : t.button = s.button)
    (hlast : t.lastItem = s.lastItem) (haware : t.radioAware = s.radioAware) : Inv t := by
  refine ⟨?_, ?_, ?_, ?_, ?_, ?_⟩
  · rw [hdict, hbutton]
    exact h.enabled
  · rw [hdict, hbutton, hlast]
    exact h.alone
  · rw [hdict, hlast]
    exact h.listed
  · rw [hlast, haware]
    exact h.aware
  · rw [hdict, haware]
    exact h.radios
  · rw [hdict, hbutton]
    exact h.unlisted

/-- A selection does to the buttons what it does to the choice, and is an error
where that has none. -/
theorem choice_selectItem (h : Inv s) :
    (s.selectItem item broadcast).map State.choice = s.choice.selectItem item broadcast := by
  cases hlocked : s.locked with
  | true =>
      have hchoice : s.choice.selectItem item broadcast = some s.choice := if_pos hlocked
      rw [State.selectItem, if_pos hlocked, Option.map_some, hchoice]
  | false =>
      unfold Choice.selectItem
      have hopen : ¬s.choice.locked = true := fun hl => Bool.false_ne_true (hlocked.symm.trans hl)
      rw [if_neg hopen]
      cases hfound : entry s.listDict item with
      | none =>
          have hchoice : entry s.choice.listDict item = none := hfound
          rw [State.selectItem, if_neg (hlocked ▸ Bool.false_ne_true), hfound, hchoice]
          rfl
      | some found =>
          have hchoice : entry s.choice.listDict item = some found := hfound
          rw [selectItem_eq h hlocked hfound, hchoice]
          show _ = if found.radio || s.lastItem.isSome then _ else _
          split
          · rw [Option.map_some]
            split <;> rfl
          · rfl

theorem inv_dispatchEvent {type : EventType} (h : Inv s) :
    Inv (s.dispatchEvent type item found) := h.of_eq rfl rfl rfl rfl

/-- After a selection only the item itself can be a radio button that is
chosen. -/
theorem inv_chosen (h : Inv s) (hfound : entry s.listDict item = some found)
    (hcan : (found.radio || s.lastItem.isSome) = true) :
    Inv { s with
      button := fun i => ⟨s.choice.choose item found.radio i,
        !(isRadio s.listDict i && s.choice.choose item found.radio i)⟩
      lastItem := some item } := by
  have hradio := isRadio_of_entry hfound
  have hother : ∀ i, i ≠ item → s.choice.choose item found.radio i =
      (!found.radio && (s.button i).selected && !isRadio s.listDict i) := fun i hi => if_neg hi
  refine ⟨fun i => rfl, ?_, ?_, ?_, h.radios, ?_⟩
  · intro i hi hselected
    have hitem : i = item := by
      by_contra hne
      have hnot := hother i hne
      rw [hi, Bool.not_true, Bool.and_false] at hnot
      exact Bool.false_ne_true (hnot.symm.trans hselected)
    refine ⟨congrArg some hitem.symm, ?_⟩
    intro j hj
    by_contra hne
    have hon : found.radio = true := by
      rw [← hradio, ← hitem]
      exact hi
    have hnot : s.choice.choose item found.radio j = false := by
      rw [hother j fun hji => hne (hji.trans hitem.symm), hon]
      rfl
    exact Bool.false_ne_true (hnot.symm.trans hj)
  · intro i hi
    obtain rfl := Option.some.inj hi
    exact Option.isSome_iff_exists.mpr ⟨found, hfound⟩
  · intro _
    rcases Bool.or_eq_true_iff.mp hcan with hr | hlast
    · exact h.radios item (hradio.trans hr)
    · exact h.aware hlast
  · intro i hi
    have hne : i ≠ item := by
      rintro rfl
      rw [hfound] at hi
      cases hi
    refine (hother i hne).trans ?_
    rw [h.unlisted i hi, Bool.and_false, Bool.false_and]

theorem inv_selectItem (h : Inv s) (hstep : s.selectItem item broadcast = some t) : Inv t := by
  cases hlocked : s.locked with
  | true =>
      rw [State.selectItem, if_pos hlocked] at hstep
      exact Option.some.inj hstep ▸ h
  | false =>
      cases hfound : entry s.listDict item with
      | none =>
          rw [State.selectItem, if_neg (hlocked ▸ Bool.false_ne_true), hfound] at hstep
          cases hstep
      | some found =>
          rw [selectItem_eq h hlocked hfound] at hstep
          split at hstep
          · next hcan =>
              have hchosen := inv_chosen h hfound hcan
              obtain rfl := Option.some.inj hstep
              split
              · exact inv_dispatchEvent hchosen
              · exact hchosen
          · cases hstep

theorem addItem_eq (item : ι) (id : String) (radio : Bool) (group : String) (s : State ι) :
    s.addItem item id radio group = { s with
      listDict := Dictionary.assign item ⟨id, radio, group⟩ s.listDict
      radioAware := radio || s.radioAware } := by
  unfold State.addItem
  cases radio <;> rfl

theorem inv_addItem {id group : String} (h : Inv s) (hnew : entry s.listDict item = none) :
    Inv (s.addItem item id radio group) := by
  have hentry : ∀ i, entry (Dictionary.assign item ⟨id, radio, group⟩ s.listDict) i =
      if i = item then some ⟨id, radio, group⟩ else entry s.listDict i :=
    fun i => Dictionary.lookup_assign
  have hother : ∀ i, i ≠ item →
      isRadio (Dictionary.assign item ⟨id, radio, group⟩ s.listDict) i = isRadio s.listDict i := by
    intro i hi
    rw [isRadio, hentry, if_neg hi]
    rfl
  have hself : isRadio (Dictionary.assign item ⟨id, radio, group⟩ s.listDict) item = radio := by
    rw [isRadio, hentry, if_pos rfl]
    rfl
  have hunselected := h.unlisted item hnew
  rw [addItem_eq]
  refine ⟨?_, ?_, ?_, ?_, ?_, ?_⟩
  · intro i
    by_cases hi : i = item
    · rw [hi]
      show (s.button item).isEnabled = !(_ && (s.button item).selected)
      rw [h.of_unselected hunselected, Bool.and_false]
      rfl
    · show _ = !(isRadio (Dictionary.assign item ⟨id, radio, group⟩ s.listDict) i && _)
      rw [hother i hi]
      exact h.enabled i
  · intro i hi hselected
    have hne : i ≠ item := by
      rintro rfl
      exact Bool.false_ne_true (hunselected.symm.trans hselected)
    exact h.alone i ((hother i hne).symm.trans hi) hselected
  · intro i hi
    show (entry (Dictionary.assign item ⟨id, radio, group⟩ s.listDict) i).isSome
    rw [hentry]
    split
    · rfl
    · exact h.listed i hi
  · intro hlast
    exact Bool.or_eq_true_iff.mpr (Or.inr (h.aware hlast))
  · intro i hi
    by_cases hne : i = item
    · rw [hne] at hi
      exact Bool.or_eq_true_iff.mpr (Or.inl (hself.symm.trans hi))
    · exact Bool.or_eq_true_iff.mpr (Or.inr (h.radios i ((hother i hne).symm.trans hi)))
  · intro i hi
    refine h.unlisted i ?_
    have hnone := (hentry i).symm.trans hi
    split at hnone
    · cases hnone
    · exact hnone

theorem deselectItem_button (item : ι) (s : State ι) (i : ι) : (s.deselectItem item).button i =
    if i = item then ⟨false, true⟩ else s.button i := by
  unfold State.deselectItem State.isEnabled State.deselect State.setButton
  by_cases hi : i = item
  · rw [if_pos hi, hi]
    simp
  · rw [if_neg hi]
    simp [hi]

/-- What is not selected any more is enabled. -/
theorem inv_deselect (h : Inv s) (hdict : t.listDict = s.listDict)
    (hlast : t.lastItem = s.lastItem) (haware : t.radioAware = s.radioAware)
    (hbutton : ∀ i, t.button i = ⟨false, true⟩ ∨ t.button i = s.button i) : Inv t := by
  have hselected : ∀ i, (t.button i).selected = true → t.button i = s.button i := by
    intro i hi
    rcases hbutton i with hoff | hsame
    · rw [hoff] at hi
      cases hi
    · exact hsame
  refine ⟨?_, ?_, ?_, ?_, ?_, ?_⟩
  · intro i
    rcases hbutton i with hoff | hsame
    · rw [hoff, Bool.and_false]
      rfl
    · rw [hsame, hdict]
      exact h.enabled i
  · intro i hi hon
    have hold := h.alone i (hdict ▸ hi) (hselected i hon ▸ hon)
    refine ⟨hlast.trans hold.1, fun j hj => hold.2 j (hselected j hj ▸ hj)⟩
  · rw [hdict, hlast]
    exact h.listed
  · rw [hlast, haware]
    exact h.aware
  · rw [hdict, haware]
    exact h.radios
  · intro i hi
    rcases hbutton i with hoff | hsame
    · rw [hoff]
    · rw [hsame]
      exact h.unlisted i (hdict ▸ hi)

/-! ## Runs -/

/-- The call adds no button that is in the list already. -/
def AddsNew (s : State ι) : Call ι → Prop
  | .addItem item _ _ _ => entry s.listDict item = none
  | _ => True

theorem hear_isEnabled (h : Inv s) : (s.button item).isEnabled = s.choice.isEnabled item :=
  h.enabled item

/-- A handler that does the same in both hears the same. -/
theorem choice_hear (h : Inv s) {handler : Entry → State ι → Option (State ι)}
    {handler' : Entry → Choice ι → Option (Choice ι)}
    (hhandler : ∀ found, (handler found s).map State.choice = handler' found s.choice) :
    (s.hear item handler).map State.choice = s.choice.hear item handler' := by
  unfold State.hear Choice.hear
  rw [hear_isEnabled h]
  have hsame : entry s.choice.listDict item = entry s.listDict item := rfl
  rw [hsame]
  cases entry s.listDict item with
  | none => rfl
  | some found =>
      simp only
      split
      · exact hhandler found
      · rfl

theorem choice_handleMouse (h : Inv s) (type : EventType) (item : ι) :
    (s.hear item (State.handleMouse type item)).map State.choice =
      s.choice.hear item (Choice.handleMouse type item) := by
  refine choice_hear h fun found => ?_
  unfold State.handleMouse Choice.handleMouse
  show _ = if s.locked then _ else _
  split <;> rfl

theorem choice_handleMouseUp (h : Inv s) :
    (s.handleMouseUp item).map State.choice = s.choice.selectItem item true := by
  unfold State.handleMouseUp
  split
  · next hlocked => exact (if_pos hlocked).symm
  · exact choice_selectItem h

/-- Every call does to the list what it does to the choice, errors included. -/
theorem choice_step (c : Call ι) (h : Inv s) :
    (step s c).map State.choice = s.choice.step c := by
  cases c with
  | addItem item id radio group =>
      show some (s.addItem item id radio group).choice = _
      rw [addItem_eq]
      rfl
  | selectItem item broadcast => exact choice_selectItem h
  | selectItemById val broadcast =>
      show (s.selectItemById val broadcast).map State.choice = _
      unfold State.selectItemById
      show _ = match getItemById s.listDict val with
        | some but => s.choice.selectItem but broadcast
        | none => some s.choice
      cases getItemById s.listDict val with
      | none => rfl
      | some but => exact choice_selectItem h
  | deselectItem item =>
      have hchosen : (fun i => ((s.deselectItem item).button i).selected) =
          fun i => s.choice.chosen i && i ≠ item := by
        funext i
        rw [deselectItem_button]
        by_cases hi : i = item
        · rw [if_pos hi, decide_eq_false (not_not.mpr hi), Bool.and_false]
        · rw [if_neg hi, decide_eq_true hi, Bool.and_true]
          rfl
      exact congrArg (fun chosen => some { s.choice with chosen := chosen }) hchosen
  | deselectAll =>
      have hchosen : (fun i => (s.deselectAll.button i).selected) = fun _ => false := by
        funext i
        rw [deselectAll_button h]
      exact congrArg (fun chosen => some { s.choice with chosen := chosen }) hchosen
  | click item => exact choice_hear h fun _ => choice_handleMouseUp h
  | rollOver item => exact choice_handleMouse h _ item
  | rollOut item => exact choice_handleMouse h _ item
  | _ => rfl

theorem inv_hear (h : Inv s) {handler : Entry → State ι → Option (State ι)}
    (hhandler : ∀ found, handler found s = some t → Inv t) (hstep : s.hear item handler = some t) :
    Inv t := by
  unfold State.hear at hstep
  split at hstep
  · next found _ =>
      split at hstep
      · exact hhandler found hstep
      · exact Option.some.inj hstep ▸ h
  · exact Option.some.inj hstep ▸ h

theorem inv_handleMouse {type : EventType} (h : Inv s)
    (hstep : s.handleMouse type item found = some t) : Inv t := by
  unfold State.handleMouse at hstep
  split at hstep
  · exact Option.some.inj hstep ▸ h
  · exact Option.some.inj hstep ▸ inv_dispatchEvent h

/-- Every call keeps the invariant, if it does not add a button again. -/
theorem inv_step {c : Call ι} (h : Inv s) (hnew : AddsNew s c) (hstep : step s c = some t) :
    Inv t := by
  cases c with
  | addItem item id radio group =>
      obtain rfl := Option.some.inj hstep
      exact inv_addItem h hnew
  | selectItem item broadcast => exact inv_selectItem h hstep
  | selectItemById val broadcast =>
      have hstep : s.selectItemById val broadcast = some t := hstep
      unfold State.selectItemById at hstep
      split at hstep
      · exact inv_selectItem h hstep
      · exact Option.some.inj hstep ▸ h
  | deselectItem item =>
      obtain rfl := Option.some.inj hstep
      refine inv_deselect h rfl rfl rfl fun i => ?_
      rw [deselectItem_button]
      split
      · exact Or.inl rfl
      · exact Or.inr rfl
  | deselectAll =>
      obtain rfl := Option.some.inj hstep
      exact inv_deselect h rfl rfl rfl fun i => Or.inl (deselectAll_button h i)
  | click item =>
      refine inv_hear h (fun found hup => ?_) hstep
      unfold State.handleMouseUp at hup
      split at hup
      · exact Option.some.inj hup ▸ h
      · exact inv_selectItem h hup
  | rollOver item => exact inv_hear h (fun _ => inv_handleMouse h) hstep
  | rollOut item => exact inv_hear h (fun _ => inv_handleMouse h) hstep
  | _ =>
      obtain rfl := Option.some.inj hstep
      exact h.of_eq rfl rfl rfl rfl

theorem inv_new : Inv (new : State ι) :=
  ⟨fun _ => rfl, fun _ hi => absurd hi Bool.false_ne_true, nofun, nofun,
    fun _ hi => absurd hi Bool.false_ne_true, fun _ _ => rfl⟩

/-- **What is selected is what was chosen**, whatever is called, as long as
no button is added again: the same calls are errors, the same events are
dispatched, and a radio button that is selected is alone, and disabled. -/
theorem selects_chosen {calls : List (Call ι)}
    (hnew : Runs.EachStep step (fun s c _ => AddsNew s c) new calls) :
    (Runs.run step (new : State ι) calls).map State.choice =
        Runs.run Choice.step Choice.new calls ∧
      ∀ s, Runs.run step (new : State ι) calls = some s → ∀ i,
        ((s.button i).isEnabled = false ↔
          isRadio s.listDict i = true ∧ (s.button i).selected = true) ∧
        (isRadio s.listDict i = true → (s.button i).selected = true →
          ∀ j, (s.button j).selected = true → j = i) := by
  constructor
  · refine Runs.run_map Inv State.choice ?_ ?_ inv_new hnew
    · exact fun t c u ht hc hstep => inv_step ht hc hstep
    · exact fun t c ht _ => choice_step c ht
  · intro s hrun i
    have h : Inv s := by
      refine Runs.run_each (fun _ s => Inv s) inv_new ?_ hrun hnew
      exact fun _ t c u ht hstep hc => inv_step ht hc hstep
    refine ⟨?_, fun hi hselected => (h.alone i hi hselected).2⟩
    rw [h.enabled i, Bool.not_eq_false', Bool.and_eq_true]

/-- A radio button, two check boxes, the radio button again by the mouse,
and a click that it does not hear. -/
theorem selects_chosen_three : ∃ s, Runs.run step (new : State ℕ)
      [.addItem 0 "all" true "g", .addItem 1 "a" false "g", .addItem 2 "b" false "g",
        .click 0, .click 1, .click 2, .click 0, .click 0] = some s ∧
    Runs.run Choice.step Choice.new
      [.addItem 0 "all" true "g", .addItem 1 "a" false "g", .addItem 2 "b" false "g",
        .click 0, .click 1, .click 2, .click 0, .click 0] = some s.choice ∧
    (s.button 0).isEnabled = false ∧ (s.button 1).selected = false := by
  have hnew : Runs.EachStep step (fun s c _ => AddsNew s c) (new : State ℕ)
      [.addItem 0 "all" true "g", .addItem 1 "a" false "g", .addItem 2 "b" false "g",
        .click 0, .click 1, .click 2, .click 0, .click 0] := by
    rw [Runs.eachStep_cons rfl, Runs.eachStep_cons rfl, Runs.eachStep_cons rfl,
      Runs.eachStep_cons rfl, Runs.eachStep_cons rfl, Runs.eachStep_cons rfl,
      Runs.eachStep_cons rfl, Runs.eachStep_cons rfl]
    exact ⟨rfl, rfl, rfl, trivial, trivial, trivial, trivial, trivial, Runs.eachStep_nil⟩
  exact ⟨_, rfl, (selects_chosen hnew).1.symm, (((selects_chosen hnew).2 _ rfl) 0).1.mpr
    ⟨rfl, rfl⟩, rfl⟩

end SelectList

end Resources
