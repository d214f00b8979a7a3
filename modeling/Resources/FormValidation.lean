import Resources.Dom
import Resources.Runs

/-!
# `formValidation`

The document is a `Dom.Forest` whose controls are the required fields;
other controls are elements without children, and the messages are the
paragraphs `p.errorMessage`. `allRequiredFields` is the set that `init`
selects, in document order.

The page brings its own invariant (`Page`): a node occurs once, and each
required field has a parent, which is the form or an element below it.

Two of the object's fields, `labelColor` and `errorMessage`, are never
read after `init` and are left out.
-/

namespace Resources

namespace FormValidation

open Dom (Forest Arrangement)

/-! ## The page -/

/-- A node of the set `.required`. Its `id` and `name` are what the code reads
of it, and `key` tells the nodes of a page apart. -/
structure Field where
  key : ℕ
  id : String
  name : String
deriving Repr, DecidableEq

structure Attrs where
  tag : String
  classes : List String
  style : List (String × String)
deriving Repr, DecidableEq

namespace Attrs

/-- jQuery's `css` with an object: these properties replace what the element
had under their names. -/
def css (properties : List (String × String)) (a : Attrs) : Attrs :=
  { a with style := (a.style.filter fun p => p.1 ∉ properties.map Prod.fst) ++ properties }

def addClass (c : String) (a : Attrs) : Attrs :=
  if c ∈ a.classes then a else { a with classes := a.classes ++ [c] }

def removeStyle (a : Attrs) : Attrs := { a with style := [] }

def removeClass (a : Attrs) : Attrs := { a with classes := [] }

end Attrs

/-- A page as the browser has built it, with its form somewhere in it. -/
structure Page where
  dom : Forest Field Attrs
  placed : dom.arrangement.Placed

/-- The value of a text control; it has no carriage returns. -/
def Value : Type := { value : String // '\r' ∉ value.toList }

/-- jQuery's `val()`, which drops carriage returns. -/
def Value.val (v : Value) : String := String.ofList (v.1.toList.filter (· ≠ '\r'))

/-! ## The email pattern: `.+@.+\.[a-zA-Z]{2,4}$` -/

/-- `.` matches all but the line terminators. -/
def dot (c : Char) : Bool := c ∉ ['\n', '\r', '\u2028', '\u2029']

def letter (c : Char) : Bool := ('a' ≤ c && c ≤ 'z') || ('A' ≤ c && c ≤ 'Z')

/-- The end of the pattern, `[a-zA-Z]{2,4}$`, from here on. -/
def matchTld (cs : List Char) : Bool := 2 ≤ cs.length && cs.length ≤ 4 && cs.all letter

/-- The part `.*\.[a-zA-Z]{2,4}$` of the pattern, from here on: either the dot
is here, or it comes later. -/
def matchDomain : List Char → Bool
  | [] => false
  | c :: cs => (c = '.' && matchTld cs) || (dot c && matchDomain cs)

/-- The whole pattern. It is not anchored on the left, so that one character
before the `@` does for the first `.+`, and the match may begin anywhere. -/
def matchEmail : List Char → Bool
  | a :: b :: c :: cs =>
      (dot a && b = '@' && dot c && matchDomain cs) || matchEmail (b :: c :: cs)
  | _ => false

def emailPattern (value : String) : Bool := matchEmail value.toList

/-! ## The object -/

/-- The fields of the object that are read after `init`, with the page and the
values of its fields. -/
structure State where
  dom : Forest Field Attrs
  value : Field → Value
  allRequiredFields : List Field
  allErrorFields : List String
  name : String
  email : String
  message : String
  formAction : String

def init (page : Page) (value : Field → Value) : State where
  dom := page.dom
  value := value
  allRequiredFields := page.dom.arrangement.controls
  allErrorFields := []
  name := ""
  email := ""
  message := ""
  formAction := "Send message"

namespace State

/-- The message is added after the field, and the parent of the field is
styled, with the labels in it. -/
def displayError (targetObj : Field) (message : String) (s : State) : State :=
  -- add the error message
  let dom := s.dom.after targetObj message
  -- add style to the li
  let dom := dom.atParent targetObj fun attrs kids =>
    (attrs.css [("background", "#ffdfdf"), ("marginTop", "6px"), ("padding", "4px")], kids)
  -- change the label font's color to red
  let dom := dom.atParent targetObj fun attrs kids =>
    (attrs, kids.mapAttrs fun a =>
      if a.tag = "label" then
        (a.addClass "error").css [("color", "red"), ("fontWeight", "bold")]
      else a)
  { s with dom := dom }

/-- The parent of the field loses all messages below it and its style, and its
labels with an error lose theirs. -/
def resetObj (targetObj : Field) (s : State) : State :=
  -- clear old error if there's any
  let dom := s.dom.atParent targetObj fun attrs kids => (attrs, kids.removeMessages)
  -- reset to original
  let dom := dom.atParent targetObj fun attrs kids =>
    (attrs, kids.mapAttrs fun a =>
      if a.tag = "label" ∧ "error" ∈ a.classes then a.removeStyle.removeClass else a)
  -- remove the style that was previously injected
  let dom := dom.atParent targetObj fun attrs kids => (attrs.removeStyle, kids)
  { s with dom := dom }

/-- What `validateFields` does with `#email`. -/
def checkEmail (thisField : Field) : State × Bool → State × Bool
  | (s, valid) =>
      if thisField.id = "email" then
        let value := (s.value thisField).1
        let s := { s with email := value }
        if value ≠ "" ∧ ¬emailPattern value then
          (s.displayError thisField "Your email is invalid.", false)
        else (s, valid)
      else (s, valid)

def noteName (thisField : Field) (s : State) : State :=
  if thisField.id = "name" then { s with name := (s.value thisField).1 } else s

def noteMessage (thisField : Field) (s : State) : State :=
  if thisField.id = "message" then { s with message := (s.value thisField).1 } else s

/-- What `validateFields` does with any field: an empty one is noted as an
error. -/
def checkEmpty (thisField : Field) : State × Bool → State × Bool
  | (s, valid) =>
      if (s.value thisField).val = "" then
        let s := { s with allErrorFields := s.allErrorFields ++ [thisField.name] }
        (s.displayError thisField "This field is required. Please enter a value.", false)
      else (s, valid)

/-- One round of `$.each`, in the order of the source. A field that is both an
address and empty gets one message only, because an empty address passes the
first check. -/
def validateField (sv : State × Bool) (thisField : Field) : State × Bool :=
  let (s, valid) := checkEmail thisField (sv.1.resetObj thisField, sv.2)
  checkEmpty thisField ((s.noteName thisField).noteMessage thisField, valid)

def validateFields (s : State) : State × Bool :=
  s.allRequiredFields.foldl validateField (s, true)

/-- The query that `ajax` sends. -/
def myQuery (s : State) : String :=
  "name=" ++ s.name ++ "&email=" ++ s.email ++ "&message=" ++ s.message
    ++ "&action=" ++ s.formAction

end State

/-! ## Sessions -/

/-- The form, and what the latest call of `validateFields` returned. -/
structure Session where
  form : State
  valid : Option Bool

inductive Event where
  | edit (field : Field) (value : Value)
  /-- The form is submitted. -/
  | submit

/-- An edit changes one value. A submit validates all fields, whatever it comes
to. -/
def step (s : Session) : Event → Option Session
  | .edit field value =>
      some { s with form := { s.form with value := Function.update s.form.value field value } }
  | .submit =>
      let (form, valid) := s.form.validateFields
      some { form := form, valid := some valid }

/-- A page that has just been loaded. -/
def start (page : Page) (value : Field → Value) : Session := ⟨init page value, none⟩

/-! ## The pattern, as it is written -/

/-- The text, cut into the parts that the pattern names. -/
structure EmailParts (before user host tld text : List Char) : Prop where
  text : text = before ++ user ++ '@' :: (host ++ '.' :: tld)
  user : user ≠ [] ∧ ∀ c ∈ user, dot c = true
  host : host ≠ [] ∧ ∀ c ∈ host, dot c = true
  tld : 2 ≤ tld.length ∧ tld.length ≤ 4 ∧ ∀ c ∈ tld, letter c = true

theorem matchTld_iff {cs : List Char} :
    matchTld cs = true ↔ 2 ≤ cs.length ∧ cs.length ≤ 4 ∧ ∀ c ∈ cs, letter c = true := by
  simp [matchTld, and_assoc]

theorem matchDomain_iff {cs : List Char} :
    matchDomain cs = true ↔
      ∃ host tld, cs = host ++ '.' :: tld ∧ (∀ c ∈ host, dot c = true) ∧ matchTld tld = true := by
  induction cs with
  | nil => simp [matchDomain]
  | cons c cs ih =>
      rw [matchDomain, Bool.or_eq_true, Bool.and_eq_true, Bool.and_eq_true, decide_eq_true_eq, ih]
      constructor
      · rintro (⟨rfl, htld⟩ | ⟨hc, host, tld, rfl, hhost, htld⟩)
        · exact ⟨[], cs, rfl, nofun, htld⟩
        · exact ⟨c :: host, tld, rfl, List.forall_mem_cons.mpr ⟨hc, hhost⟩, htld⟩
      · rintro ⟨host, tld, heq, hhost, htld⟩
        cases host with
        | nil =>
            obtain ⟨rfl, rfl⟩ := List.cons.inj heq
            exact Or.inl ⟨rfl, htld⟩
        | cons d host =>
            obtain ⟨rfl, rfl⟩ := List.cons.inj heq
            rw [List.forall_mem_cons] at hhost
            exact Or.inr ⟨hhost.1, host, tld, rfl, hhost.2, htld⟩

theorem matchEmail_iff {cs : List Char} :
    matchEmail cs = true ↔
      ∃ before a c rest, cs = before ++ a :: '@' :: c :: rest ∧ dot a = true ∧ dot c = true
        ∧ matchDomain rest = true := by
  induction cs using matchEmail.induct with
  | case1 a b c cs ih =>
      rw [matchEmail, Bool.or_eq_true, ih]
      constructor
      · rintro (hmatch | ⟨before, a', c', rest, heq, h⟩)
        · simp only [Bool.and_eq_true, decide_eq_true_eq] at hmatch
          obtain ⟨⟨⟨ha, rfl⟩, hc⟩, hdom⟩ := hmatch
          exact ⟨[], a, c, cs, rfl, ha, hc, hdom⟩
        · exact ⟨a :: before, a', c', rest, congrArg (a :: ·) heq, h⟩
      · rintro ⟨before, a', c', rest, heq, ha, hc, hdom⟩
        cases before with
        | nil =>
            simp only [List.nil_append, List.cons.injEq] at heq
            obtain ⟨rfl, rfl, rfl, rfl⟩ := heq
            exact Or.inl (by simp [ha, hc, hdom])
        | cons d before =>
            exact Or.inr ⟨before, a', c', rest, (List.cons.inj heq).2, ha, hc, hdom⟩
  | case2 cs hcs =>
      rw [matchEmail]
      · refine iff_of_false nofun ?_
        rintro ⟨before, a, c, rest, rfl, -⟩
        -- whatever comes before, the text has three characters
        rcases before with _ | ⟨_, _ | ⟨_, _ | ⟨_, _⟩⟩⟩ <;> exact hcs _ _ _ _ rfl
      · exact hcs

/-- The matcher accepts what the regular expression describes: somewhere in
the value there is a user, an `@`, a host, a dot, and a top level domain
that ends the value. -/
theorem emailPattern_iff {value : String} :
    emailPattern value = true ↔
      ∃ before user host tld, EmailParts before user host tld value.toList := by
  rw [emailPattern, matchEmail_iff]
  constructor
  · rintro ⟨before, a, c, rest, heq, ha, hc, hdom⟩
    obtain ⟨host, tld, rfl, hhost, htld⟩ := matchDomain_iff.mp hdom
    refine ⟨before, [a], c :: host, tld, ?_, ⟨nofun, ?_⟩, ⟨nofun, ?_⟩, matchTld_iff.mp htld⟩
    · rw [heq, List.append_assoc]
      rfl
    · exact List.forall_mem_singleton.mpr ha
    · exact List.forall_mem_cons.mpr ⟨hc, hhost⟩
  · rintro ⟨before, user, host, tld, htext, ⟨huser, hu⟩, ⟨hhost, hh⟩, htld⟩
    obtain ⟨user, a, rfl⟩ := List.eq_nil_or_concat user |>.resolve_left huser
    obtain ⟨c, host, rfl⟩ := List.exists_cons_of_ne_nil hhost
    rw [List.forall_mem_cons] at hh
    refine ⟨before ++ user, a, c, host ++ '.' :: tld, ?_, ?_, hh.1, ?_⟩
    · rw [htext]
      simp
    · exact hu a (by simp)
    · exact matchDomain_iff.mpr ⟨host, tld, rfl, hh.2, matchTld_iff.mpr htld⟩

end FormValidation

end Resources
