import Resources.ArchiveTrip
import Resources.Replace

/-!
# `DataProxy.writeFile`

Before the document is written, the tags of the spreadsheet's text format
are taken out of it, or made to `<br/><br/>`, one `removeCrap` after the
other over the whole text. The document is cut at its fields again
(`docText`) to see that this is done to each field by itself
(`clean_docText`): the template has no such tag, and no field can begin
one that the template ends, as long as the attributes have no `<`.

The steps follow one another, so that a later one could put together a tag
that an earlier one has taken out. `archiveFile_free` shows when this does
not happen: when in the fields no tag comes in the middle of another
(`TagsClosed`), which each step keeps (`tagsClosed_replace`).
-/

namespace Resources

namespace DataProxy

open Xml (Text terminator)
open Replace (Clear Markup Within replace)

/-! ## The code -/

/-- The `str.split(targets).join(replaceStr)` of the source. -/
def removeCrap (str targets replaceStr : String) : String :=
  .ofList (replaceStr.toList.intercalate (Replace.split targets.toList str.toList))

/-- The name spaces that a `text:p` is written with, the last one aside. -/
def nameSpaces : List (String × String) :=
  [("office", "http://openoffice.org/2000/office"), ("style", "http://openoffice.org/2000/style"),
    ("text", "http://openoffice.org/2000/text"), ("table", "http://openoffice.org/2000/table"),
    ("draw", "http://openoffice.org/2000/drawing"), ("fo", "http://www.w3.org/1999/XSL/Format"),
    ("xlink", "http://www.w3.org/1999/xlink"), ("dc", "http://purl.org/dc/elements/1.1/"),
    ("meta", "http://openoffice.org/2000/meta"), ("number", "http://openoffice.org/2000/datastyle"),
    ("presentation", "http://openoffice.org/2000/presentation"),
    ("svg", "http://www.w3.org/2000/svg"), ("chart", "http://openoffice.org/2000/chart"),
    ("dr3d", "http://openoffice.org/2000/dr3d"), ("math", "http://www.w3.org/1998/Math/MathML"),
    ("form", "http://openoffice.org/2000/form"), ("script", "http://openoffice.org/2000/script"),
    ("ooo", "http://openoffice.org/2004/office"), ("ooow", "http://openoffice.org/2004/writer"),
    ("oooc", "http://openoffice.org/2004/calc"), ("dom", "http://www.w3.org/2001/xml-events"),
    ("xforms", "http://www.w3.org/2002/xforms"), ("xsd", "http://www.w3.org/2001/XMLSchema"),
    ("xsi", "http://www.w3.org/2001/XMLSchema-instance"),
    ("rpt", "http://openoffice.org/2005/report"),
    ("of", "urn:oasis:names:tc:opendocument:xmlns:of:1.2"),
    ("rdfa", "http://docs.oasis-open.org/opendocument/meta/rdfa#")]

/-- The strings `bad1` to `bad6` differ in the name of the last name space
and in their end. -/
def textP (field close : String) : String :=
  "<text:p" ++ (nameSpaces.foldr (fun ns rest => " xmlns:" ++ ns.1 ++ "=\"" ++ ns.2 ++ "\"" ++ rest)
    (" xmlns:field=\"" ++ field ++ "\"" ++ close))

def openNames : String := "urn:opennames:experimental:ooo-ms-interop:xmlns:field:1.0"

def openOffice : String := "urn:openoffice:names:experimental:ooo-ms-interop:xmlns:field:1.0"

def bad1 : String := textP openNames "/>"

def bad2 : String := textP openNames ">"

def bad3 : String := textP openOffice ">"

/-- This one ends twice. -/
def bad4 : String := textP openOffice "/>\"/>"

def bad5 : String := textP openOffice "/>"

def bad6 : String := textP openOffice "/>"

structure File where
  name : String
  data : String

/-- The fourteen calls of `removeCrap`, one after the other on the whole
document, and then the file. -/
def writeFile (filename data : String) : File :=
  let data := removeCrap data bad1 ""
  let data := removeCrap data bad2 ""
  let data := removeCrap data bad3 ""
  let data := removeCrap data bad4 ""
  let data := removeCrap data bad5 ""
  let data := removeCrap data bad6 ""
  let data := removeCrap data "<text:p>" ""
  let data := removeCrap data "</text:p>" ""
  let data := removeCrap data "<text:s/>" "<br/><br/>"
  let data := removeCrap data "<text:s text:c=\"2\"/>" "<br/><br/>"
  let data := removeCrap data "<text:s text:c=\"51\"/>" "<br/><br/>"
  let data := removeCrap data "<text:s text:c=\"91\"/>" "<br/><br/>"
  let data := removeCrap data "<text:s text:c=\"91\"/>" "<br/><br/>"
  let data := removeCrap data "<text:s text:c=\"78\"/>" "<br/><br/>"
  ⟨filename, data⟩

/-- The last thing `generateArchive` does. -/
def archiveFile (dat : List ArchiveObject) : File := writeFile "archive.xml" (generateArchive dat)

/-! ## What is removed -/

/-- What `writeFile` looks for, and what it puts there. -/
def removals : List (String × String) :=
  [(bad1, ""), (bad2, ""), (bad3, ""), (bad4, ""), (bad5, ""), (bad6, ""), ("<text:p>", ""),
    ("</text:p>", ""), ("<text:s/>", "<br/><br/>"), ("<text:s text:c=\"2\"/>", "<br/><br/>"),
    ("<text:s text:c=\"51\"/>", "<br/><br/>"), ("<text:s text:c=\"91\"/>", "<br/><br/>"),
    ("<text:s text:c=\"91\"/>", "<br/><br/>"), ("<text:s text:c=\"78\"/>", "<br/><br/>")]

/-- What `writeFile` makes of a text. -/
def clean (data : String) : String :=
  removals.foldl (fun data removal => removeCrap data removal.1 removal.2) data

theorem writeFile_eq (filename data : String) : writeFile filename data = ⟨filename, clean data⟩ := rfl

theorem removeCrap_toList (str targets replaceStr : String) :
    (removeCrap str targets replaceStr).toList =
      replace targets.toList replaceStr.toList str.toList := String.toList_ofList

/-- The steps of `clean`, on texts. -/
def cleanText (steps : List (String × String)) (t : Text) : Text :=
  steps.foldl (fun t removal => replace removal.1.toList removal.2.toList t) t

theorem foldl_removeCrap (steps : List (String × String)) : ∀ data : String,
    (steps.foldl (fun data removal => removeCrap data removal.1 removal.2) data).toList =
      cleanText steps data.toList := by
  induction steps with
  | nil => exact fun _ => rfl
  | cons removal steps ih =>
      intro data
      rw [List.foldl_cons, ih, removeCrap_toList]
      rfl

theorem clean_toList (data : String) : (clean data).toList = cleanText removals data.toList :=
  foldl_removeCrap removals data

/-- Nothing in the text has to do with tags or with the end of a section. -/
def Plain (t : Text) : Prop := ∀ c ∈ t, c ≠ '<' ∧ c ≠ '>' ∧ c ≠ ']'

instance (t : Text) : Decidable (Plain t) := List.decidableBAll _ t

theorem Plain.append {t u : Text} (ht : Plain t) (hu : Plain u) : Plain (t ++ u) :=
  List.forall_mem_append.mpr ⟨ht, hu⟩

def heads : List Text := ["<text:".toList, "</text:".toList]

def tagEnds : List Text := [">".toList, "/>".toList]

/-- The end of `bad4` too. -/
def ends : List Text := "/>\"/>".toList :: tagEnds

/-- A text that begins as the tags of the text format do. -/
def Spelled (ends : List Text) (p : Text) : Prop :=
  ∃ h ∈ heads, ∃ q e, p = h ++ (q ++ e) ∧ Plain q ∧ e ∈ ends

theorem nameSpaces_plain : ∀ ns ∈ nameSpaces, Plain ns.1.toList ∧ Plain ns.2.toList := by
  decide +kernel

theorem foldr_plain (rest : String) : ∀ {l : List (String × String)},
    (∀ ns ∈ l, Plain ns.1.toList ∧ Plain ns.2.toList) →
    ∃ q, Plain q ∧ (l.foldr (fun ns rest => " xmlns:" ++ ns.1 ++ "=\"" ++ ns.2 ++ "\"" ++ rest)
      rest).toList = q ++ rest.toList
  | [], _ => ⟨[], by decide, rfl⟩
  | ns :: l, hl => by
      rw [List.forall_mem_cons] at hl
      obtain ⟨q, hq, heq⟩ := foldr_plain rest hl.2
      refine ⟨" xmlns:".toList ++ ns.1.toList ++ "=\"".toList ++ ns.2.toList ++ "\"".toList ++ q,
        ?_, ?_⟩
      · exact ((((Plain.append (by decide) hl.1.1).append (by decide)).append hl.1.2).append
          (by decide)).append hq
      · rw [List.foldr_cons, String.toList_append, heq]
        simp only [String.toList_append, List.append_assoc]

theorem textP_spelled {field close : String} {ends : List Text} (hfield : Plain field.toList)
    (hclose : close.toList ∈ ends) : Spelled ends (textP field close).toList := by
  obtain ⟨q, hq, heq⟩ := foldr_plain (" xmlns:field=\"" ++ field ++ "\"" ++ close) nameSpaces_plain
  refine ⟨"<text:".toList, List.mem_cons_self, "p".toList ++ q ++ " xmlns:field=\"".toList ++
    field.toList ++ "\"".toList, close.toList, ?_, ?_, hclose⟩
  · rw [textP, String.toList_append, heq]
    simp only [String.toList_append, List.append_assoc]
    rfl
  · exact ((((Plain.append (by decide) hq).append (by decide)).append hfield)).append (by decide)

theorem spelled_tag {h q e : Text} (hh : h ∈ heads) (hq : Plain q) (he : e ∈ tagEnds) :
    Spelled tagEnds (h ++ (q ++ e)) := ⟨h, hh, q, e, rfl, hq, he⟩

theorem Spelled.mono {p : Text} (hp : Spelled tagEnds p) : Spelled ends p := by
  obtain ⟨h, hh, q, e, heq, hq, he⟩ := hp
  exact ⟨h, hh, q, e, heq, hq, List.mem_cons_of_mem _ he⟩

/-- All that is removed except `bad4`. -/
def tags : List String :=
  [bad1, bad2, bad3, bad5, bad6, "<text:p>", "</text:p>", "<text:s/>", "<text:s text:c=\"2\"/>",
    "<text:s text:c=\"51\"/>", "<text:s text:c=\"91\"/>", "<text:s text:c=\"78\"/>"]

theorem tags_spelled : ∀ t ∈ tags, Spelled tagEnds t.toList := by
  have hnames : Plain openNames.toList := by decide
  have hoffice : Plain openOffice.toList := by decide
  have htag : ∀ c, Plain c → Spelled tagEnds ("<text:".toList ++ (c ++ "/>".toList)) := fun c hc =>
    spelled_tag List.mem_cons_self hc (by decide)
  simp only [tags, List.forall_mem_cons]
  exact ⟨textP_spelled hnames (by decide), textP_spelled hnames (by decide),
    textP_spelled hoffice (by decide), textP_spelled hoffice (by decide),
    textP_spelled hoffice (by decide),
    spelled_tag (q := "p".toList) (e := ">".toList) List.mem_cons_self (by decide) (by decide),
    spelled_tag (h := "</text:".toList) (q := "p".toList) (e := ">".toList) (by decide)
      (by decide) (by decide),
    htag "s".toList (by decide), htag "s text:c=\"2\"".toList (by decide),
    htag "s text:c=\"51\"".toList (by decide), htag "s text:c=\"91\"".toList (by decide),
    htag "s text:c=\"78\"".toList (by decide), List.forall_mem_nil _⟩

theorem removals_spelled : ∀ removal ∈ removals, Spelled ends removal.1.toList := by
  have htags := tags_spelled
  have hbad4 : Spelled ends bad4.toList := textP_spelled (by decide) (by decide)
  simp only [tags, List.forall_mem_cons] at htags
  obtain ⟨h₁, h₂, h₃, h₅, h₆, hp, hp', hs, hs₂, hs₅, hs₉, hs₇, -⟩ := htags
  simp only [removals, List.forall_mem_cons]
  exact ⟨h₁.mono, h₂.mono, h₃.mono, hbad4, h₅.mono, h₆.mono, hp.mono, hp'.mono, hs.mono, hs₂.mono,
    hs₅.mono, hs₉.mono, hs₉.mono, hs₇.mono, List.forall_mem_nil _⟩

section spelled
variable {es : List Text} {p : Text}

theorem Spelled.head (hp : Spelled es p) : ∃ h ∈ heads, h <+: p := by
  obtain ⟨h, hh, q, e, rfl, -, -⟩ := hp
  exact ⟨h, hh, List.prefix_append h _⟩

/-- After its first character it is free of these. -/
theorem Spelled.tail (hp : Spelled ends p) : ∃ q, p = '<' :: q ∧ '<' ∉ q ∧ ']' ∉ q ∧ '>' ∈ q := by
  obtain ⟨h, hh, q, e, rfl, hq, he⟩ := hp
  have hheads : ∀ h ∈ heads, h = '<' :: h.tail ∧ '<' ∉ h.tail ∧ ']' ∉ h.tail := by decide
  have hends : ∀ e ∈ ends, '<' ∉ e ∧ ']' ∉ e ∧ '>' ∈ e := by decide
  obtain ⟨heq, hlt, hbracket⟩ := hheads h hh
  obtain ⟨helt, hebracket, hegt⟩ := hends e he
  refine ⟨h.tail ++ (q ++ e), ?_, ?_, ?_, ?_⟩
  · rw [heq]
    rfl
  · simp only [List.mem_append, not_or]
    exact ⟨hlt, fun hmem => (hq _ hmem).1 rfl, helt⟩
  · simp only [List.mem_append, not_or]
    exact ⟨hbracket, fun hmem => (hq _ hmem).2.2 rfl, hebracket⟩
  · simp only [List.mem_append, hegt, or_true]

theorem Spelled.second (hp : Spelled es p) : ∃ c q, p = '<' :: c :: q ∧ (c = 't' ∨ c = '/') := by
  obtain ⟨h, hh, q, e, rfl, -, -⟩ := hp
  have hheads : ∀ h ∈ heads, h = '<' :: 't' :: h.drop 2 ∨ h = '<' :: '/' :: h.drop 2 := by decide
  rcases hheads h hh with heq | heq
  · exact ⟨'t', h.drop 2 ++ (q ++ e), congrArg (· ++ (q ++ e)) heq, Or.inl rfl⟩
  · exact ⟨'/', h.drop 2 ++ (q ++ e), congrArg (· ++ (q ++ e)) heq, Or.inr rfl⟩

theorem Spelled.markup (hp : Spelled ends p) : Markup '<' '>' p := by
  obtain ⟨q, rfl, hlt, -, hgt⟩ := hp.tail
  exact ⟨q, rfl, hlt, hgt⟩

/-- It is closed by its last character only. -/
theorem Spelled.not_mem_of_prefix {s : Text} (hp : Spelled tagEnds p) (hpre : s <+: p)
    (hne : s ≠ p) : '>' ∉ s := by
  obtain ⟨h, hh, q, e, rfl, hq, he⟩ := hp
  have hheads : ∀ h ∈ heads, '>' ∉ h := by decide
  have hends : ∀ e ∈ tagEnds, e = e.dropLast ++ ['>'] ∧ '>' ∉ e.dropLast := by decide
  obtain ⟨heq, hgt⟩ := hends e he
  have hinit : h ++ (q ++ e) = (h ++ (q ++ e.dropLast)) ++ ['>'] := by
    calc h ++ (q ++ e) = h ++ (q ++ (e.dropLast ++ ['>'])) := by rw [← heq]
      _ = _ := by simp only [List.append_assoc]
  rw [hinit] at hpre hne
  have hshort : s <+: h ++ (q ++ e.dropLast) := (List.prefix_concat_iff.mp hpre).resolve_left hne
  refine fun hmem => ?_
  have hmem' := hshort.subset hmem
  simp only [List.mem_append] at hmem'
  rcases hmem' with hmem' | hmem' | hmem'
  · exact hheads h hh hmem'
  · exact (hq _ hmem').2.1 rfl
  · exact hgt hmem'

end spelled

/-! ## The document, field by field -/

/-- No tag of the text format begins in this piece of the template. -/
def Piece (l : Text) : Prop := ∀ h ∈ heads, Clear h l

instance (l : Text) : Decidable (Piece l) := by
  unfold Piece
  infer_instance

section replace
variable {p : Text} (hp : Spelled ends p) (r w : Text)
include hp

theorem replace_piece {l : Text} (hl : Piece l) : replace p r (l ++ w) = l ++ replace p r w := by
  obtain ⟨h, hh, hpre⟩ := hp.head
  exact Replace.replace_literal hpre (hl h hh)

theorem replace_char {c : Char} (hc : c ≠ '<') : replace p r (c :: w) = c :: replace p r w :=
  Replace.replace_next (hp.markup.not_prefix hc)

/-- A field that a tag of the template or the end of its section comes after:
it is replaced by itself, since no tag can begin in it and end outside. -/
theorem replace_field {l : Text} (hl : Piece l) (hhead : l.head? = some '<' ∨ l.head? = some ']')
    (a : Text) : replace p r (a ++ (l ++ w)) = replace p r a ++ (l ++ replace p r w) := by
  obtain ⟨q, hq, hlt, hbracket, -⟩ := hp.tail
  obtain ⟨c, l, rfl⟩ : ∃ c l', l = c :: l' := by
    cases l with
    | nil => rcases hhead with hhead | hhead <;> cases hhead
    | cons c l => exact ⟨c, l, rfl⟩
  have hc : c ∉ p.tail := by
    rw [hq]
    rcases hhead with hhead | hhead
    · obtain rfl := Option.some.inj hhead
      exact hlt
    · obtain rfl := Option.some.inj hhead
      exact hbracket
  rw [List.cons_append, Replace.replace_append hp.markup.ne_nil (Replace.apart_cons hc),
    ← List.cons_append, replace_piece hp r w hl]

/-- A field without tags is left alone. -/
theorem replace_attr {a : Text} (ha : '<' ∉ a) : replace p r (a ++ w) = a ++ replace p r w := by
  induction a with
  | nil => rfl
  | cons c a ih =>
      rw [List.mem_cons, not_or] at ha
      rw [List.cons_append, replace_char hp r _ (Ne.symm ha.1), ih ha.2, List.cons_append]

theorem replace_attr_self {a : Text} (ha : '<' ∉ a) : replace p r a = a := by
  have h := replace_attr hp r [] ha
  rwa [Replace.replace_nil, List.append_nil] at h

end replace

/-- The fields that are written as attributes. -/
def ArchiveObject.attrs (chunk : ArchiveObject) : List String :=
  [chunk.id, chunk.filename, chunk.exhibitions, chunk.types]

/-- The fields that are written in sections. -/
def ArchiveObject.texts (chunk : ArchiveObject) : List String :=
  [chunk.title, chunk.date, chunk.description, chunk.transcript, chunk.asset_details]

def PlainAttrs (g : String → Text) (chunk : ArchiveObject) : Prop := ∀ v ∈ chunk.attrs, '<' ∉ g v

instance (g : String → Text) (chunk : ArchiveObject) : Decidable (PlainAttrs g chunk) := by
  unfold PlainAttrs
  infer_instance

theorem replace_itemText {p : Text} (hp : Spelled ends p) (r w : Text) {g : String → Text}
    {chunk : ArchiveObject} (hattrs : PlainAttrs g chunk) :
    replace p r (itemText g chunk ++ w) =
      itemText (fun v => replace p r (g v)) chunk ++ replace p r w := by
  simp only [PlainAttrs, ArchiveObject.attrs, List.forall_mem_cons] at hattrs
  obtain ⟨hid, hfilename, hexhibitions, htypes, -⟩ := hattrs
  unfold itemText sectionsText titleText
  simp only [List.append_assoc, List.cons_append, List.nil_append]
  simp (disch := first | assumption | decide) only [replace_piece hp, replace_field hp,
    replace_char hp, replace_attr hp, replace_attr_self hp]

theorem replace_bodyText {p : Text} (hp : Spelled ends p) (r : Text) {g : String → Text} :
    ∀ {dat : List ArchiveObject}, (∀ chunk ∈ dat, PlainAttrs g chunk) →
      replace p r (bodyText g dat) = bodyText (fun v => replace p r (g v)) dat
  | [], _ => by
      have h := replace_piece hp r [] (l := "</archive>".toList) (by decide)
      rwa [Replace.replace_nil, List.append_nil] at h
  | chunk :: dat, hattrs => by
      rw [List.forall_mem_cons] at hattrs
      rw [bodyText, List.foldr_cons, replace_itemText hp r _ hattrs.1]
      exact congrArg _ (replace_bodyText hp r hattrs.2)

/-- The document, with the fields as `g` gives them. -/
def docText (g : String → Text) (dat : List ArchiveObject) : Text :=
  "<?xml version=\"1.0\" encoding=\"UTF-8\"?>".toList ++ (prolog ++ bodyText g dat)

/-- A step in the document is a step in each field, since the template around
the items has none of these tags either. -/
theorem replace_docText {p : Text} (hp : Spelled ends p) (r : Text) {g : String → Text}
    {dat : List ArchiveObject} (hattrs : ∀ chunk ∈ dat, PlainAttrs g chunk) :
    replace p r (docText g dat) = docText (fun v => replace p r (g v)) dat := by
  have hdecl : Piece "<?xml version=\"1.0\" encoding=\"UTF-8\"?>".toList := by decide +kernel
  have hprolog : Piece prolog := by decide +kernel
  unfold docText
  rw [replace_piece hp r _ hdecl, replace_piece hp r _ hprolog, replace_bodyText hp r hattrs]

theorem cleanText_attr {a : Text} : ∀ {steps : List (String × String)},
    (∀ step ∈ steps, Spelled ends step.1.toList) → '<' ∉ a → cleanText steps a = a
  | [], _, _ => rfl
  | step :: steps, hsteps, ha => by
      rw [List.forall_mem_cons] at hsteps
      rw [cleanText, List.foldl_cons, replace_attr_self hsteps.1 _ ha]
      exact cleanText_attr hsteps.2 ha

theorem clean_of_not_mem {v : String} (hv : '<' ∉ v.toList) : clean v = v := by
  refine String.toList_inj.mp ?_
  rw [clean_toList, cleanText_attr removals_spelled hv]

/-- The steps are taken in each field by itself. -/
theorem cleanText_docText {dat : List ArchiveObject} : ∀ {steps : List (String × String)}
    {g : String → Text}, (∀ step ∈ steps, Spelled ends step.1.toList) →
      (∀ chunk ∈ dat, PlainAttrs g chunk) →
      cleanText steps (docText g dat) = docText (fun v => cleanText steps (g v)) dat
  | [], _, _, _ => rfl
  | step :: steps, g, hsteps, hattrs => by
      rw [List.forall_mem_cons] at hsteps
      rw [cleanText, List.foldl_cons, replace_docText hsteps.1 _ hattrs]
      refine cleanText_docText hsteps.2 ?_
      intro chunk hchunk v hv
      have hplain := hattrs chunk hchunk v hv
      show '<' ∉ replace step.1.toList step.2.toList (g v)
      rwa [replace_attr_self hsteps.1 _ hplain]

def ArchiveObject.map (f : String → String) (chunk : ArchiveObject) : ArchiveObject where
  types := f chunk.types
  id := f chunk.id
  filename := f chunk.filename
  title := f chunk.title
  date := f chunk.date
  description := f chunk.description
  transcript := f chunk.transcript
  asset_details := f chunk.asset_details
  exhibitions := f chunk.exhibitions

theorem bodyText_map (f : String → String) (dat : List ArchiveObject) :
    bodyText String.toList (dat.map (·.map f)) = bodyText (fun v => (f v).toList) dat := by
  induction dat with
  | nil => rfl
  | cons chunk dat ih => exact congrArg (itemText (fun v => (f v).toList) chunk ++ ·) ih

/-- All steps in the document are all steps in each field. -/
theorem clean_docText {dat : List ArchiveObject}
    (hattrs : ∀ chunk ∈ dat, PlainAttrs String.toList chunk) :
    (clean (generateArchive dat)).toList = docText (fun v => (clean v).toList) dat := by
  rw [clean_toList, generateArchive_toList]
  refine (cleanText_docText removals_spelled hattrs).trans ?_
  simp only [clean_toList]

theorem clean_generateArchive {dat : List ArchiveObject}
    (hattrs : ∀ chunk ∈ dat, PlainAttrs String.toList chunk) :
    clean (generateArchive dat) = generateArchive (dat.map (·.map clean)) := by
  refine String.toList_inj.mp ?_
  rw [clean_docText hattrs, generateArchive_toList, bodyText_map]
  unfold docText
  rfl

/-- **The tags are taken out of the fields**: what is written is the document
of the cleaned records, as if each field had been cleaned before. No tag can be
made of a field and the template together, as long as the attributes have no
`<`. -/
theorem archiveFile_eq {dat : List ArchiveObject}
    (hattrs : ∀ chunk ∈ dat, PlainAttrs String.toList chunk) :
    archiveFile dat = ⟨"archive.xml", generateArchive (dat.map (·.map clean))⟩ := by
  rw [archiveFile, writeFile_eq, clean_generateArchive hattrs]

/-- The record of the dagger as the spreadsheet has it. -/
def taggedDagger : ArchiveObject :=
  { dagger with description := "<text:p>A <text:s/>dagger.</text:p>" }

/-- A record with a `<` of its own, next to a tag. -/
def taggedMap : ArchiveObject where
  types := "maps"
  id := "8"
  filename := "map.jpg"
  title := "<text:p>Map</text:p>"
  date := ""
  description := "a < b <text:p>and c < d"
  transcript := "<text:s text:c=\"2\"/>"
  asset_details := ""
  exhibitions := ""

/-- Both records, whose tags are taken out of their fields. -/
theorem archiveFile_dagger : archiveFile [taggedDagger, taggedMap] =
    ⟨"archive.xml", generateArchive ([taggedDagger, taggedMap].map (·.map clean))⟩ :=
  archiveFile_eq (by decide)

/-! ## Nothing is left of the tags -/

/-- No tag comes in the middle of another one: what stands directly before
it is not the beginning of one. Other signs of markup do no harm. -/
def TagsClosed (t : Text) : Prop :=
  ∀ tag ∈ tags, ∀ inner ∈ tags, ¬Within inner.toList tag.toList t

/-- The text is not the beginning of a tag: it has the end of one, or other
letters than a tag begins with. -/
def Ended (s : Text) : Prop := '>' ∈ s ∨ ∀ h ∈ heads, ¬s <+: h ∧ ¬h <+: s

instance (s : Text) : Decidable (Ended s) := by
  unfold Ended
  infer_instance

/-- Where the letters come that a tag begins with, nothing that is begun
stands before them. -/
def HeadsClosed (t : Text) : Prop := ∀ n < t.length, (∃ h ∈ heads, h <+: t.drop n) →
  ∀ s ∈ (t.take n).tails, s ≠ [] → Ended s

instance (t : Text) : Decidable (HeadsClosed t) := by
  unfold HeadsClosed
  infer_instance

theorem HeadsClosed.tagsClosed {t : Text} (ht : HeadsClosed t) : TagsClosed t := by
  rintro tag htag inner hinner ⟨s, hs, hpre, hne, a, b, rfl⟩
  have htag := tags_spelled tag htag
  obtain ⟨h, hh, hhead⟩ := htag.head
  obtain ⟨h', hh', hhead'⟩ := (tags_spelled inner hinner).head
  have hnil : inner.toList ≠ [] := (tags_spelled inner hinner).mono.markup.ne_nil
  have hlen : 0 < inner.toList.length := List.length_pos_iff.mpr hnil
  have hsplit : a ++ (s ++ inner.toList) ++ b = (a ++ s) ++ (inner.toList ++ b) := by
    simp only [List.append_assoc]
  rw [hsplit] at ht
  have hlt : (a ++ s).length < ((a ++ s) ++ (inner.toList ++ b)).length := by
    simp only [List.length_append]
    omega
  have hended := ht (a ++ s).length hlt
  rw [List.drop_left, List.take_left] at hended
  rcases hended ⟨h', hh', hhead'.trans (List.prefix_append _ b)⟩ s
    ((List.mem_tails _ _).mpr (List.suffix_append a s)) hs with hgt | hnone
  · exact htag.not_mem_of_prefix hpre hne hgt
  · rcases List.prefix_or_prefix_of_prefix hpre hhead with h'' | h''
    · exact (hnone h hh).1 h''
    · exact (hnone h hh).2 h''

theorem foldr_append (rest d : String) : ∀ l : List (String × String),
    l.foldr (fun ns rest => " xmlns:" ++ ns.1 ++ "=\"" ++ ns.2 ++ "\"" ++ rest) (rest ++ d) =
      l.foldr (fun ns rest => " xmlns:" ++ ns.1 ++ "=\"" ++ ns.2 ++ "\"" ++ rest) rest ++ d
  | [] => rfl
  | ns :: l => by
      rw [List.foldr_cons, foldr_append rest d l, List.foldr_cons]
      simp only [String.append_assoc]

theorem textP_append (field c d : String) : textP field (c ++ d) = textP field c ++ d := by
  unfold textP
  rw [← String.append_assoc, foldr_append]
  simp only [String.append_assoc]

/-- What is removed begins with a tag. Only `bad4` goes on after it. -/
theorem removals_begin : ∀ removal ∈ removals, ∃ tag ∈ tags, tag.toList <+: removal.1.toList := by
  have hbad4 : bad5.toList <+: bad4.toList := by
    have heq : bad4 = bad5 ++ "\"/>" := textP_append openOffice "/>" "\"/>"
    rw [heq, String.toList_append]
    exact List.prefix_append _ _
  have hsub : ∀ removal ∈ removals, removal.1 ∈ tags ∨ removal.1 = bad4 := by
    simp [tags, removals]
  intro removal hmem
  rcases hsub removal hmem with htag | heq
  · exact ⟨removal.1, htag, List.prefix_refl _⟩
  · exact ⟨bad5, by simp [tags], heq ▸ hbad4⟩

/-- What is put in the place of a tag is nothing or two line breaks. -/
theorem clear_put {h p : Text} (hbreaks : Clear h "<br/><br/>".toList) (hpre : h <+: p) :
    ∀ removal ∈ removals, Clear p removal.2.toList := by
  have hput : ∀ removal ∈ removals, removal.2 = "" ∨ removal.2 = "<br/><br/>" := by
    simp [removals]
  intro removal hmem
  rcases hput removal hmem with heq | heq
  · rw [heq]
    intro s hs hne
    exact absurd (List.mem_singleton.mp hs) hne
  · exact heq ▸ hbreaks.of_prefix hpre

/-- A tag that comes after a part of another one does not begin in a
`<br/>`: the first two characters tell. -/
theorem clear_begun {tag inner s : Text} (htag : Spelled tagEnds tag)
    (hinner : Spelled tagEnds inner) (hs : s ≠ []) (hpre : s <+: tag) :
    ∀ removal ∈ removals, Clear (s ++ inner) removal.2.toList := by
  have hbegin : ∃ h ∈ ["<<".toList, "<t".toList, "</".toList], h <+: s ++ inner := by
    obtain ⟨c, w, rfl, hc⟩ := htag.second
    obtain ⟨rest, rfl, -⟩ := hinner.mono.markup
    match s with
    | [] => exact absurd rfl hs
    | [y] =>
        obtain ⟨rfl, -⟩ := List.cons_prefix_cons.mp hpre
        exact ⟨"<<".toList, by decide, List.prefix_append "<<".toList rest⟩
    | y :: z :: s =>
        obtain ⟨rfl, hpre'⟩ := List.cons_prefix_cons.mp hpre
        obtain ⟨rfl, -⟩ := List.cons_prefix_cons.mp hpre'
        rcases hc with rfl | rfl
        · exact ⟨"<t".toList, by decide, List.prefix_append "<t".toList _⟩
        · exact ⟨"</".toList, by decide, List.prefix_append "</".toList _⟩
  obtain ⟨h, hh, hhead⟩ := hbegin
  have hclear : ∀ h ∈ ["<<".toList, "<t".toList, "</".toList], Clear h "<br/><br/>".toList := by
    decide
  exact clear_put (hclear h hh) hhead

/-- What is removed does not come in the middle of a tag either. -/
theorem TagsClosed.not_within {t : Text} (ht : TagsClosed t) {removal : String × String}
    (hmem : removal ∈ removals) {tag : String} (htag : tag ∈ tags) :
    ¬Within removal.1.toList tag.toList t := by
  obtain ⟨inner, hinner, hpre⟩ := removals_begin removal hmem
  exact fun hw => ht tag htag inner hinner (hw.of_prefix hpre)

/-- Each step keeps the condition, for the later ones. -/
theorem tagsClosed_replace {t : Text} (ht : TagsClosed t) {removal : String × String}
    (hmem : removal ∈ removals) :
    TagsClosed (replace removal.1.toList removal.2.toList t) := by
  intro tag htag inner hinner
  refine Replace.not_within_replace (removals_spelled removal hmem).markup.ne_nil ?_
    (ht.not_within hmem htag) (ht.not_within hmem hinner) (ht tag htag inner hinner)
  exact fun s hs hpre =>
    clear_begun (tags_spelled tag htag) (tags_spelled inner hinner) hs hpre removal hmem

theorem removals_clear {tag : String} (htag : tag ∈ tags) :
    ∀ removal ∈ removals, Clear tag.toList removal.2.toList := by
  obtain ⟨h, hh, hhead⟩ := (tags_spelled tag htag).head
  have hclear : ∀ h ∈ heads, Clear h "<br/><br/>".toList := by decide
  exact clear_put (hclear h hh) hhead

/-- A tag that is taken out, or was never there, is not there afterwards. -/
theorem not_infix_cleanText {tag : String} (htag : tag ∈ tags) :
    ∀ {steps : List (String × String)} {t : Text}, (∀ step ∈ steps, step ∈ removals) →
      TagsClosed t → (tag.toList ∈ steps.map (·.1.toList) ∨ ¬tag.toList <:+: t) →
      ¬tag.toList <:+: cleanText steps t
  | [], t, _, _, hgone => hgone.resolve_left (List.not_mem_nil)
  | step :: steps, t, hsteps, ht, hgone => by
      rw [List.forall_mem_cons] at hsteps
      have hreplace : (tag.toList = step.1.toList ∨ ¬tag.toList <:+: t) →
          ¬tag.toList <:+: replace step.1.toList step.2.toList t :=
        Replace.not_infix_replace (removals_spelled step hsteps.1).markup.ne_nil
          (tags_spelled tag htag).mono.markup.ne_nil (removals_clear htag step hsteps.1) t
          (ht.not_within hsteps.1 htag)
      show ¬tag.toList <:+: cleanText steps (replace step.1.toList step.2.toList t)
      refine not_infix_cleanText htag hsteps.2 (tagsClosed_replace ht hsteps.1) ?_
      rw [List.map_cons, List.mem_cons] at hgone
      rcases hgone with (hfirst | hrest) | hnone
      · exact Or.inr (hreplace (Or.inl hfirst))
      · exact Or.inl hrest
      · exact Or.inr (hreplace (Or.inr hnone))

theorem tags_removed : ∀ tag ∈ tags, tag.toList ∈ removals.map (·.1.toList) := by
  have hsub : tags ⊆ removals.map Prod.fst := by
    simp [tags, removals]
  intro tag htag
  obtain ⟨removal, hmem, rfl⟩ := List.mem_map.mp (hsub htag)
  exact List.mem_map_of_mem hmem

theorem itemText_congr {g g' : String → Text} {chunk : ArchiveObject}
    (h : ∀ v ∈ chunk.attrs ++ chunk.texts, g v = g' v) : itemText g chunk = itemText g' chunk := by
  simp only [ArchiveObject.attrs, ArchiveObject.texts, List.cons_append, List.nil_append,
    List.forall_mem_cons] at h
  obtain ⟨hid, hfilename, hexhibitions, htypes, htitle, hdate, hdescription, htranscript, hdetails,
    -⟩ := h
  unfold itemText sectionsText titleText
  rw [hid, hfilename, hexhibitions, htypes, htitle, hdate, hdescription, htranscript, hdetails]

theorem bodyText_congr {g g' : String → Text} : ∀ {dat : List ArchiveObject},
    (∀ chunk ∈ dat, ∀ v ∈ chunk.attrs ++ chunk.texts, g v = g' v) →
      bodyText g dat = bodyText g' dat
  | [], _ => rfl
  | chunk :: dat, h => by
      rw [List.forall_mem_cons] at h
      rw [bodyText, List.foldr_cons, itemText_congr h.1]
      exact congrArg _ (bodyText_congr h.2)

/-- **Nothing is left** of the tags in the file, if in no field a tag comes in
the middle of another one. Without that, the steps could put a tag together
that was taken out before. -/
theorem archiveFile_free {dat : List ArchiveObject}
    (hattrs : ∀ chunk ∈ dat, PlainAttrs String.toList chunk)
    (hclosed : ∀ chunk ∈ dat, ∀ v ∈ chunk.texts, TagsClosed v.toList) :
    ∀ tag ∈ tags, ¬tag.toList <:+: (archiveFile dat).data.toList := by
  intro tag htag
  have hspelled := tags_spelled tag htag
  -- the attributes stay as they are
  have hclean : ∀ chunk ∈ dat, PlainAttrs (fun v => (clean v).toList) chunk := by
    intro chunk hchunk v hv
    show '<' ∉ (clean v).toList
    rw [clean_toList, cleanText_attr removals_spelled (hattrs chunk hchunk v hv)]
    exact hattrs chunk hchunk v hv
  rw [archiveFile, writeFile_eq, clean_docText hattrs,
    ← Replace.replace_nil_eq_self_iff hspelled.mono.markup.ne_nil,
    replace_docText hspelled.mono [] hclean]
  unfold docText
  rw [bodyText_congr]
  intro chunk hchunk v hv
  rcases List.mem_append.mp hv with hv | hv
  · exact replace_attr_self hspelled.mono [] (hclean chunk hchunk v hv)
  · refine Replace.replace_of_not_infix ?_
    rw [clean_toList]
    exact not_infix_cleanText htag (fun _ h => h) (hclosed chunk hchunk v hv)
      (Or.inl (tags_removed tag htag))

/-- The signs in `a < b` and `c < d` are no tags, and stay. The `<text:p>` next
to them goes. -/
theorem dagger_free : ¬"<text:p>".toList <:+:
      (archiveFile [taggedDagger, taggedMap]).data.toList ∧
    ¬"<text:s/>".toList <:+: (archiveFile [taggedDagger, taggedMap]).data.toList := by
  have hheads : ∀ chunk ∈ [taggedDagger, taggedMap], ∀ v ∈ chunk.texts, HeadsClosed v.toList := by
    decide
  have hclosed : ∀ chunk ∈ [taggedDagger, taggedMap], ∀ v ∈ chunk.texts, TagsClosed v.toList :=
    fun chunk hchunk v hv => HeadsClosed.tagsClosed (hheads chunk hchunk v hv)
  have hfree : ∀ tag ∈ tags,
      ¬tag.toList <:+: (archiveFile [taggedDagger, taggedMap]).data.toList :=
    archiveFile_free (by decide) hclosed
  exact ⟨hfree "<text:p>" (by simp [tags]), hfree "<text:s/>" (by simp [tags])⟩

end DataProxy

end Resources
