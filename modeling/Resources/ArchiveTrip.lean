import Mathlib.Data.List.Forall2
import Resources.ArchiveRead

/-!
# What comes back from an archive

`exhibition ref` is written with a blank before its closing quote, so no
record comes back as it was.
-/

namespace Resources

namespace DataProxy

open Xml (Text Node Frame State eol step)

/-! ## The document -/

def prolog : Text :=
  '\n' :: ("<!DOCTYPE archive SYSTEM \"http://www.thamtech.com/dtds/usdc-archive.dtd\">".toList ++
    "<archive>\n".toList)

/-- The items, and the end tag, with the fields as `g` gives them. -/
def bodyText (g : String → Text) (dat : List ArchiveObject) : Text :=
  dat.foldr (fun chunk rest => itemText g chunk ++ rest) "</archive>".toList

theorem foldl_appendItem (dat : List ArchiveObject) : ∀ supertext : String,
    (dat.foldl appendItem supertext).toList ++ "</archive>".toList =
      supertext.toList ++ bodyText String.toList dat := by
  induction dat with
  | nil => exact fun _ => rfl
  | cons chunk dat ih =>
      intro supertext
      rw [List.foldl_cons, ih, appendItem_toList, List.append_assoc]
      rfl

theorem declaration_piece : "<?xml version=\"1.0\" encoding=\"UTF-8\"?>\n".toList =
    "<?xml version=\"1.0\" encoding=\"UTF-8\"?>".toList ++ ['\n'] := by
  rfl

theorem generateArchive_toList (dat : List ArchiveObject) :
    (generateArchive dat).toList =
      "<?xml version=\"1.0\" encoding=\"UTF-8\"?>".toList ++
        (prolog ++ bodyText String.toList dat) := by
  unfold generateArchive prolog
  rw [String.toList_append, foldl_appendItem]
  simp only [String.toList_append, declaration_piece]
  simp only [List.append_assoc, List.cons_append, List.nil_append]

theorem eol_bodyText (dat : List ArchiveObject) :
    eol (bodyText String.toList dat) = bodyText lineEnds dat := by
  induction dat with
  | nil => exact Xml.eol_of_not_mem (by decide)
  | cons chunk dat ih => exact (eol_itemText chunk _).trans (congrArg _ ih)

set_option maxRecDepth 4000 in
theorem afterDecl_prolog (cs : Text) :
    Xml.afterDecl ("<?xml version=\"1.0\" encoding=\"UTF-8\"?>".toList ++ (prolog ++ cs)) =
      some (false, prolog ++ cs) := by
  rfl

set_option maxRecDepth 8000 in
theorem prolog_run : Runs.run step (Xml.start false) prolog =
    some ⟨.content 0, doc [⟨"archive".toList, [], [.char '\n']⟩]⟩ := by
  rfl

/-- Reading an archive comes to reading its items, after a prolog that is
always the same. -/
theorem parse_generateArchive (dat : List ArchiveObject) :
    Xml.parse (generateArchive dat).toList =
      (Runs.run step ⟨.content 0, doc [⟨"archive".toList, [], [.char '\n']⟩]⟩
        (bodyText lineEnds dat)).bind Xml.finish := by
  have heol : eol (generateArchive dat).toList =
      "<?xml version=\"1.0\" encoding=\"UTF-8\"?>".toList ++ (prolog ++ bodyText lineEnds dat) := by
    rw [generateArchive_toList, Xml.eol_append_of_not_mem (by decide),
      Xml.eol_append_of_not_mem (by decide), eol_bodyText]
  rw [Xml.parse, heol, afterDecl_prolog]
  simp only [Option.bind_eq_bind, Option.bind_some]
  rw [Runs.run_skip prolog_run]

/-! ## The first item -/

theorem itemText_append (g : String → Text) (chunk : ArchiveObject) (w : Text) :
    itemText g chunk ++ w =
      "<item id=\"".toList ++ (g chunk.id ++ '"' ::
      (" filename=\"".toList ++ (g chunk.filename ++ '"' ::
      (sectionsText g chunk ++ (g chunk.exhibitions ++ [' '] ++ '"' ::
      (" />\n</exhibitions>\n<types>\n<type ref=\"".toList ++ (g chunk.types ++ '"' ::
      ("/>\n</types>\n</item>\n\n".toList ++ w)))))))) := by
  unfold itemText
  simp only [List.append_assoc, List.cons_append]

theorem lookup_of_prefix {l l' : List (Text × Text)} {key t : Text} (h : l.lookup key = some t)
    (hhead : l <+: l') : l'.lookup key = some t := by
  obtain ⟨more, rfl⟩ := hhead
  rw [List.lookup_append, h, Option.some_or]

/-- An item comes next that does not say what the record says. -/
def Wrong (chunk : ArchiveObject) (ns : List Node) : Prop :=
  ∃ item more, ns = item :: more ∧ elements "item" ns = item :: elements "item" more ∧
    ¬Matches chunk item

theorem wrong_item {chunk : ArchiveObject} {attrs : List (Text × Text)} {kids : List Node}
    (more : List Node) (h : ¬Matches chunk (.element "item".toList attrs kids)) :
    Wrong chunk (.element "item".toList attrs kids :: more) := by
  refine ⟨_, more, rfl, ?_, h⟩
  rw [elements, List.filter_cons_of_pos (by simp)]
  rfl

/-- An attribute of `item` that is not the field of the record makes the item a
wrong one. -/
theorem wrong_of_attr {chunk : ArchiveObject} {key field : String}
    (hfield : ∀ item, Matches chunk item → attr key item = some field.toList)
    {attrs : List (Text × Text)} {t : Text} (hkey : attrs.lookup key.toList = some t)
    (ht : t ≠ field.toList) {d : Xml.Doc} {w : Text} {s : State} {root : Node}
    (hrun : Runs.run step ⟨.attrEnd ⟨"item".toList, attrs⟩, d⟩ w = some s)
    (hfin : Xml.finish s = some root) : Xml.Leads (Wrong chunk) d root := by
  refine (Xml.run_leads hrun hfin).mono ?_
  rintro ns ⟨attrs', kids, more, rfl, hhead⟩
  refine wrong_item more fun hmatch => ht ?_
  have hattr := hfield _ hmatch
  rw [attr, lookup_of_prefix hkey hhead] at hattr
  exact Option.some.inj hattr

/-- The blank before the closing quote is not made up for: as many characters
are read as there were with it, or fewer by two at least. -/
theorem blank_lost {v : String} {raw t : Text} (hlost : Xml.Lost raw t)
    (hraw : raw = lineEnds v ++ [' '] ∨ raw.length < (lineEnds v).length) : t ≠ v.toList := by
  rintro rfl
  have hle : (lineEnds v).length ≤ v.toList.length := Xml.length_eol_le _
  rcases hraw with rfl | hshort
  · rw [Xml.Lost, List.length_append, List.length_singleton] at hlost
    rcases hlost with ⟨hlen, hmem⟩ | hlen
    · have heq : lineEnds v = v.toList := Xml.eol_of_not_mem hmem
      rw [heq] at hlen
      omega
    · omega
  · have hlen := hlost.le
    omega

theorem refs_exhibitions (g : String → Text) (chunk : ArchiveObject)
    (attrs attrs' : List (Text × Text)) (kids more more' : List Node) :
    (refs "exhibitions" "exhibition" (.element "item".toList attrs
      (sectionNodes g chunk ++ .element "exhibitions".toList []
        ([.char '\n'] ++ .element "exhibition".toList attrs' kids :: more) :: more'))).head? =
      some (attrs'.lookup "ref".toList) := by
  simp [refs, elements, children, sectionNodes, textElement, attr]

/-- An `exhibition` comes next in `exhibitions`, with this value of its
attribute. -/
def NextRef (t : Text) (ns : List Node) : Prop :=
  ∃ attrs kids more more', ns = .element "exhibitions".toList []
    ([.char '\n'] ++ .element "exhibition".toList attrs kids :: more) :: more' ∧
    [("ref".toList, t)] <+: attrs

theorem exhibition_outer {t : Text} (kids more : List Node)
    (h : Xml.Starts (some ⟨"exhibition".toList, [("ref".toList, t)]⟩) kids) :
    NextRef t (.element "exhibitions".toList [] ([.char '\n'] ++ kids) :: more) := by
  obtain ⟨attrs, kids, more', rfl, hhead⟩ := h
  exact ⟨attrs, kids, more', more, rfl, hhead⟩

theorem wrong_of_nextRef {chunk : ArchiveObject} {t : Text} (g : String → Text)
    (ht : t ≠ chunk.exhibitions.toList) (attrs : List (Text × Text)) (kids more : List Node)
    (h : NextRef t kids) :
    Wrong chunk (.element "item".toList attrs (sectionNodes g chunk ++ kids) :: more) := by
  obtain ⟨attrs', kids', more', more'', rfl, hhead⟩ := h
  refine wrong_item more fun hmatch => ht ?_
  have href := refs_exhibitions g chunk attrs attrs' kids' more' more''
  rw [hmatch.exhibitions, List.head?_cons, lookup_of_prefix (by rw [List.lookup_cons_self]) hhead]
    at href
  exact (Option.some.inj (Option.some.inj href)).symm

/-- Whatever follows the record in the document, its item is wrong. -/
theorem first_item_wrong {chunk : ArchiveObject} (hterm : Sections String.toList chunk) {f : Frame}
    {fs : List Frame} {w : Text} {s : State} {root : Node}
    (hrun : Runs.run step ⟨.content 0, doc (f :: fs)⟩ (itemText lineEnds chunk ++ w) = some s)
    (hfin : Xml.finish s = some root) : Xml.Leads (Wrong chunk) (doc (f :: fs)) root := by
  have hfield : ∀ v : String, (lineEnds v).length ≤ v.toList.length := fun v => Xml.length_eol_le _
  have hchar : ∀ c ∈ sectionsText lineEnds chunk, Xml.isChar c = true := by
    intro c hc
    refine Xml.run_isChar hrun c ?_
    rw [itemText_append]
    simp only [List.mem_append, List.mem_cons, hc, true_or, or_true]
  rw [itemText_append, Runs.run_skip (item_run f fs)] at hrun
  obtain ⟨t₁, w₁, hid, hrun⟩ := Xml.attr_whole hrun
  by_cases h₁ : t₁ = chunk.id.toList
  swap
  · exact wrong_of_attr (fun _ => Matches.id) rfl h₁ hrun hfin
  obtain rfl := hid (h₁ ▸ hfield chunk.id)
  rw [Runs.run_skip (filename_run _ f fs)] at hrun
  obtain ⟨t₂, w₂, hfilename, hrun⟩ := Xml.attr_whole hrun
  by_cases h₂ : t₂ = chunk.filename.toList
  swap
  · exact wrong_of_attr (fun _ => Matches.filename) rfl h₂ hrun hfin
  obtain rfl := hfilename (h₂ ▸ hfield chunk.filename)
  rw [Runs.run_skip (sections_run _ f fs hchar hterm.lineEnds)] at hrun
  obtain ⟨raw, t₃, w₃, hlost, hraw, hrun⟩ := Xml.attr_field (by decide) hrun
  have h₃ : t₃ ≠ chunk.exhibitions.toList := blank_lost hlost (hraw.imp And.left fun h => h)
  exact ((Xml.run_leads hrun hfin).outer exhibition_outer).outer
    (wrong_of_nextRef lineEnds h₃ _)

/-- An archive whose first record keeps its sections does not come back,
whatever the other records are. -/
theorem not_roundTrips {chunk : ArchiveObject} (hterm : Sections String.toList chunk)
    (dat : List ArchiveObject) : ¬RoundTrips (chunk :: dat) := by
  rintro ⟨root, hparse, hitems⟩
  rw [parse_generateArchive] at hparse
  obtain ⟨s, hrun, hfin⟩ := Option.bind_eq_some_iff.mp hparse
  obtain ⟨kids, more, heq, item, more', rfl, helements, hwrong⟩ := first_item_wrong hterm hrun hfin
  obtain ⟨rfl, -⟩ := List.cons.inj heq
  have hskip : elements "item" (.char '\n' :: item :: more') = elements "item" (item :: more') := rfl
  rw [children, List.singleton_append, hskip, helements, List.forall₂_cons] at hitems
  exact hwrong hitems.1

theorem roundTrips_nil : RoundTrips [] := by
  refine ⟨.element "archive".toList [] [.char '\n'], ?_, .nil⟩
  rw [parse_generateArchive]
  rfl

/-- **What comes back as it was** is the empty list; any other such list
has a first record that ends a CDATA section before its time. -/
theorem roundTrips_iff (dat : List ArchiveObject) :
    (dat = [] → RoundTrips dat) ∧
      (RoundTrips dat → dat = [] ∨ ∃ chunk ∈ dat.head?, ¬Sections String.toList chunk) := by
  constructor
  · intro hnil
    rw [hnil]
    exact roundTrips_nil
  · intro htrips
    cases dat with
    | nil => exact Or.inl rfl
    | cons chunk dat => exact Or.inr ⟨chunk, rfl, fun hterm => not_roundTrips hterm dat htrips⟩

/-- A record with nothing special in it. -/
def dagger : ArchiveObject where
  types := "weapons"
  id := "7"
  filename := "dagger.jpg"
  title := "Dagger"
  date := "1850"
  description := "A dagger."
  transcript := ""
  asset_details := "Steel"
  exhibitions := "medal"

/-- The record with nothing special in it does not come back. -/
theorem ref_with_blank : ¬RoundTrips [dagger] := by
  refine not_roundTrips ⟨?_, ?_, ?_, ?_, ?_⟩ []
  all_goals decide

/-! ## What is written in full -/

/-- Fields that stand for themselves where the template puts them, in
attributes and in sections. -/
structure Clean (chunk : ArchiveObject) : Prop where
  attrs : ∀ v ∈ [chunk.id, chunk.filename, chunk.exhibitions, chunk.types],
    ∀ c ∈ v.toList, Xml.AttrChar c
  text : ∀ v ∈ [chunk.title, chunk.date, chunk.description, chunk.transcript, chunk.asset_details],
    ∀ c ∈ v.toList, Xml.isChar c = true ∧ c ≠ '\r'
  sections : Sections String.toList chunk

/-- Normalization leaves the fields alone. -/
theorem Clean.lineEnds {chunk : ArchiveObject} (h : Clean chunk) :
    itemText lineEnds chunk = itemText String.toList chunk := by
  have hattrs : ∀ v ∈ [chunk.id, chunk.filename, chunk.exhibitions, chunk.types],
      DataProxy.lineEnds v = v.toList := fun v hv =>
    Xml.eol_of_not_mem fun hmem => (h.attrs v hv _ hmem).2 (by decide)
  have htext : ∀ v ∈ [chunk.title, chunk.date, chunk.description, chunk.transcript,
      chunk.asset_details], DataProxy.lineEnds v = v.toList := fun v hv =>
    Xml.eol_of_not_mem fun hmem => (h.text v hv _ hmem).2 rfl
  simp only [List.forall_mem_cons] at hattrs htext
  obtain ⟨hid, hfilename, hexhibitions, htypes, -⟩ := hattrs
  obtain ⟨htitle, hdate, hdescription, htranscript, hdetails, -⟩ := htext
  unfold itemText sectionsText titleText
  rw [hid, hfilename, hexhibitions, htypes, htitle, hdate, hdescription, htranscript, hdetails]

theorem Clean.chars {chunk : ArchiveObject} (h : Clean chunk) :
    ∀ c ∈ sectionsText String.toList chunk, Xml.isChar c = true := by
  have htext := h.text
  simp only [List.forall_mem_cons] at htext
  obtain ⟨htitle, hdate, hdescription, htranscript, hdetails, -⟩ := htext
  have hlit : ∀ t : Text, t.all Xml.isChar = true → ∀ c ∈ t, Xml.isChar c = true :=
    fun t => List.all_eq_true.mp
  unfold sectionsText titleText
  simp only [List.forall_mem_append, List.forall_mem_cons]
  exact ⟨hlit _ rfl, ⟨⟨hlit _ rfl, fun c hc => (htitle c hc).1, hlit _ rfl,
      fun c hc => (hdate c hc).1⟩, hlit _ rfl⟩,
    hlit _ rfl, ⟨⟨rfl, fun c hc => (hdescription c hc).1⟩, hlit _ rfl⟩,
    hlit _ rfl, ⟨fun c hc => (htranscript c hc).1, hlit _ rfl⟩,
    hlit _ rfl, ⟨⟨rfl, fun c hc => (hdetails c hc).1⟩, hlit _ rfl⟩, hlit _ rfl⟩

/-- What is read of a record: its item, with a blank in the attribute of
`exhibition`. -/
def readItem (chunk : ArchiveObject) : Node :=
  .element "item".toList [("id".toList, chunk.id.toList), ("filename".toList, chunk.filename.toList)]
    (sectionNodes String.toList chunk ++
      [.element "exhibitions".toList [] [.char '\n',
        .element "exhibition".toList [("ref".toList, chunk.exhibitions.toList ++ [' '])] [],
        .char '\n'],
      .char '\n',
      .element "types".toList [] [.char '\n',
        .element "type".toList [("ref".toList, chunk.types.toList)] [], .char '\n'],
      .char '\n'])

theorem item_read {chunk : ArchiveObject} (h : Clean chunk) (f : Frame) (fs : List Frame) (w : Text) :
    Runs.run step ⟨.content 0, doc (f :: fs)⟩ (itemText lineEnds chunk ++ w) =
      Runs.run step ⟨.content 0,
        doc ({ f with children := f.children ++ [readItem chunk] ++ [.char '\n'] ++ [.char '\n'] }
          :: fs)⟩ w := by
  have hattrs := h.attrs
  simp only [List.forall_mem_cons] at hattrs
  obtain ⟨hid, hfilename, hexhibitions, htypes, -⟩ := hattrs
  have hblank : ∀ c ∈ chunk.exhibitions.toList ++ [' '], Xml.AttrChar c := by
    rw [List.forall_mem_append, List.forall_mem_singleton]
    exact ⟨hexhibitions, by decide, by decide⟩
  rw [h.lineEnds, itemText_append, Runs.run_skip (item_run f fs),
    Xml.attr_read_whole (by decide) hid, Runs.run_skip (filename_run _ f fs),
    Xml.attr_read_whole (by simp) hfilename,
    Runs.run_skip (sections_run _ f fs h.chars h.sections),
    Xml.attr_read_whole (by decide) hblank, Runs.run_skip (types_run _ _ _ _ f fs),
    Xml.attr_read_whole (by decide) htypes, Runs.run_skip (end_run _ _ _ _ f fs)]
  simp [readItem]

/-- The nodes of the archive between its tags. -/
def readItems (dat : List ArchiveObject) : List Node :=
  dat.flatMap fun chunk => [readItem chunk, .char '\n', .char '\n']

theorem body_read : ∀ {dat : List ArchiveObject}, (∀ chunk ∈ dat, Clean chunk) → ∀ kids : List Node,
    Runs.run step ⟨.content 0, doc [⟨"archive".toList, [], kids⟩]⟩ (bodyText lineEnds dat) =
      some ⟨.content 0,
        ⟨[], some (.element "archive".toList [] (kids ++ readItems dat)), some true, false⟩⟩
  | [], _, kids => by
      rw [readItems, List.flatMap_nil, List.append_nil]
      rfl
  | chunk :: dat, hclean, kids => by
      rw [List.forall_mem_cons] at hclean
      rw [bodyText, List.foldr_cons, item_read hclean.1]
      refine (body_read hclean.2 _).trans ?_
      simp [readItems]

/-- The document of clean records is well formed, and its root has their items.
-/
theorem parse_clean {dat : List ArchiveObject} (hclean : ∀ chunk ∈ dat, Clean chunk) :
    Xml.parse (generateArchive dat).toList =
      some (.element "archive".toList [] (.char '\n' :: readItems dat)) := by
  rw [parse_generateArchive, body_read hclean]
  rfl

/-- The item says what the record would say with the blank in its `exhibitions`. -/
theorem matches_readItem (chunk : ArchiveObject) :
    Matches { chunk with exhibitions := chunk.exhibitions ++ " " } (readItem chunk) := by
  constructor <;>
    simp [readItem, attr, contents, data, refs, elements, children, sectionNodes, textElement,
      List.lookup_cons]

/-- **Every other field of clean records** comes back, record for record: what
is read is the archive of the same records with a blank in their `exhibitions`.
-/
theorem reads_all_but_ref {dat : List ArchiveObject} (hclean : ∀ chunk ∈ dat, Clean chunk) :
    ∃ root, Xml.parse (generateArchive dat).toList = some root ∧
      List.Forall₂ (fun chunk item =>
          Matches { chunk with exhibitions := chunk.exhibitions ++ " " } item)
        dat (elements "item" (children root)) := by
  refine ⟨_, parse_clean hclean, ?_⟩
  have hitems : elements "item" (children (.element "archive".toList []
      (.char '\n' :: readItems dat))) = dat.map readItem := by
    clear hclean
    induction dat with
    | nil => rfl
    | cons chunk dat ih => exact congrArg (readItem chunk :: ·) ih
  rw [hitems, List.forall₂_map_right_iff, List.forall₂_same]
  exact fun chunk _ => matches_readItem chunk

end DataProxy

end Resources
