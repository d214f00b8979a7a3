import Resources.Archive
import Resources.XmlScan

/-!
# Reading an item of the archive

The text of an item is cut where the reader changes its mode: attribute
values, CDATA sections and the template between them. `itemText g chunk`
is that text with the fields as `g` gives them, so that it covers both
the document and the document with its line ends normalized.

The template between the fields is read by computation, whatever has been
read before it; the fields are read by the rules of the library.
-/

namespace Resources

namespace DataProxy

open Xml (Text Node Frame Mode State Tag Token terminator NoTerm eol step)

/-! ## The text of an item -/

def titleText (g : String → Text) (chunk : ArchiveObject) : Text :=
  "<strong>".toList ++ (g chunk.title ++ ("</strong>, ".toList ++ g chunk.date))

/-- From the end of the attributes of `item` to the value of `ref`. -/
def sectionsText (g : String → Text) (chunk : ArchiveObject) : Text :=
  ">\n<title><![CDATA[".toList ++ (titleText g chunk ++ terminator ++
  ("</title><description>\n<![CDATA[".toList ++ ('\n' :: g chunk.description ++ terminator ++
  ("\n</description>\n<transcript>\n<![CDATA[".toList ++ (g chunk.transcript ++ terminator ++
  ("</transcript>\n<asset-details>\n<![CDATA[".toList ++
    ('\n' :: g chunk.asset_details ++ terminator ++
  "\n</asset-details>\n<exhibitions>\n<exhibition ref=\"".toList)))))))

/-- The text of an item up to its end, with the fields as `g` gives them. -/
def itemText (g : String → Text) (chunk : ArchiveObject) : Text :=
  "<item id=\"".toList ++ (g chunk.id ++ '"' ::
  (" filename=\"".toList ++ (g chunk.filename ++ '"' ::
  (sectionsText g chunk ++ (g chunk.exhibitions ++ [' '] ++ '"' ::
  (" />\n</exhibitions>\n<types>\n<type ref=\"".toList ++ (g chunk.types ++ '"' ::
  "/>\n</types>\n</item>\n\n".toList)))))))

section pieces
variable (x : Text)

theorem filename_piece :
    "\" filename=\"".toList ++ x = '"' :: (" filename=\"".toList ++ x) := by
  rfl

theorem title_piece :
    "\">\n".toList ++ ("<title><![CDATA[<strong>".toList ++ x) =
      '"' :: (">\n<title><![CDATA[".toList ++ ("<strong>".toList ++ x)) := by
  rfl

theorem description_piece :
    "]]></title>".toList ++ ("<description>\n".toList ++ ("<![CDATA[\n".toList ++ x)) =
      terminator ++ ("</title><description>\n<![CDATA[".toList ++ '\n' :: x) := by
  rfl

theorem transcript_piece :
    "]]>\n".toList ++ ("</description>\n".toList ++ ("<transcript>\n<![CDATA[".toList ++ x)) =
      terminator ++ ("\n</description>\n<transcript>\n<![CDATA[".toList ++ x) := by
  rfl

theorem asset_details_piece :
    "]]></transcript>\n".toList ++ ("<asset-details>\n".toList ++ ("<![CDATA[\n".toList ++ x)) =
      terminator ++ ("</transcript>\n<asset-details>\n<![CDATA[".toList ++ '\n' :: x) := by
  rfl

theorem exhibitions_piece :
    "]]>\n".toList ++ ("</asset-details>\n".toList ++ ("<exhibitions>\n".toList ++
        ("<exhibition ref=\"".toList ++ x))) =
      terminator ++ ("\n</asset-details>\n<exhibitions>\n<exhibition ref=\"".toList ++ x) := by
  rfl

theorem types_piece :
    " \" />\n".toList ++ ("</exhibitions>\n".toList ++ ("<types>\n".toList ++
        ("<type ref=\"".toList ++ x))) =
      ' ' :: '"' :: (" />\n</exhibitions>\n<types>\n<type ref=\"".toList ++ x) := by
  rfl

theorem end_piece :
    "\"/>\n".toList ++ ("</types>\n".toList ++ ("</item>\n".toList ++ "\n".toList)) =
      '"' :: "/>\n</types>\n</item>\n\n".toList := by
  rfl

end pieces

theorem appendItem_toList (supertext : String) (chunk : ArchiveObject) :
    (appendItem supertext chunk).toList = supertext.toList ++ itemText String.toList chunk := by
  unfold appendItem itemText sectionsText titleText
  simp only [String.toList_append, List.append_assoc]
  simp only [filename_piece, title_piece, description_piece, transcript_piece,
    asset_details_piece, exhibitions_piece, types_piece, end_piece]
  simp only [List.cons_append, List.nil_append]

/-! ## Line ends -/

/-- The field with its line ends normalized, as the tokenizer sees it. -/
def lineEnds (s : String) : Text := eol s.toList

/-- No field is followed by a line break, so that line ends can be
normalized field by field. -/
theorem eol_itemText (chunk : ArchiveObject) (rest : Text) :
    eol (itemText String.toList chunk ++ rest) = itemText lineEnds chunk ++ eol rest := by
  unfold itemText sectionsText titleText
  simp only [List.append_assoc, List.cons_append, List.nil_append]
  simp (disch := decide) only [Xml.eol_append_of_not_mem, Xml.eol_append_append,
    Xml.eol_append_cons, Xml.eol_cons]
  rfl

/-! ## Reading the sections -/

/-- The tree builder in the middle of an archive, with these elements open. -/
def doc (stack : List Frame) : Xml.Doc := ⟨stack, none, some true, false⟩

/-- A CDATA section is read into the element that it is in. -/
theorem section_run {text : Text} (name : Text) (kids : List Node) (fs : List Frame)
    (hchar : ∀ c ∈ text, Xml.isChar c = true) (hterm : NoTerm text) :
    Runs.run step ⟨.cdata [], doc (⟨name, [], kids⟩ :: fs)⟩ (text ++ terminator) =
      some ⟨.content 0, doc (⟨name, [], kids ++ text.map .char⟩ :: fs)⟩ :=
  Xml.cdata_section hchar hterm

section template
variable (attrs attrs' : List (Text × Text)) (kids more : List Node) (f : Frame) (fs : List Frame)

/-- The pieces of the template between two fields, each from the mode in which
the field before it leaves the reader. -/
theorem item_run :
    Runs.run step ⟨.content 0, doc (f :: fs)⟩ "<item id=\"".toList =
      some ⟨.attrValue ⟨"item".toList, []⟩ "id".toList '"' [], doc (f :: fs)⟩ := by
  rfl

theorem filename_run :
    Runs.run step ⟨.attrEnd ⟨"item".toList, attrs⟩, doc (f :: fs)⟩ " filename=\"".toList =
      some ⟨.attrValue ⟨"item".toList, attrs⟩ "filename".toList '"' [], doc (f :: fs)⟩ := by
  rfl

theorem title_run :
    Runs.run step ⟨.attrEnd ⟨"item".toList, attrs⟩, doc (f :: fs)⟩ ">\n<title><![CDATA[".toList =
      some ⟨.cdata [],
        doc (⟨"title".toList, [], []⟩ :: ⟨"item".toList, attrs, [.char '\n']⟩ :: f :: fs)⟩ := by
  rfl

theorem description_run :
    Runs.run step
        ⟨.content 0, doc (⟨"title".toList, [], kids⟩ :: ⟨"item".toList, attrs, more⟩ :: f :: fs)⟩
        "</title><description>\n<![CDATA[".toList =
      some ⟨.cdata [],
        doc (⟨"description".toList, [], [.char '\n']⟩ ::
          ⟨"item".toList, attrs, more ++ [.element "title".toList [] kids]⟩ :: f :: fs)⟩ := by
  rfl

theorem transcript_run :
    Runs.run step
        ⟨.content 0,
          doc (⟨"description".toList, [], kids⟩ :: ⟨"item".toList, attrs, more⟩ :: f :: fs)⟩
        "\n</description>\n<transcript>\n<![CDATA[".toList =
      some ⟨.cdata [],
        doc (⟨"transcript".toList, [], [.char '\n']⟩ ::
          ⟨"item".toList, attrs,
            more ++ [.element "description".toList [] (kids ++ [.char '\n'])] ++ [.char '\n']⟩
          :: f :: fs)⟩ := by
  rfl

theorem asset_details_run :
    Runs.run step
        ⟨.content 0,
          doc (⟨"transcript".toList, [], kids⟩ :: ⟨"item".toList, attrs, more⟩ :: f :: fs)⟩
        "</transcript>\n<asset-details>\n<![CDATA[".toList =
      some ⟨.cdata [],
        doc (⟨"asset-details".toList, [], [.char '\n']⟩ ::
          ⟨"item".toList, attrs,
            more ++ [.element "transcript".toList [] kids] ++ [.char '\n']⟩ :: f :: fs)⟩ := by
  rfl

set_option maxRecDepth 4000 in
theorem exhibitions_run :
    Runs.run step
        ⟨.content 0,
          doc (⟨"asset-details".toList, [], kids⟩ :: ⟨"item".toList, attrs, more⟩ :: f :: fs)⟩
        "\n</asset-details>\n<exhibitions>\n<exhibition ref=\"".toList =
      some ⟨.attrValue ⟨"exhibition".toList, []⟩ "ref".toList '"' [],
        doc (⟨"exhibitions".toList, [], [.char '\n']⟩ ::
          ⟨"item".toList, attrs,
            more ++ [.element "asset-details".toList [] (kids ++ [.char '\n'])] ++ [.char '\n']⟩
          :: f :: fs)⟩ := by
  rfl

set_option maxRecDepth 4000 in
theorem types_run :
    Runs.run step
        ⟨.attrEnd ⟨"exhibition".toList, attrs⟩,
          doc (⟨"exhibitions".toList, [], kids⟩ :: ⟨"item".toList, attrs', more⟩ :: f :: fs)⟩
        " />\n</exhibitions>\n<types>\n<type ref=\"".toList =
      some ⟨.attrValue ⟨"type".toList, []⟩ "ref".toList '"' [],
        doc (⟨"types".toList, [], [.char '\n']⟩ ::
          ⟨"item".toList, attrs', more ++ [.element "exhibitions".toList []
            (kids ++ [.element "exhibition".toList attrs []] ++ [.char '\n'])] ++ [.char '\n']⟩
          :: f :: fs)⟩ := by
  rfl

set_option maxRecDepth 4000 in
theorem end_run :
    Runs.run step
        ⟨.attrEnd ⟨"type".toList, attrs⟩,
          doc (⟨"types".toList, [], kids⟩ :: ⟨"item".toList, attrs', more⟩ :: f :: fs)⟩
        "/>\n</types>\n</item>\n\n".toList =
      some ⟨.content 0, doc ({ f with children := f.children ++
        [.element "item".toList attrs' (more ++ [.element "types".toList []
          (kids ++ [.element "type".toList attrs []] ++ [.char '\n'])] ++ [.char '\n'])] ++
        [.char '\n'] ++ [.char '\n'] } :: fs)⟩ := by
  rfl

end template

/-- The fields that the template puts into CDATA sections can all stand there.
-/
structure Sections (g : String → Text) (chunk : ArchiveObject) : Prop where
  title : NoTerm (g chunk.title)
  date : NoTerm (g chunk.date)
  description : NoTerm (g chunk.description)
  transcript : NoTerm (g chunk.transcript)
  asset_details : NoTerm (g chunk.asset_details)

theorem Sections.titleText {g : String → Text} {chunk : ArchiveObject} (h : Sections g chunk) :
    NoTerm (titleText g chunk) := by
  have hdate : NoTerm ("/strong>, ".toList ++ g chunk.date) :=
    (Xml.noTerm_append (by decide)).mpr h.date
  exact (Xml.noTerm_append (by decide)).mpr
    (Xml.noTerm_append_cons (c := '<') (by decide) h.title hdate)

theorem Sections.lineEnds {chunk : ArchiveObject} (h : Sections String.toList chunk) :
    Sections lineEnds chunk where
  title := Xml.noTerm_eol h.title
  date := Xml.noTerm_eol h.date
  description := Xml.noTerm_eol h.description
  transcript := Xml.noTerm_eol h.transcript
  asset_details := Xml.noTerm_eol h.asset_details

def textElement (name : String) (before field after : Text) : Node :=
  .element name.toList [] ((before ++ field ++ after).map .char)

/-- The children of `item` before `exhibitions`. -/
def sectionNodes (g : String → Text) (chunk : ArchiveObject) : List Node :=
  [.char '\n',
    textElement "title" [] (titleText g chunk) [],
    textElement "description" ['\n', '\n'] (g chunk.description) ['\n'], .char '\n',
    textElement "transcript" ['\n'] (g chunk.transcript) [], .char '\n',
    textElement "asset-details" ['\n', '\n'] (g chunk.asset_details) ['\n'], .char '\n']

/-- The item from the end of its attributes to the value of `ref`: the four
sections are read into their elements. -/
theorem sections_run {g : String → Text} {chunk : ArchiveObject} (attrs : List (Text × Text))
    (f : Frame) (fs : List Frame) (hchar : ∀ c ∈ sectionsText g chunk, Xml.isChar c = true)
    (hterm : Sections g chunk) :
    Runs.run step ⟨.attrEnd ⟨"item".toList, attrs⟩, doc (f :: fs)⟩ (sectionsText g chunk) =
      some ⟨.attrValue ⟨"exhibition".toList, []⟩ "ref".toList '"' [],
        doc (⟨"exhibitions".toList, [], [.char '\n']⟩ ::
          ⟨"item".toList, attrs, sectionNodes g chunk⟩ :: f :: fs)⟩ := by
  unfold sectionsText at hchar ⊢
  simp only [List.forall_mem_append] at hchar
  obtain ⟨-, ⟨htitle, -⟩, -, ⟨hdescription, -⟩, -, ⟨htranscript, -⟩, -, ⟨hdetails, -⟩, -⟩ := hchar
  rw [Runs.run_skip (title_run attrs f fs),
    Runs.run_skip (section_run _ _ _ htitle hterm.titleText),
    Runs.run_skip (description_run attrs _ _ f fs),
    Runs.run_skip (section_run _ _ _ hdescription
      ((Xml.noTerm_cons (by decide)).mpr hterm.description)),
    Runs.run_skip (transcript_run attrs _ _ f fs),
    Runs.run_skip (section_run _ _ _ htranscript hterm.transcript),
    Runs.run_skip (asset_details_run attrs _ _ f fs),
    Runs.run_skip (section_run _ _ _ hdetails
      ((Xml.noTerm_cons (by decide)).mpr hterm.asset_details)),
    exhibitions_run attrs _ _ f fs]
  simp [sectionNodes, textElement]

end DataProxy

end Resources
