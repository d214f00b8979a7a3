import Resources.Runs

/-!
# Reading XML

A non-validating XML processor, one character at a time: `lex` is the
tokenizer, `Doc.take` builds the tree, and `step` feeds a character to
both, once line ends are normalized. `parse` answers with the root
element of a well-formed document. Comments and processing instructions
are read and not reported; an attribute value is normalized as one of
type `CDATA`; and a reference to an entity that only an external subset
could declare is skipped, as the subset is not read. Documents with an
internal subset are not accepted.

The rules of the grammar are those of XML 1.0, fifth edition.
-/

namespace Xml

abbrev Text := List Char

/-! ## Characters and names -/

def inRanges (ranges : List (ℕ × ℕ)) (c : Char) : Bool :=
  ranges.any fun r => r.1 ≤ c.toNat && c.toNat ≤ r.2

def isChar (c : Char) : Bool :=
  inRanges [(0x9, 0xA), (0xD, 0xD), (0x20, 0xD7FF), (0xE000, 0xFFFD), (0x10000, 0x10FFFF)] c

def isSpace (c : Char) : Bool := c = ' ' || c = '\t' || c = '\n' || c = '\r'

def isNameStart (c : Char) : Bool :=
  inRanges [(0x61, 0x7A), (0x41, 0x5A), (0x3A, 0x3A), (0x5F, 0x5F), (0xC0, 0xD6), (0xD8, 0xF6),
    (0xF8, 0x2FF), (0x370, 0x37D), (0x37F, 0x1FFF), (0x200C, 0x200D), (0x2070, 0x218F),
    (0x2C00, 0x2FEF), (0x3001, 0xD7FF), (0xF900, 0xFDCF), (0xFDF0, 0xFFFD), (0x10000, 0xEFFFF)] c

def isNameChar (c : Char) : Bool :=
  isNameStart c ||
    inRanges [(0x2D, 0x2E), (0x30, 0x39), (0xB7, 0xB7), (0x300, 0x36F), (0x203F, 0x2040)] c

def isName : Text → Bool
  | [] => false
  | c :: cs => isNameStart c && cs.all isNameChar

def isDigit (c : Char) : Bool := inRanges [(0x30, 0x39)] c

def isLetter (c : Char) : Bool := inRanges [(0x61, 0x7A), (0x41, 0x5A)] c

/-! ## The tree -/

/-- What is reported of a document: elements with their attributes, and
characters. -/
inductive Node where
  | char (c : Char)
  | element (name : Text) (attrs : List (Text × Text)) (children : List Node)

/-- A start tag, as far as it has been read. -/
structure Tag where
  name : Text
  attrs : List (Text × Text)

/-! ## Tokens -/

inductive Token where
  /-- White space that is no data outside the root element. -/
  | white (c : Char)
  | char (c : Char)
  /-- A reference to an entity that is not declared. -/
  | skipped
  /-- What follows is allowed in an element only. -/
  | inside
  | doctype (external : Bool)
  | openTag (tag : Tag)
  | emptyTag (tag : Tag)
  | closeTag (name : Text)

/-- Where the tokenizer is; the texts are what has been read of the
construct at hand, or what is expected of it. -/
inductive Mode where
  /-- The number of `]` before, up to two. -/
  | content (brackets : ℕ)
  | reference (name : Text)
  /-- After `<`. -/
  | markup
  | tagName (name : Text)
  | tagSpace (tag : Tag)
  | attrName (tag : Tag) (attr : Text)
  | attrEq (tag : Tag) (attr : Text)
  | attrQuote (tag : Tag) (attr : Text)
  | attrValue (tag : Tag) (attr : Text) (quote : Char) (value : Text)
  | attrRef (tag : Tag) (attr : Text) (quote : Char) (value name : Text)
  | attrEnd (tag : Tag)
  | tagSlash (tag : Tag)
  | closeName (name : Text)
  | closeSpace (name : Text)
  /-- After `<!`. -/
  | bang
  | dash
  /-- The number of `-` before, up to two. -/
  | comment (dashes : ℕ)
  | cdataStart (rest : Text)
  | cdata (text : Text)
  | piTarget (name : Text)
  | piEnd
  /-- Whether a `?` comes before. -/
  | pi (question : Bool)
  | doctypeStart (rest : Text)
  | doctype (text : Text) (quote : Option Char)

/-! ## References -/

def hexDigit? (c : Char) : Option ℕ :=
  if '0' ≤ c ∧ c ≤ '9' then some (c.toNat - '0'.toNat)
  else if 'a' ≤ c ∧ c ≤ 'f' then some (c.toNat - 'a'.toNat + 10)
  else if 'A' ≤ c ∧ c ≤ 'F' then some (c.toNat - 'A'.toNat + 10)
  else none

/-- The number that the digits write in this base. -/
def number? (base : ℕ) (digits : Text) : Option ℕ :=
  if digits = [] then none
  else digits.foldlM (fun n c => (hexDigit? c).bind fun d =>
    if d < base then some (n * base + d) else none) 0

/-- The character with this number, where XML allows it. -/
def charRef? (n : ℕ) : Option Token :=
  let c := Char.ofNat n
  if c.toNat = n ∧ isChar c then some (.char c) else none

/-- What stands between `&` and `;`: a character reference, one of the five
entities that XML declares itself, or the name of another entity. -/
def expand (name : Text) : Option Token :=
  match name with
  | '#' :: 'x' :: digits => (number? 16 digits).bind charRef?
  | '#' :: digits => (number? 10 digits).bind charRef?
  | _ =>
      if name = ['l', 't'] then some (.char '<')
      else if name = ['g', 't'] then some (.char '>')
      else if name = ['a', 'm', 'p'] then some (.char '&')
      else if name = ['a', 'p', 'o', 's'] then some (.char '\'')
      else if name = ['q', 'u', 'o', 't'] then some (.char '"')
      else if isName name then some .skipped
      else none

/-! ## The prolog -/

/-- What follows a literal at the beginning of a text, if the text begins with
it. -/
def literal : Text → Text → Option Text
  | [], cs => some cs
  | w :: ws, c :: cs => if w = c then literal ws cs else none
  | _ :: _, [] => none

def spaces (cs : Text) : Text := cs.dropWhile isSpace

def spaces1 : Text → Option Text
  | [] => none
  | c :: cs => if isSpace c then some (spaces cs) else none

def quoted : Text → Option (Text × Text)
  | [] => none
  | q :: cs =>
      if q = '"' ∨ q = '\'' then
        match cs.dropWhile (· ≠ q) with
        | [] => none
        | _ :: rest => some (cs.takeWhile (· ≠ q), rest)
      else none

/-- A part `name="value"` of the declaration. -/
def declPart (name : Text) (ok : Text → Bool) (cs : Text) : Option (Text × Text) := do
  let cs ← spaces1 cs
  let cs ← literal name cs
  let cs ← literal ['='] (spaces cs)
  let (value, cs) ← quoted (spaces cs)
  if ok value then some (value, cs) else none

def isVersion : Text → Bool
  | '1' :: '.' :: digits => digits ≠ [] && digits.all isDigit
  | _ => false

def isEncoding : Text → Bool
  | [] => false
  | c :: cs => isLetter c && cs.all fun d => isLetter d || isDigit d || d ∈ ['.', '_', '-']

/-- The rest of an XML declaration: whether the document is standalone,
and what follows. -/
def decl (cs : Text) : Option (Bool × Text) := do
  let (_, cs) ← declPart "version".toList isVersion cs
  let cs := ((declPart "encoding".toList isEncoding cs).map Prod.snd).getD cs
  let (standalone, cs) :=
    (declPart "standalone".toList (fun v => v = "yes".toList ∨ v = "no".toList) cs).getD ([], cs)
  let cs ← literal ['?', '>'] (spaces cs)
  some (standalone = "yes".toList, cs)

/-- The document after its declaration, if it has one. -/
def afterDecl (doc : Text) : Option (Bool × Text) :=
  match literal "<?xml".toList doc with
  | some (c :: cs) => if isSpace c then decl (c :: cs) else some (false, doc)
  | _ => some (false, doc)

def isPubidChar (c : Char) : Bool :=
  isLetter c || isDigit c || c ∈ " \n-'()+,./:=?;!*#@$_%".toList

/-- What stands between `<!DOCTYPE` and `>`: whether there is an external
subset. -/
def doctype? (text : Text) : Option Bool := do
  let cs ← spaces1 text
  let name := cs.takeWhile isNameChar
  if isName name then
    let cs := cs.dropWhile isNameChar
    if spaces cs = [] then some false
    else
      let cs ← spaces1 cs
      match literal "SYSTEM".toList cs, literal "PUBLIC".toList cs with
      | some cs, _ =>
          let (_, cs) ← quoted (← spaces1 cs)
          if spaces cs = [] then some true else none
      | none, some cs =>
          let (pubid, cs) ← quoted (← spaces1 cs)
          let (_, cs) ← quoted (← spaces1 cs)
          if pubid.all isPubidChar ∧ spaces cs = [] then some true else none
      | none, none => none
  else none

/-! ## The tokenizer -/

/-- In a start tag, after its name, an attribute or white space. -/
def lexTag (tag : Tag) (space : Bool) (c : Char) : Option (Mode × List Token) :=
  if isSpace c then some (.tagSpace tag, [])
  else if c = '>' then some (.content 0, [.openTag tag])
  else if c = '/' then some (.tagSlash tag, [])
  else if space && isNameStart c then some (.attrName tag [c], [])
  else none

/-- The target of a processing instruction; `xml` is reserved. -/
def isTarget (name : Text) : Bool := name ≠ [] && name.map Char.toLower ≠ ['x', 'm', 'l']

/-- One character in each mode: the next mode, and the tokens that are complete
with it. In content `]]>` is not allowed. -/
def lex : Mode → Char → Option (Mode × List Token)
  | .content n, c =>
      if c = '<' then some (.markup, [])
      else if c = '&' then some (.reference [], [.inside])
      else if c = '>' && n = 2 then none
      else
        some (.content (if c = ']' then min (n + 1) 2 else 0),
          [if isSpace c then .white c else .char c])
  | .reference name, c =>
      if c = ';' then (expand name).map fun token => (.content 0, [token])
      else if isNameChar c || c = '#' then some (.reference (name ++ [c]), [])
      else none
  | .markup, c =>
      if c = '/' then some (.closeName [], [])
      else if c = '!' then some (.bang, [])
      else if c = '?' then some (.piTarget [], [])
      else if isNameStart c then some (.tagName [c], [])
      else none
  | .tagName name, c =>
      if isNameChar c then some (.tagName (name ++ [c]), []) else lexTag ⟨name, []⟩ false c
  | .tagSpace tag, c => lexTag tag true c
  | .attrName tag attr, c =>
      if isNameChar c then some (.attrName tag (attr ++ [c]), [])
      else if c = '=' then some (.attrQuote tag attr, [])
      else if isSpace c then some (.attrEq tag attr, [])
      else none
  | .attrEq tag attr, c =>
      if isSpace c then some (.attrEq tag attr, [])
      else if c = '=' then some (.attrQuote tag attr, [])
      else none
  | .attrQuote tag attr, c =>
      if isSpace c then some (.attrQuote tag attr, [])
      else if c = '"' || c = '\'' then some (.attrValue tag attr c [], [])
      else none
  | .attrValue tag attr quote value, c =>
      if c = quote then
        if attr ∈ tag.attrs.map Prod.fst then none
        else some (.attrEnd { tag with attrs := tag.attrs ++ [(attr, value)] }, [])
      else if c = '<' then none
      else if c = '&' then some (.attrRef tag attr quote value [], [])
      else some (.attrValue tag attr quote (value ++ [if isSpace c then ' ' else c]), [])
  | .attrRef tag attr quote value name, c =>
      if c = ';' then
        match expand name with
        | some (.char d) => some (.attrValue tag attr quote (value ++ [d]), [])
        | some token => some (.attrValue tag attr quote value, [token])
        | none => none
      else if isNameChar c || c = '#' then some (.attrRef tag attr quote value (name ++ [c]), [])
      else none
  | .attrEnd tag, c => lexTag tag false c
  | .tagSlash tag, c => if c = '>' then some (.content 0, [.emptyTag tag]) else none
  | .closeName name, c =>
      if isName (name ++ [c]) then some (.closeName (name ++ [c]), [])
      else if name = [] then none
      else if isSpace c then some (.closeSpace name, [])
      else if c = '>' then some (.content 0, [.closeTag name])
      else none
  | .closeSpace name, c =>
      if isSpace c then some (.closeSpace name, [])
      else if c = '>' then some (.content 0, [.closeTag name])
      else none
  | .bang, c =>
      if c = '-' then some (.dash, [])
      else if c = '[' then some (.cdataStart ['C', 'D', 'A', 'T', 'A', '['], [.inside])
      else if c = 'D' then some (.doctypeStart ['O', 'C', 'T', 'Y', 'P', 'E'], [])
      else none
  | .dash, c => if c = '-' then some (.comment 0, []) else none
  | .comment n, c =>
      if n = 2 then if c = '>' then some (.content 0, []) else none
      else some (.comment (if c = '-' then n + 1 else 0), [])
  | .cdataStart rest, c =>
      match rest with
      | [d] => if c = d then some (.cdata [], []) else none
      | d :: rest => if c = d then some (.cdataStart rest, []) else none
      | [] => none
  | .cdata text, c =>
      if c = '>' ∧ [']', ']'] <:+ text then
        some (.content 0, (text.take (text.length - 2)).map .char)
      else some (.cdata (text ++ [c]), [])
  | .piTarget name, c =>
      if isName (name ++ [c]) then some (.piTarget (name ++ [c]), [])
      else if !isTarget name then none
      else if isSpace c then some (.pi false, [])
      else if c = '?' then some (.piEnd, [])
      else none
  | .piEnd, c => if c = '>' then some (.content 0, []) else none
  | .pi question, c =>
      if question && c = '>' then some (.content 0, []) else some (.pi (c = '?'), [])
  | .doctypeStart rest, c =>
      match rest with
      | [d] => if c = d then some (.doctype [] none, []) else none
      | d :: rest => if c = d then some (.doctypeStart rest, []) else none
      | [] => none
  | .doctype text quote, c =>
      match quote with
      | some q => some (.doctype (text ++ [c]) (if c = q then none else some q), [])
      | none =>
          if c = '>' then (doctype? text).map fun external => (.content 0, [.doctype external])
          else if c = '[' then none
          else some (.doctype (text ++ [c]) (if c = '"' || c = '\'' then some c else none), [])

/-! ## The tree builder -/

/-- An element whose end tag has not been read, with the children that it has
so far. -/
structure Frame where
  name : Text
  attrs : List (Text × Text)
  children : List Node

/-- The open elements, innermost first, and what else has been read. -/
structure Doc where
  stack : List Frame
  root : Option Node
  /-- The document type declaration, and whether it has an external subset
  that may declare entities. -/
  doctype : Option Bool
  standalone : Bool

namespace Doc

/-- A node at the current place: in the innermost open element, or as the root
if there is none. -/
def add (n : Node) (d : Doc) : Option Doc :=
  match d.stack with
  | [] => if d.root.isNone then some { d with root := some n } else none
  | f :: fs => some { d with stack := { f with children := f.children ++ [n] } :: fs }

/-- What a token does to the tree. Outside of the root there is only white
space, markup has to match, and an entity may be skipped only where an external
subset could declare it. -/
def take (d : Doc) : Token → Option Doc
  | .white c => if d.stack.isEmpty then some d else d.add (.char c)
  | .char c => if d.stack.isEmpty then none else d.add (.char c)
  | .skipped => if d.doctype = some true ∧ !d.standalone then some d else none
  | .inside => if d.stack.isEmpty then none else some d
  | .doctype external =>
      if d.stack.isEmpty && d.root.isNone && d.doctype.isNone then
        some { d with doctype := some external }
      else none
  | .openTag tag =>
      if d.stack.isEmpty && d.root.isSome then none
      else some { d with stack := ⟨tag.name, tag.attrs, []⟩ :: d.stack }
  | .emptyTag tag => d.add (.element tag.name tag.attrs [])
  | .closeTag name =>
      match d.stack with
      | [] => none
      | f :: fs =>
          if f.name = name then { d with stack := fs }.add (.element f.name f.attrs f.children)
          else none

end Doc

/-! ## The parser -/

/-- Line ends are normalized before anything else is done. -/
def eol : Text → Text
  | [] => []
  | '\r' :: '\n' :: cs => '\n' :: eol cs
  | c :: cs => (if c = '\r' then '\n' else c) :: eol cs

structure State where
  mode : Mode
  doc : Doc

def step (s : State) (c : Char) : Option State :=
  if isChar c then do
    let (mode, tokens) ← lex s.mode c
    let doc ← tokens.foldlM Doc.take s.doc
    some { mode := mode, doc := doc }
  else none

def start (standalone : Bool) : State where
  mode := .content 0
  doc := { stack := [], root := none, doctype := none, standalone := standalone }

/-- The root, at the end of the document: nothing may be open any more. -/
def finish (s : State) : Option Node :=
  match s.mode, s.doc.stack with
  | .content _, [] => s.doc.root
  | _, _ => none

/-- The root element of a well-formed document, and nothing for any other text.
-/
def parse (document : Text) : Option Node := do
  let (standalone, body) ← afterDecl (eol document)
  let s ← Runs.run step (start standalone) body
  finish s

/-- A step hands one character to the tokenizer, and what comes of it to the
tree builder. -/
theorem step_eq {s s' : State} {c : Char} (h : step s c = some s') :
    ∃ ts, lex s.mode c = some (s'.mode, ts) ∧ ts.foldlM Doc.take s.doc = some s'.doc := by
  unfold step at h
  split at h
  · simp only [Option.bind_eq_bind, Option.bind_eq_some_iff] at h
    obtain ⟨⟨m, ts⟩, hlex, d, hdoc, heq⟩ := h
    obtain rfl := Option.some.inj heq
    exact ⟨ts, hlex, hdoc⟩
  · cases h

theorem take_single {t : Token} {d d' : Doc} (h : [t].foldlM Doc.take d = some d') :
    d.take t = some d' := by
  simpa using h

end Xml
