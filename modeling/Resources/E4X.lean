import Mathlib.Data.List.Basic

/-!
# Documents as a script sees them

What a script gets when it reads an XML document by names: elements with
resolved names, the children of a name (`child`), and what becomes of a
list of nodes where a string is wanted (`toString`). A list with an
element in an element, or with several elements, has no simple content;
it is written out as markup, by a serializer that is a parameter here.
-/

namespace E4X

/-- A resolved name: the name space that its prefix stands for, and the name in
it. -/
structure QName where
  uri : String
  localName : String
deriving DecidableEq, Repr

/-- A node of a document. Comments and processing instructions are none, which
a script does not see by default. -/
inductive XML where
  | text (value : String)
  | element (name : QName) (attrs : List (QName × String)) (children : List XML)

/-- What a lookup by name gives is always a list, even of one node. -/
abbrev XMLList := List XML

namespace XML

def children : XML → XMLList
  | text _ => []
  | element _ _ kids => kids

def hasName (q : QName) : XML → Bool
  | text _ => false
  | element name _ _ => name = q

def isText : XML → Bool
  | text _ => true
  | element .. => false

def attr (q : QName) : XML → Option String
  | text _ => none
  | element _ attrs _ => attrs.lookup q

/-- The child elements of this name, in their order. -/
def child (x : XML) (q : QName) : XMLList := x.children.filter (hasName q)

def hasSimpleContent (x : XML) : Bool := x.children.all isText

end XML

namespace XMLList

def child (xs : XMLList) (q : QName) : XMLList := xs.flatMap (·.child q)

def text (xs : XMLList) : XMLList := xs.flatMap fun x => x.children.filter XML.isText

/-- A list of one node has simple content if that has it; any other list has it
if there is no element in it. -/
def hasSimpleContent : XMLList → Bool
  | [x] => x.hasSimpleContent
  | xs => xs.all XML.isText

/-- The characters of a text, or of the texts in an element. -/
def characters : XML → String
  | .text value => value
  | .element _ _ kids => String.join (kids.map fun
      | .text value => value
      | .element .. => "")

/-- The list where a string is wanted: its characters if it has simple content,
and otherwise its markup, which the parameter writes. -/
def toString (toXMLString : XMLList → String) (xs : XMLList) : String :=
  if hasSimpleContent xs then String.join (xs.map characters) else toXMLString xs

end XMLList

/-- A document, with the name spaces that its root declares. -/
structure Document where
  root : XML
  namespaces : List (String × String)

def Document.namespace (d : Document) (name : String) : Option String := d.namespaces.lookup name

end E4X
