import Resources.Xml

/-!
# `DataProxy.generateArchive`

The archive document is written by putting a record's fields between the
pieces of a template, with no escaping. `RoundTrips` is what an archive is
for: an XML processor finds one `item` for each record, with the record's
fields where `sample-archive.xml` has them.

What `writeFile` strips from the document afterwards is in
`Resources.ArchiveWrite`.
-/

namespace Resources

namespace DataProxy

open Xml (Text Node)

/-- A row of the spreadsheet as the tool keeps it, of which the archive has one
`item`. -/
structure ArchiveObject where
  types : String
  id : String
  filename : String
  title : String
  date : String
  description : String
  transcript : String
  asset_details : String
  exhibitions : String
deriving Repr, DecidableEq

/-- One round of the loop, with its statements in their order: the fields stand
between the pieces of the template just as they are. -/
def appendItem (supertext : String) (chunk : ArchiveObject) : String :=
  let supertext := supertext ++ "<item id=\"" ++ chunk.id ++ "\" filename=\"" ++ chunk.filename
    ++ "\">\n"
  let supertext := supertext ++ "<title><![CDATA[<strong>" ++ chunk.title ++ "</strong>, "
    ++ chunk.date ++ "]]></title>"
  let supertext := supertext ++ "<description>\n"
  let supertext := supertext ++ "<![CDATA[\n"
  let supertext := supertext ++ chunk.description
  let supertext := supertext ++ "]]>\n"
  let supertext := supertext ++ "</description>\n"
  let supertext := supertext ++ "<transcript>\n<![CDATA["
  let supertext := supertext ++ chunk.transcript
  let supertext := supertext ++ "]]></transcript>\n"
  let supertext := supertext ++ "<asset-details>\n"
  let supertext := supertext ++ "<![CDATA[\n"
  let supertext := supertext ++ chunk.asset_details
  let supertext := supertext ++ "]]>\n"
  let supertext := supertext ++ "</asset-details>\n"
  let supertext := supertext ++ "<exhibitions>\n"
  let supertext := supertext ++ "<exhibition ref=\"" ++ chunk.exhibitions ++ " \" />\n"
  let supertext := supertext ++ "</exhibitions>\n"
  let supertext := supertext ++ "<types>\n"
  let supertext := supertext ++ "<type ref=\"" ++ chunk.types ++ "\"/>\n"
  let supertext := supertext ++ "</types>\n"
  let supertext := supertext ++ "</item>\n"
  supertext ++ "\n"

/-- The document that is handed to `writeFile`: declaration, document type, and
the items in an `archive`. -/
def generateArchive (dat : List ArchiveObject) : String :=
  let supertext := "<?xml version=\"1.0\" encoding=\"UTF-8\"?>\n"
  let supertext := supertext
    ++ "<!DOCTYPE archive SYSTEM \"http://www.thamtech.com/dtds/usdc-archive.dtd\">"
  let supertext := supertext ++ "<archive>\n"
  let supertext := dat.foldl appendItem supertext
  supertext ++ "</archive>"

/-! ## What an archive is for -/

def elements (name : String) (ns : List Node) : List Node :=
  ns.filter fun
    | .element n _ _ => n = name.toList
    | .char _ => false

def attr (key : String) : Node → Option Text
  | .element _ attrs _ => attrs.lookup key.toList
  | .char _ => none

def children : Node → List Node
  | .element _ _ kids => kids
  | .char _ => []

/-- The `ref` attributes of the elements `inner` in the elements `outer`. -/
def refs (outer inner : String) (item : Node) : List (Option Text) :=
  (((elements outer (children item)).flatMap children) |> elements inner).map (attr "ref")

/-- What stands in the elements of this name, one list of nodes for each of
them. -/
def contents (name : String) (item : Node) : List (List Node) :=
  (elements name (children item)).map children

/-- Nothing but this text, between the line breaks of the template. -/
def data (before : String) (field : String) (after : String) : List Node :=
  (before ++ field ++ after).toList.map .char

/-- The element says what the record says: each field stands where
`sample-archive.xml` has it, and nothing else stands there. -/
structure Matches (chunk : ArchiveObject) (item : Node) : Prop where
  id : attr "id" item = some chunk.id.toList
  filename : attr "filename" item = some chunk.filename.toList
  description : contents "description" item = [data "\n\n" chunk.description "\n"]
  transcript : contents "transcript" item = [data "\n" chunk.transcript ""]
  asset_details : contents "asset-details" item = [data "\n\n" chunk.asset_details "\n"]
  exhibitions : refs "exhibitions" "exhibition" item = [some chunk.exhibitions.toList]
  types : refs "types" "type" item = [some chunk.types.toList]

/-- The document is well formed and has one `item` for each record, which says
what the record says. -/
def RoundTrips (dat : List ArchiveObject) : Prop :=
  ∃ root, Xml.parse (generateArchive dat).toList = some root ∧
    List.Forall₂ Matches dat (elements "item" (children root))

end DataProxy

end Resources
