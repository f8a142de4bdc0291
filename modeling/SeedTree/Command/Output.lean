import SeedTree.Bytes.Dump
import SeedTree.Document.Json.Pretty
import SeedTree.Node
import SeedTree.Text.Table

/- What commands print about nodes and worlds: tables, or documents when `json` is asked for. -/
namespace SeedTree

/-- The format that asks for a document; every other name asks for a table. -/
def documentFormat : String := "json"

namespace Node

def shortId (n : Node) : String := String.ofList (n.id.toHex.toList.take 12)

def sizeText (n : Node) : String := Decimal.natText n.size.toNat

def document (n : Node) : Value :=
  .table
    [("checksum", (n.checksum.map Value.text).getD .null),
      ("depth", .int n.depth.toNat),
      ("existence", .table (n.existence.toList.map fun (world, b) => (world, .bool b))),
      ("last_updated", .text n.updated.toOffsetText),
      ("name", .text n.name),
      ("node_id", .text n.id.toHex),
      ("path", .text n.path),
      ("size", .int n.size.toNat),
      ("type", .text n.kind.text)]

/-- The worlds that a node is known to be in, primary first. -/
def worldsShown (t : WorldTable) (n : Node) : List String :=
  t.names.filter fun name => name = World.primaryName || (n.existence[name]?).getD false

def tableRow (n : Node) : List String := [n.name, n.kind.text, n.sizeText, n.shortId]

def tableHead : List String := ["Name", "Type", "Size", "Node ID"]

def fieldRows (t : WorldTable) (n : Node) : List (List String) :=
  [["Path", n.path], ["Node ID", n.id.toHex], ["Type", n.kind.text],
    ["Depth", Decimal.natText n.depth.toNat], ["Size", n.sizeText],
    ["Checksum", n.checksum.getD "-"], ["Last updated", n.updated.toOffsetText],
    ["Worlds", String.intercalate ", " (worldsShown t n)]]

def fieldsText (t : WorldTable) (n : Node) (format : String) : String :=
  if format = documentFormat then Json.pretty n.document
  else Table.text Table.grid ["Field", "Value"] (fieldRows t n)

def childrenText (folder : String) (world : World) (children : List Node) (format : String) :
    String :=
  if format = documentFormat then Json.pretty (.list (children.map document))
  else if children.isEmpty then folder ++ " is empty in world " ++ world.name
  else Table.text Table.borders tableHead (children.map tableRow)

def treeLine (level : Nat) (n : Node) : String :=
  String.ofList (List.replicate (2 * level) ' ') ++ if n.isFolder then n.name ++ "/" else n.name

end Node

namespace WorldTable

def listed (t : WorldTable) : List (String × Binary64) :=
  t.names.map fun name => (name, (t.entries[name]?).getD (.ofNat 1))

def text (t : WorldTable) (selected : World) (format : String) : String :=
  if format = documentFormat then
    Json.pretty (.list (t.listed.map fun (name, p) =>
      .table [("name", .text name), ("probability", .float p)]))
  else
    Table.text Table.borders ["World", "Probability", "Selected"]
      (t.listed.map fun (name, p) => [name, p.twoPlaces, if name = selected.name then "*" else ""])

end WorldTable

end SeedTree
