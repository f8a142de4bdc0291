import SeedTree.Content
import SeedTree.Moment
import SeedTree.Path
import SeedTree.World

/- Nodes of the tree, as they are kept once they have been generated or made by hand. -/
namespace SeedTree

inductive NodeKind where
  | folder
  | file
  deriving DecidableEq, Repr

def NodeKind.text : NodeKind → String
  | folder => "folder"
  | file => "file"

def NodeKind.size : NodeKind → UInt64
  | folder => 0
  | file => UInt64.ofNat fileSize

structure Node where
  id : NodeId
  path : String
  name : String
  /-- The path of the folder it lies in; the root has none. -/
  parent : Option String
  depth : UInt32
  kind : NodeKind
  size : UInt64
  /-- The checksum of what a file serves, once it is known. -/
  checksum : Option String
  updated : Moment
  /-- The decisions of named worlds that have been made so far. -/
  existence : NameMap Bool
  /-- Whether a folder's children have been generated. -/
  generated : Bool
  /-- The digest of the last upload. -/
  upload : Option Digest

namespace Node

def root (id : NodeId) (now : Moment) : Node where
  id := id
  path := Path.root
  name := ""
  parent := none
  depth := 0
  kind := .folder
  size := 0
  checksum := none
  updated := now
  existence := ∅
  generated := false
  upload := none

def child (id : NodeId) (folder : Node) (name : String) (kind : NodeKind)
    (existence : NameMap Bool) (now : Moment) : Node where
  id := id
  path := Path.join folder.path name
  name := name
  parent := some folder.path
  depth := folder.depth + 1
  kind := kind
  size := kind.size
  checksum := none
  updated := now
  existence := existence
  generated := false
  upload := none

def isFolder (n : Node) : Bool := n.kind = .folder
def isFile (n : Node) : Bool := n.kind = .file
def isRoot (n : Node) : Bool := n.parent.isNone

/-- The decision on record about a world; none if it has not been made. -/
def decision? (n : Node) : World → Option Bool
  | .primary => some true
  | .named world => if n.isRoot then some true else n.existence[world]?

/-- Visible by the decisions on record; an open one counts as hidden. -/
def visibleIn (n : Node) (world : World) : Bool := (n.decision? world).getD false

end Node

end SeedTree
