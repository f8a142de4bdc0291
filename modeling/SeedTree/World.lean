import SeedTree.Number.Shortest
import SeedTree.Stream.Derivation
import SeedTree.Stream.Draw
import SeedTree.Text.Blank

/- Worlds are views of the tree. The primary world shows every node; a named world shows each node
   with the probability its table gives, decided by a draw keyed by the node and the world. -/
namespace SeedTree

inductive World where
  | primary
  | named (name : String)
  deriving DecidableEq, Repr

namespace World

def primaryName : String := "primary"

def name : World → String
  | primary => primaryName
  | named name => name

end World

inductive WorldFault where
  | blankName
  | primaryListed
  | probability (name : String) (value : Binary64)
  | unknown (name : String) (known : List String)
  | unconfigured (name : String)
  deriving DecidableEq, Repr

def WorldFault.message : WorldFault → String
  | .blankName => "secondary world names cannot be empty"
  | .primaryListed => "'primary' is implicit and cannot be listed in secondary_tables"
  | .probability name value =>
    "probability for world '" ++ name ++ "' must be within [0.0, 1.0], got " ++ value.plainText
  | .unknown name known =>
    "world '" ++ name ++ "' not found (available: " ++ String.intercalate ", " known ++ ")"
  | .unconfigured name => "world '" ++ name ++ "' is not configured"

/-- The number between zero and one that decides about a node in a world, in units of 2^-53. Node
identities already depend on the seed. -/
def worldDraw (id : NodeId) (world : String) : Nat :=
  match Draw.unit53 (ChaCha.words (derive .existence 0 [id.bytes, utf8 world])) 0 with
  | some (n, _) => n
  | none => 0

def existsIn (id : NodeId) (world : String) (probability : Binary64) : Bool :=
  probability.exceeds (worldDraw id world) 53

structure WorldTable where
  entries : NameMap Binary64

namespace WorldTable

def entryFault? (name : String) (probability : Binary64) : Option WorldFault :=
  if Text.trim name = "" then some .blankName
  else if name = World.primaryName then some .primaryListed
  else if !probability.inUnitInterval then some (.probability name probability)
  else none

/-- Accepts a table without faulty entries; otherwise tells the first fault in name order. -/
def ofEntries (entries : NameMap Binary64) : Except WorldFault WorldTable :=
  match entries.toList.findSome? fun entry => entryFault? entry.1 entry.2 with
  | some fault => throw fault
  | none => return ⟨entries⟩

def names (t : WorldTable) : List String := World.primaryName :: t.entries.names

def resolve (t : WorldTable) (name : String) : Except WorldFault World :=
  if name = World.primaryName then return .primary
  else if t.entries.contains name then return .named name
  else throw (.unknown name t.names)

def check (t : WorldTable) (world : World) : Except WorldFault Unit := do
  discard (t.resolve world.name)

def probability? (t : WorldTable) : World → Option Binary64
  | .primary => some (.ofNat 1)
  | .named name => t.entries[name]?

def decideAll (t : WorldTable) (id : NodeId) : NameMap Bool :=
  t.entries.map fun name probability => existsIn id name probability

/-- The decisions about a node made by hand: present where it was made and absent elsewhere. -/
def onlyIn (t : WorldTable) (world : World) : NameMap Bool :=
  t.entries.map fun name _ => name = world.name

end WorldTable

end SeedTree
