import SeedTree.Bytes.Utf8
import SeedTree.Bytes.Words
import SeedTree.Node

/- The stored form of a node: fixed-width little-endian numbers, a length before every text, a tag
   before every optional field. -/
namespace SeedTree.Record

def textField (s : String) : Bytes :=
  let bytes := utf8 s
  Bytes.little 8 bytes.length ++ bytes

def boolField (b : Bool) : Bytes := [if b then 1 else 0]

def optionalField {α : Type} (write : α → Bytes) : Option α → Bytes
  | none => [0]
  | some a => 1 :: write a

def kindField : NodeKind → Bytes
  | .folder => Bytes.little 4 0
  | .file => Bytes.little 4 1

def decisionField (entry : String × Bool) : Bytes := textField entry.1 ++ boolField entry.2

def decisionsField (m : NameMap Bool) : Bytes :=
  Bytes.little 8 m.size ++ m.toList.flatMap decisionField

def encode (n : Node) : Bytes :=
  n.id.bytes ++ textField n.path ++ textField n.name ++ optionalField textField n.parent
    ++ Bytes.le32 n.depth ++ kindField n.kind ++ Bytes.le64 n.size
    ++ optionalField textField n.checksum ++ textField n.updated.toText
    ++ decisionsField n.existence ++ boolField n.generated
    ++ optionalField Digest.bytes n.upload

/-- A reader takes a value off the front of a byte string and leaves the rest. -/
def Reader (α : Type) := Bytes → Option (α × Bytes)

namespace Reader

def pure {α : Type} (a : α) : Reader α := fun bs => some (a, bs)

def bind {α β : Type} (r : Reader α) (f : α → Reader β) : Reader β := fun bs =>
  match r bs with
  | none => none
  | some (a, rest) => f a rest

instance : Monad Reader where
  pure := pure
  bind := bind

def ofOption {α : Type} (a : Option α) : Reader α := fun bs => a.map fun a => (a, bs)

def take (count : Nat) : Reader Bytes := fun bs =>
  if bs.length < count then none else some (bs.take count, bs.drop count)

def byte : Reader UInt8
  | [] => none
  | b :: rest => some (b, rest)

def number (width : Nat) : Reader Nat := do
  let bytes ← take width
  return Bytes.ofLittle bytes

def text : Reader String := do
  let length ← number 8
  let bytes ← take length
  ofOption bytes.toText?

def bool : Reader Bool := do
  let b ← byte
  if b = 0 then return false
  else if b = 1 then return true
  else ofOption none

def optional {α : Type} (r : Reader α) : Reader (Option α) := do
  if ← bool then
    let a ← r
    return some a
  else return none

def digest : Reader Digest := do
  let bytes ← take 32
  ofOption (Digest.ofBytes? bytes)

def kind : Reader NodeKind := do
  let tag ← number 4
  if tag = 0 then return .folder
  else if tag = 1 then return .file
  else ofOption none

def moment : Reader Moment := do
  let s ← text
  ofOption (Moment.read? s)

def decisions : Nat → NameMap Bool → Reader (NameMap Bool)
  | 0, m => return m
  | count + 1, m => do
    let world ← text
    let present ← bool
    decisions count (m.insert world present)

def node : Reader Node := do
  let id ← digest
  let path ← text
  let name ← text
  let parent ← optional text
  let depth ← number 4
  let kind ← kind
  let size ← number 8
  let checksum ← optional text
  let updated ← moment
  let count ← number 8
  let existence ← decisions count ∅
  let generated ← bool
  let upload ← optional digest
  return { id, path, name, parent, depth := UInt32.ofNat depth, kind, size := UInt64.ofNat size,
           checksum, updated, existence, generated, upload }

end Reader

/-- The node a byte string begins with; bytes after it do not matter. -/
def decode? (bs : Bytes) : Option Node := (Reader.node bs).map Prod.fst

end SeedTree.Record
