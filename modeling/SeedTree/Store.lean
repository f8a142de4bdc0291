import SeedTree.Node.Record
import SeedTree.Store.Fault

/- The store of materialized nodes: records by path, an index of children by folder and name, an
   index of paths by identity, and marks. A child's index key is its folder's path, a NUL and its
   name, so the children of a folder stand together in name order. -/
namespace SeedTree

structure Store where
  nodes : ByteMap Bytes
  children : ByteMap Bytes
  ids : ByteMap Bytes
  marks : ByteMap Bytes

namespace Store

def empty : Store := ⟨∅, ∅, ∅, ∅⟩

def childStart (folder : String) : Bytes := utf8 folder ++ [0]

def childKey (folder name : String) : Bytes := childStart folder ++ utf8 name

def fingerprintKey : Bytes := utf8 "seed_fingerprint"

def decode (record : Bytes) : Except StoreFault Node :=
  match Record.decode? record with
  | some n => return n
  | none => throw .codec

def get (s : Store) (path : String) : Except StoreFault (Option Node) :=
  match s.nodes[utf8 path]? with
  | some record => some <$> decode record
  | none => return none

def getById (s : Store) (id : NodeId) : Except StoreFault (Option Node) :=
  match s.ids[id.bytes]? with
  | none => return none
  | some entry =>
    match entry.toText with
    | .ok path => s.get path
    | .error fault => throw (.idEntry fault)

/-- Where a node stands in the child index; the root stands nowhere. -/
def indexKey? (n : Node) : Option Bytes := n.parent.map fun folder => childKey folder n.name

def insertNode (s : Store) (n : Node) : Store where
  nodes := s.nodes.insert (utf8 n.path) (Record.encode n)
  children :=
    match indexKey? n with
    | some key => s.children.insert key []
    | none => s.children
  ids := s.ids.insert n.id.bytes (utf8 n.path)
  marks := s.marks

/-- Inserts a node unless its path has a record. Answers the record that is there now and whether
this call inserted it. -/
def putIfAbsent (s : Store) (n : Node) : Except StoreFault (Node × Bool) × Store :=
  match s.nodes[utf8 n.path]? with
  | some record => ((decode record).map fun kept => (kept, false), s)
  | none => (.ok (n, true), s.insertNode n)

def childNames (s : Store) (folder : String) : List Bytes :=
  let start := childStart folder
  (s.children.startingWith start).map fun entry => entry.1.drop start.length

def childRecord (s : Store) (folder : String) (name : Bytes) :
    Except StoreFault (Option Node) :=
  match name.toText with
  | .ok name => s.get (Path.join folder name)
  | .error fault => throw (.childEntry fault)

/-- The records of a folder's children in name order; an index entry without a record is passed
over. -/
def listChildren (s : Store) (folder : String) : Except StoreFault (List Node) := do
  let found ← (s.childNames folder).mapM (s.childRecord folder)
  return found.filterMap id

def orphansAmong (s : Store) (folder : String) : List Bytes → Nat
  | [] => 0
  | name :: more =>
    match s.childRecord folder name with
    | .error _ => 0
    | .ok none => 1 + s.orphansAmong folder more
    | .ok (some _) => s.orphansAmong folder more

def orphans (s : Store) (folder : String) : Nat := s.orphansAmong folder (s.childNames folder)

def hasChildren (s : Store) (folder : String) : Bool := !(s.childNames folder).isEmpty

def eraseNode (s : Store) (path : String) (n : Node) : Store where
  nodes := s.nodes.erase (utf8 path)
  children :=
    match indexKey? n with
    | some key => s.children.erase key
    | none => s.children
  ids := s.ids.erase n.id.bytes
  marks := s.marks

def delete (s : Store) (path : String) : Except StoreFault Bool × Store :=
  match s.get path with
  | .error fault => (.error fault, s)
  | .ok none => (.ok false, s)
  | .ok (some n) => (.ok true, s.eraseNode path n)

/-- Changes the record at a path. A change of `none` leaves it as it is; the answer is the record as
it then stands. -/
def update (s : Store) (path : String) (change : Node → Option Node) :
    Except StoreFault (Option Node) × Store :=
  match s.get path with
  | .error fault => (.error fault, s)
  | .ok none => (.ok none, s)
  | .ok (some n) =>
    match change n with
    | none => (.ok (some n), s)
    | some changed =>
      (.ok (some changed), { s with nodes := s.nodes.insert (utf8 path) (Record.encode changed) })

/-- Single-record changes; each answers nothing where there is nothing to do. -/
inductive Change where
  | markGenerated
  /-- An upload: its digest, and no checksum until one is computed. -/
  | content (upload : Digest) (now : Moment)
  /-- A checksum, unless the content it was computed for has since been replaced. -/
  | checksum (text : String) (computedFor : Option Digest)
  /-- A decision that stands once it is made. -/
  | decision (world : String) (present : Bool)
  /-- A decision that replaces an earlier one. -/
  | redecision (world : String) (present : Bool)

def Change.apply : Change → Node → Option Node
  | .markGenerated, n => if n.generated then none else some { n with generated := true }
  | .content upload now, n =>
    some { n with upload := some upload, checksum := none, updated := now }
  | .checksum text computedFor, n =>
    if n.upload ≠ computedFor ∨ n.checksum = some text then none
    else some { n with checksum := some text }
  | .decision world present, n =>
    if n.existence.contains world then none
    else some { n with existence := n.existence.insert world present }
  | .redecision world present, n =>
    if n.existence[world]? = some present then none
    else some { n with existence := n.existence.insert world present }

/-- Leaves a fingerprint on first use; false if a different one is there. -/
def ensureFingerprint (s : Store) (fingerprint : Digest) : Bool × Store :=
  match s.marks[fingerprintKey]? with
  | none => (true, { s with marks := s.marks.insert fingerprintKey fingerprint.bytes })
  | some kept => (kept = fingerprint.bytes, s)

def count (s : Store) : Nat := s.nodes.size

def getVisible (s : Store) (path : String) (world : World) : Except StoreFault (Option Node) :=
  (s.get path).map fun found => found.filter (·.visibleIn world)

def listVisible (s : Store) (folder : String) (world : World) : Except StoreFault (List Node) :=
  (s.listChildren folder).map fun found => found.filter (·.visibleIn world)

inductive Section where
  | nodes
  | children
  | ids
  | marks
  deriving DecidableEq, Repr

def contents (s : Store) : Section → ByteMap Bytes
  | .nodes => s.nodes
  | .children => s.children
  | .ids => s.ids
  | .marks => s.marks

def withContents (s : Store) (m : ByteMap Bytes) : Section → Store
  | .nodes => { s with nodes := m }
  | .children => { s with children := m }
  | .ids => { s with ids := m }
  | .marks => { s with marks := m }

inductive Call where
  | get (path : String)
  | getById (id : NodeId)
  | putIfAbsent (node : Node)
  | listChildren (folder : String)
  | hasChildren (folder : String)
  | delete (path : String)
  | change (path : String) (change : Change)
  | ensureFingerprint (fingerprint : Digest)
  | count

abbrev Call.Answer : Call → Type
  | .get _ => Option Node
  | .getById _ => Option Node
  | .putIfAbsent _ => Node × Bool
  | .listChildren _ => List Node
  | .hasChildren _ => Bool
  | .delete _ => Bool
  | .change _ _ => Option Node
  | .ensureFingerprint _ => Bool
  | .count => Nat

def perform (s : Store) : (call : Call) → Except StoreFault call.Answer × Store
  | .get path => (s.get path, s)
  | .getById id => (s.getById id, s)
  | .putIfAbsent n => s.putIfAbsent n
  | .listChildren folder => (s.listChildren folder, s)
  | .hasChildren folder => (.ok (s.hasChildren folder), s)
  | .delete path => s.delete path
  | .change path change => s.update path change.apply
  | .ensureFingerprint fingerprint =>
    let (accepted, s) := s.ensureFingerprint fingerprint
    (.ok accepted, s)
  | .count => (.ok s.count, s)

end Store

end SeedTree
