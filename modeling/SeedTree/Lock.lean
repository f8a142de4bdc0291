import SeedTree.Text

/- Locks by path. The table holds a lock as long as somebody may be using it: whoever needs the lock
   of a path takes a handle on the one in the table, or puts a new one there, and the lock is
   removed when a section that used it ends and no handle is left. -/
namespace SeedTree

namespace Lock

/-- A lock in the table: which one it is, and how many handles on it are out. -/
structure Entry where
  identity : Nat
  handles : Nat
  deriving DecidableEq, Repr

structure Table where
  entries : NameMap Entry
  /-- The identity of the next new lock. -/
  next : Nat

namespace Table

def empty : Table := ⟨∅, 0⟩

def hold (t : Table) (path : String) : Nat × Table :=
  match t.entries[path]? with
  | some entry =>
    (entry.identity,
      { t with entries := t.entries.insert path { entry with handles := entry.handles + 1 } })
  | none => (t.next, ⟨t.entries.insert path ⟨t.next, 1⟩, t.next + 1⟩)

/-- Gives a handle back; the lock stays in the table. -/
def drop (t : Table) (path : String) : Table :=
  match t.entries[path]? with
  | some entry =>
    { t with entries := t.entries.insert path { entry with handles := entry.handles - 1 } }
  | none => t

def sweep (t : Table) (path : String) : Table :=
  match t.entries[path]? with
  | some entry => if entry.handles = 0 then { t with entries := t.entries.erase path } else t
  | none => t

def release (t : Table) (path : String) : Table := (t.drop path).sweep path

def size (t : Table) : Nat := t.entries.size

/-- Sections inside one another, outermost first: the size of the table inside each as it begins,
then after each as it ends. -/
def nested (t : Table) : List String → List Nat × Table
  | [] => ([], t)
  | path :: inner =>
    let (_, t) := t.hold path
    let (sizes, u) := nested t inner
    let u := u.release path
    (t.size :: sizes ++ [u.size], u)

end Table

end Lock

end SeedTree
