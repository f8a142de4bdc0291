import SeedTree.Children
import SeedTree.Engine.Program

/- Resolving paths against a tree that is generated on the way. A walk expands every folder it
   passes: the folder's children are put into the store and the folder is marked, so the next walk
   only reads. -/
namespace SeedTree

structure Materializer where
  parameters : Parameters
  worlds : WorldTable

namespace Materializer

open Attempt

def nodeId (m : Materializer) (path : String) : NodeId := nodeIdOf m.parameters.seed path

def ensureRoot (m : Materializer) : Attempt Node := do
  let time ← now
  let (root, inserted) ← call (.putIfAbsent (Node.root (m.nodeId Path.root) time))
  if inserted then tell .rootMaterialized
  return root

def generatedChild (m : Materializer) (folder : Node) (time : Moment) (spec : ChildSpec) : Node :=
  let id := m.nodeId (Path.join folder.path spec.name)
  Node.child id folder spec.name spec.kind (m.worlds.decideAll id) time

/-- Puts the children of a folder into the store. The folder is read again first: it may have been
expanded or deleted since. -/
def expandLocked (m : Materializer) (path : String) : Attempt Unit := do
  let folder ← getOr path (.missing path)
  if folder.generated then tell .alreadyExpanded
  else
    match Children.generate? Draw.patience m.parameters folder.path folder.depth with
    | none => throw (.unending folder.path)
    | some specs =>
      let time ← now
      specs.forM fun spec => discard (call (.putIfAbsent (m.generatedChild folder time spec)))
      discard (call (.change folder.path .markGenerated))
      tell .expanded

def expand (m : Materializer) (folder : Node) : Attempt Unit :=
  if folder.generated then return ()
  else withLock folder.path (m.expandLocked folder.path)

/-- Whether a node is visible in a world. A world that the node has no decision about decides now,
and the decision is kept. -/
def isVisible (m : Materializer) (n : Node) (world : World) : Attempt Bool :=
  match n.decision? world, world with
  | some decided, _ => return decided
  | none, .primary => return true
  | none, .named name =>
    match m.worlds.probability? world with
    | none => throw (.invalidConfig (.world (.unconfigured name)))
    | some probability => do
      let drawn := existsIn n.id name probability
      let kept ← call (.change n.path (.decision name drawn))
      tell .backfilled
      return ((kept.bind fun n => n.existence[name]?).getD drawn)

def descend (m : Materializer) (world : World) : List String → Node → Attempt Node
  | [], here => return here
  | name :: more, here =>
    if !here.isFolder then throw (.notADirectory here.path)
    else do
      m.expand here
      let path := Path.join here.path name
      let child ← getOr path (.missing path)
      if ← m.isVisible child world then descend m world more child
      else
        tell .hidden
        throw (.missing path)

/-- The node at a normalized path. A file on the way is no folder; what was never generated, was
deleted or is hidden in the world is not found. -/
def resolve (m : Materializer) (path : String) (world : World) : Attempt Node := do
  let root ← getOr Path.root (.missing Path.root)
  m.descend world (Path.components path) root

def resolveFolder (m : Materializer) (path : String) (world : World) : Attempt Node := do
  let n ← m.resolve path world
  if n.isFolder then return n else throw (.notADirectory n.path)

def visibleOf (m : Materializer) (world : World) : List Node → Attempt (List Node)
  | [] => return []
  | n :: more => do
    let visible ← m.isVisible n world
    let rest ← visibleOf m world more
    return if visible then n :: rest else rest

def list (m : Materializer) (path : String) (world : World) : Attempt (List Node) := do
  let folder ← m.resolve path world
  if !folder.isFolder then throw (.notFound (.folder folder.path))
  else
    m.expand folder
    let children ← call (.listChildren folder.path)
    m.visibleOf world children

end Materializer

end SeedTree
