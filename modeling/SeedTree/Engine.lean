import SeedTree.Config
import SeedTree.Engine.Materializer

/- The operations on a tree. Each takes paths in any spelling and acts in one world. -/
namespace SeedTree

structure Engine where
  config : Config
  materializer : Materializer

namespace Engine

open Attempt (call now tell withLock fromPath fromWorld getOr outcome)

def fromConfig {α : Type} : Except ConfigFault α → Attempt α
  | .ok a => return a
  | .error fault => throw (.invalidConfig fault)

/-- Takes over a store: one that is new, or one whose tree has the same shape. -/
def start (config : Config) : Attempt Engine := do
  fromConfig config.check
  let accepted ← call (.ensureFingerprint config.parameters.fingerprint)
  if !accepted then throw (.invalidConfig .otherTree)
  else
    let worlds ← fromConfig config.worldTable
    let materializer : Materializer := ⟨config.parameters, worlds⟩
    discard materializer.ensureRoot
    tell .ready
    return ⟨config, materializer⟩

def worlds (e : Engine) : WorldTable := e.materializer.worlds

def world (e : Engine) (name : String) : Attempt World := fromWorld (e.worlds.resolve name)

def getNode (e : Engine) (path : String) (world : World) : Attempt Node := do
  fromWorld (e.worlds.check world)
  let path ← fromPath (Path.normalize path)
  e.materializer.resolve path world

def listChildren (e : Engine) (path : String) (world : World) : Attempt (List Node) := do
  fromWorld (e.worlds.check world)
  let path ← fromPath (Path.normalize path)
  e.materializer.list path world

/-- The record of a folder that is about to receive a child, after its own children have been
generated. -/
def openParent (e : Engine) (path : String) (world : World) : Attempt Node := do
  let path ← fromPath (Path.normalize path)
  let parent ← e.materializer.resolveFolder path world
  e.materializer.expand parent
  getOr parent.path (.missing parent.path)

def madeByHand (e : Engine) (parent : Node) (world : World) (name : String) (kind : NodeKind)
    (time : Moment) : Node :=
  Node.child (e.materializer.nodeId (Path.join parent.path name)) parent name kind
    (e.worlds.onlyIn world) time

def createFolderLocked (e : Engine) (parent : Node) (world : World) (name : String) :
    Attempt Node := do
  let target := Path.join parent.path name
  match ← Attempt.get target with
  | some existing =>
    let hidden ←
      if existing.isFolder then do
        let visible ← e.materializer.isVisible existing world
        pure !visible
      else pure false
    if hidden then
      match ← call (.change target (.redecision world.name true)) with
      | none => throw (.missing target)
      | some revealed =>
        tell .folderRevealed
        return revealed
    else throw (.alreadyExists target)
  | none =>
    let time ← now
    let folder := { e.madeByHand parent world name .folder time with generated := true }
    let (stored, inserted) ← call (.putIfAbsent folder)
    if !inserted then throw (.alreadyExists stored.path)
    else
      tell .folderCreated
      return stored

/-- Makes an empty folder. A folder that is there but hidden in the world is revealed instead; a
file occupies its name also where it is hidden. -/
def createFolder (e : Engine) (parentPath : String) (world : World) (name : String) :
    Attempt Node := do
  fromWorld (e.worlds.check world)
  fromPath (Path.checkName name)
  let parent ← e.openParent parentPath world
  withLock parent.path do
    discard (getOr parent.path (.missing parent.path))
    e.createFolderLocked parent world name

def createAlong (e : Engine) (world : World) : List String → Node → Attempt Node
  | [], here => return here
  | name :: more, here => do
    let next := Path.join here.path name
    match ← outcome (e.materializer.resolve next world) with
    | .ok n => if n.isFolder then createAlong e world more n else throw (.notADirectory n.path)
    | .error (.notFound _) =>
      match ← outcome (e.createFolder here.path world name) with
      | .ok n => createAlong e world more n
      | .error (.alreadyExists _) =>
        let n ← e.materializer.resolveFolder next world
        createAlong e world more n
      | .error failure => throw failure
    | .error failure => throw failure

def createFolderAll (e : Engine) (path : String) (world : World) : Attempt Node := do
  fromWorld (e.worlds.check world)
  let path ← fromPath (Path.normalize path)
  let root ← e.materializer.resolve Path.root world
  e.createAlong world (Path.components path) root

def uploadLocked (e : Engine) (parent : Node) (world : World) (name : String) (data : Bytes) :
    Attempt Node := do
  let target := Path.join parent.path name
  let digest := sha256 data
  match ← Attempt.get target with
  | some existing =>
    if existing.isFolder then throw (.isADirectory target)
    else
      let time ← now
      match ← call (.change target (.content digest time)) with
      | none => throw (.missing target)
      | some _ =>
        match world with
        | .named world => discard (call (.change target (.redecision world true)))
        | .primary => pure ()
        tell .replaced
        getOr target (.missing target)
  | none =>
    let time ← now
    let file := { e.madeByHand parent world name .file time with upload := some digest }
    let (stored, inserted) ← call (.putIfAbsent file)
    if !inserted then tell .appearedMeanwhile
    tell .uploaded
    return stored

/-- Makes or replaces a file. The bytes are not kept; their digest keys what the file serves from
now on, and the file becomes visible in the world. -/
def uploadFile (e : Engine) (parentPath : String) (world : World) (name : String) (data : Bytes) :
    Attempt Node := do
  fromWorld (e.worlds.check world)
  fromPath (Path.checkName name)
  let parent ← e.openParent parentPath world
  withLock parent.path do
    discard (getOr parent.path (.missing parent.path))
    e.uploadLocked parent world name data

def deleteLocked (target : String) : Attempt Unit := do
  let current ← getOr target (.missing target)
  let occupied : Bool ← if current.isFolder then call (.hasChildren current.path) else pure false
  if occupied then throw (.notEmpty current.path)
  else
    discard (call (.delete current.path))
    tell .deleted

/-- Deletes a file or an empty folder from every world. Children that a folder would generate count
as its contents. -/
def deleteNode (e : Engine) (path : String) (world : World) : Attempt Unit := do
  fromWorld (e.worlds.check world)
  let path ← fromPath (Path.normalize path)
  if Path.isRoot path then throw (.invalidPath .rootDeletion)
  else
    let n ← e.materializer.resolve path world
    if n.isFolder then e.materializer.expand n
    withLock (n.parent.getD Path.root) (withLock n.path (deleteLocked n.path))

def readContent (e : Engine) (id : NodeId) : Attempt (Bytes × String) := do
  match ← call (.getById id) with
  | none => throw (.notFound (.id id))
  | some n =>
    if n.isFolder then throw (.isADirectory n.path)
    else
      let bytes := fileContent n.id e.config.parameters.contentSeed n.upload
      let checksum := checksumOf bytes
      match n.checksum with
      | some kept => if kept ≠ checksum then tell .staleChecksum
      | none => discard (call (.change n.path (.checksum checksum n.upload)))
      return (bytes, checksum)

def slice (bytes : Bytes) (offset : UInt64) (length : Option UInt64) : Bytes :=
  let rest := bytes.drop offset.toNat
  match length with
  | some length => rest.take length.toNat
  | none => rest

def readRange (e : Engine) (id : NodeId) (offset : UInt64) (length : Option UInt64) :
    Attempt Bytes := do
  let (bytes, _) ← e.readContent id
  return slice bytes offset length

def checksum (e : Engine) (path : String) (world : World) : Attempt String := do
  let n ← e.getNode path world
  if n.isFolder then throw (.isADirectory n.path)
  else
    match n.checksum with
    | some checksum => return checksum
    | none =>
      let (_, checksum) ← e.readContent n.id
      return checksum

def count : Attempt Nat := call .count

end Engine

end SeedTree
