import SeedTree.Command
import SeedTree.Command.Output
import SeedTree.Disk
import SeedTree.Engine

/- Carrying out commands in one world. Files of the system are read before the engine is asked and
   written after it has answered. -/
namespace SeedTree

namespace Engine

open Attempt (fromPath tell)

def linesBelow (e : Engine) (world : World) (level : Nat) : Nat → String → Attempt (List String)
  | 0, _ => return []
  | depth + 1, folder => do
    let children ← e.listChildren folder world
    let lines ← children.mapM fun child =>
      if child.isFolder then do
        let below ← linesBelow e world (level + 1) depth child.path
        return child.treeLine level :: below
      else return [child.treeLine level]
    return lines.flatten

def treeLines (e : Engine) (world : World) (path : String) (depth : Nat) :
    Attempt (List String) := do
  let top ← e.getNode path world
  let below ← if top.isFolder then e.linesBelow world 1 depth top.path else pure []
  return top.path :: below

/-- The identity that a target names, or that of the file at it. -/
def targetId (e : Engine) (world : World) (target : String) (byId : Bool) : Attempt NodeId :=
  if byId then
    match Digest.ofHex? (Text.trim target) with
    | some id => return id
    | none => throw (.invalidPath (.notAnId target))
  else do
    let n ← e.getNode target world
    if n.isFolder then throw (.isADirectory n.path) else return n.id

def makeOneFolder (e : Engine) (world : World) (path : String) : Attempt Node := do
  let path ← fromPath (Path.normalize path)
  match Path.parent? path with
  | some folder => e.createFolder folder world (Path.fileName path)
  | none => throw (.alreadyExists path)

def uploadTo (e : Engine) (world : World) (path : String) (bytes : Bytes) : Attempt Node := do
  let path ← fromPath (Path.normalize path)
  match Path.parent? path with
  | some folder => e.uploadFile folder world (Path.fileName path) bytes
  | none => throw (.isADirectory path)

end Engine

def fromDisk {α : Type} : Except FileFault α → Attempt α
  | .ok a => return a
  | .error fault => throw (.storage (.file fault))

namespace Command

open Attempt (tell)

/-- What a command prints, and the disk after it. -/
def run (e : Engine) (world : World) (disk : Disk) : Command → Attempt (String × Disk)
  | .list path format => do
    let children ← e.listChildren path world
    return (Node.childrenText path world children format, disk)
  | .stat path format => do
    let n ← e.getNode path world
    return (n.fieldsText e.worlds format, disk)
  | .show target byId offset length out => do
    let id ← e.targetId world target byId
    let bytes ← e.readRange id offset length
    match out with
    | none => return (Dump.text bytes offset.toNat, disk)
    | some out =>
      let disk ← fromDisk (disk.write out bytes)
      tell .contentWritten
      return ("Wrote " ++ Decimal.natText bytes.length ++ " bytes to " ++ out, disk)
  | .checksum path => do
    let checksum ← e.checksum path world
    return (checksum, disk)
  | .tree path depth => do
    let lines ← e.treeLines world path depth.toNat
    return (String.intercalate "\n" lines, disk)
  | .makeFolder path parents => do
    let n ← if parents then e.createFolderAll path world else e.makeOneFolder world path
    return ("Created " ++ n.path ++ " (" ++ n.shortId ++ ")", disk)
  | .remove path => do
    e.deleteNode path world
    return ("Deleted " ++ path, disk)
  | .upload file path => do
    let bytes ← fromDisk (disk.read file)
    let n ← e.uploadTo world path bytes
    return ("Uploaded " ++ Decimal.natText bytes.length ++ " bytes to " ++ n.path ++ " ("
      ++ n.shortId ++ ")", disk)
  | .worlds format => return (e.worlds.text world format, disk)

end Command

end SeedTree
