import SeedTree.Node
import SeedTree.Parameters

/- The generated children of a folder: how many there are and what they are called depends on
   nothing but the parameters, the folder's path and its depth. -/
namespace SeedTree

structure ChildSpec where
  name : String
  kind : NodeKind
  deriving DecidableEq, Repr

namespace Children

def words : List String :=
  ["amber", "basalt", "cedar", "delta", "ember", "fjord", "garnet", "harbor", "indigo", "juniper",
   "kelp", "lumen", "marble", "nectar", "onyx", "pebble", "quartz", "raven", "saffron", "tundra",
   "umber", "velvet", "willow", "xenon", "yarrow", "zephyr", "archive", "ledger", "report",
   "invoice", "draft", "backup"]

def extensions : List String := ["txt", "bin", "csv", "log", "json", "dat"]

/-- How many folders and files there are. At the greatest depth and below it there are no folders,
and nothing is drawn for them. -/
def drawCounts (fuel : Nat) (p : Parameters) (depth : UInt32) : Draw (UInt32 × UInt32) := do
  let folders ←
    if p.maxDepth ≤ depth then pure 0 else Draw.range fuel p.minFolders p.maxFolders
  let files ← Draw.range fuel p.minFiles p.maxFiles
  return (folders, files)

def pick (fuel : Nat) (pool : List String) : Draw String := do
  let i ← Draw.index fuel pool.length
  return pool.getD i ""

def folderBase (fuel : Nat) : Draw String := do
  let first ← pick fuel words
  let second ← pick fuel words
  return first ++ "_" ++ second

def fileBase (fuel : Nat) : Draw String := do
  let stem ← pick fuel words
  let extension ← pick fuel extensions
  return stem ++ "." ++ extension

def suffix : Draw String := do
  let n ← Draw.upper16
  let digits := Nat.toDigits 16 n
  return String.ofList (List.replicate (4 - digits.length) '0' ++ digits)

def withSuffix (base suffix : String) : String :=
  match Text.splitLast? '.' base.toList with
  | some (stem, extension) => String.ofList stem ++ "-" ++ suffix ++ "." ++ String.ofList extension
  | none => base ++ "-" ++ suffix

def isTaken (done : List ChildSpec) (name : String) : Bool := done.any fun spec => spec.name = name

/-- Tries the base name and then one suffix after another until a name is free. -/
def freeName (base : String) (done : List ChildSpec) : Nat → String → Draw String
  | 0, _ => fun _ _ => none
  | fuel + 1, candidate =>
    if isTaken done candidate then do
      let s ← suffix
      freeName base done fuel (withSuffix base s)
    else pure candidate

/-- Draws `count` entries; `done` holds the entries drawn so far, the latest first. -/
def drawEntries (fuel : Nat) (base : Draw String) (kind : NodeKind) :
    Nat → List ChildSpec → Draw (List ChildSpec)
  | 0, done => pure done
  | count + 1, done => do
    let b ← base
    let name ← freeName b done fuel b
    drawEntries fuel base kind count (⟨name, kind⟩ :: done)

def draw (fuel : Nat) (p : Parameters) (depth : UInt32) : Draw (List ChildSpec) := do
  let (folders, files) ← drawCounts fuel p depth
  let done ← drawEntries fuel (folderBase fuel) .folder folders.toNat []
  let done ← drawEntries fuel (fileBase fuel) .file files.toNat done
  return done.reverse

def stream (p : Parameters) (path : String) : Words :=
  ChaCha.words (derive .hierarchy p.seed [utf8 path])

/-- The children of a folder; none if drawing does not end within `fuel` attempts at a name or a
number. -/
def generate? (fuel : Nat) (p : Parameters) (path : String) (depth : UInt32) :
    Option (List ChildSpec) :=
  (draw fuel p depth (stream p path) 0).map Prod.fst

end Children

end SeedTree
