import SeedTree.Text.Quoted

/- Absolute paths and the names they are made of. A normalized path is `/` alone or a name after
   each slash; names are not empty, are neither `.` nor `..`, and hold neither a slash nor a NUL. -/
namespace SeedTree

inductive PathFault where
  | parentReference (input : String)
  | unusableName (name : String)
  | separatorInName (name : String)
  | rootDeletion
  | notAnId (text : String)
  deriving DecidableEq, Repr

def PathFault.message : PathFault → String
  | .parentReference input => "parent references are not supported: " ++ input
  | .unusableName name => "invalid entry name: " ++ Text.quoted name
  | .separatorInName name => "entry name may not contain '/' or NUL: " ++ Text.quoted name
  | .rootDeletion => "the root folder cannot be deleted"
  | .notAnId text => "not a node id: " ++ text

namespace Path

def root : String := "/"

def isRoot (path : String) : Bool := path = root

def checkName (name : String) : Except PathFault Unit :=
  if name = "" ∨ name = "." ∨ name = ".." then throw (.unusableName name)
  else if name.toList.any fun c => c = '/' || c = '\x00' then throw (.separatorInName name)
  else return ()

def segments (path : String) : List String :=
  (Text.splitOn '/' path.toList).map String.ofList

def components (path : String) : List String := (segments path).filter (· ≠ "")

def checkSegment (input segment : String) : Except PathFault Unit :=
  if segment = ".." then throw (.parentReference input) else checkName segment

def ofNames (names : List String) : String :=
  if names.isEmpty then root
  else String.ofList (names.flatMap fun name => '/' :: name.toList)

/-- Drops empty segments and dots, and refuses what is no name. -/
def normalize (input : String) : Except PathFault String := do
  let names := (segments input).filter fun segment => segment ≠ "" && segment ≠ "."
  names.forM (checkSegment input)
  return ofNames names

def join (parent name : String) : String :=
  if isRoot parent then "/" ++ name else parent ++ "/" ++ name

def parent? (path : String) : Option String :=
  if isRoot path then none
  else (Text.splitLast? '/' path.toList).map fun (before, _) =>
    if before.isEmpty then root else String.ofList before

def fileName (path : String) : String :=
  match Text.splitLast? '/' path.toList with
  | some (_, name) => String.ofList name
  | none => path

end Path

end SeedTree
