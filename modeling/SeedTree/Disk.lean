import SeedTree.Environment
import SeedTree.Store

/- The files a process sees: folders, files with their bytes, and stores, which the system shows as
   folders. -/
namespace SeedTree

inductive DiskEntry where
  | folder
  | file (bytes : Bytes)
  | store (store : Store)

/-- Entries by their names from the top; the top itself is a folder. -/
structure Disk where
  entries : NameMap DiskEntry := ∅
  /-- The working folder's names from the top. -/
  here : List String := ["work"]

namespace Disk

def keyOf (names : List String) : String := String.intercalate "/" names

/-- Where a segment of a path leads; two points lead up. -/
def step (names : List String) (segment : String) : List String :=
  if segment = "" || segment = "." then names
  else if segment = ".." then names.dropLast
  else names ++ [segment]

def start (d : Disk) (path : String) : List String :=
  if FilePath.isAbsolute path then [] else d.here

def namesOf (d : Disk) (path : String) : List String :=
  (Path.segments path).foldl step (d.start path)

def entry? (d : Disk) (names : List String) : Option DiskEntry :=
  if names.isEmpty || d.here.take names.length = names then some .folder
  else d.entries[keyOf names]?

def nameFault? (path : String) : Option FileFault :=
  if path = "" then some .missing
  else if path.toList.contains '\x00' then some .nulInName
  else if (Path.segments path).any fun name => 255 < (utf8 name).length then some .nameTooLong
  else none

/-- Why one of the folders above is none: the first that is missing or a file. -/
def aboveFault? (d : Disk) (names : List String) : Option FileFault :=
  (List.range names.length).findSome? fun i =>
    match d.entry? (names.take i) with
    | some (.file _) => some .notDirectory
    | some _ => none
    | none => some .missing

def walk (d : Disk) (names : List String) : List String → Except FileFault (List String)
  | [] => return names
  | segment :: more =>
    match d.entry? names with
    | some (.file _) => throw .notDirectory
    | some _ => d.walk (step names segment) more
    | none => throw .missing

def look (d : Disk) (path : String) : Except FileFault DiskEntry :=
  match nameFault? path with
  | some fault => throw fault
  | none => do
    let names ← d.walk (d.start path) (Path.segments path)
    match d.entry? names with
    | some e => return e
    | none => throw .missing

def read (d : Disk) (path : String) : Except FileFault Bytes := do
  match ← d.look path with
  | .file bytes => return bytes
  | _ => throw .isDirectory

def put (d : Disk) (names : List String) (e : DiskEntry) : Disk :=
  { d with entries := d.entries.insert (keyOf names) e }

def write (d : Disk) (path : String) (bytes : Bytes) : Except FileFault Disk :=
  let names := d.namesOf path
  match d.look path with
  | .ok (.file _) => return d.put names (.file bytes)
  | .ok _ => throw .isDirectory
  | .error .missing =>
    if path = "" || (d.aboveFault? names).isSome then throw .missing
    else if path.toList.getLast? = some '/' then throw .isDirectory
    else return d.put names (.file bytes)
  | .error fault => throw fault

/-- Makes a file to add lines to, unless there is one. -/
def openToAdd (d : Disk) (path : String) : Except FileFault Disk :=
  match d.look path with
  | .ok (.file _) => return d
  | .ok _ => throw .isDirectory
  | .error .missing => d.write path []
  | .error fault => throw fault

def addFolders (d : Disk) (names : List String) : Disk :=
  (List.range (names.length + 1)).foldl (fun d i =>
    let above := names.take i
    if (d.entry? above).isSome then d else d.put above .folder) d

def makeFolders (d : Disk) (path : String) : Except FileFault Disk :=
  let names := d.namesOf path
  match nameFault? path with
  | some .missing => return d
  | some fault => throw fault
  | none =>
    match d.entry? names, d.aboveFault? names with
    | _, some .notDirectory => throw .notDirectory
    | some (.file _), _ => throw .alreadyThere
    | _, _ => return d.addFolders names

def folderOf? (path : String) : Option String :=
  let trimmed := (path.toList.reverse.dropWhile (· = '/')).reverse
  match Text.splitLast? '/' trimmed with
  | some (above, _) => some (if above.isEmpty then "/" else String.ofList above)
  | none => if trimmed.isEmpty then none else some ""

def openStore (d : Disk) (path : String) : Except StoreFault (Store × Disk) := do
  let d ← match folderOf? path with
    | some folder => if folder = "" then pure d else (d.makeFolders folder).mapError StoreFault.file
    | none => pure d
  let names := d.namesOf path
  match d.look path with
  | .ok (.store s) => return (s, d)
  | .ok .folder => return (.empty, d.put names (.store .empty))
  | .ok (.file _) => throw .backend
  | .error .missing => return (.empty, d.put names (.store .empty))
  | .error _ => throw .backend

def saveStore (d : Disk) (path : String) (s : Store) : Disk := d.put (d.namesOf path) (.store s)

end Disk

end SeedTree
