import SeedTree.Config
import SeedTree.Config.Layers

/- Configurations as values: which settings there are, what stands in for those that are missing,
   and which values can be read as them. -/
namespace SeedTree

namespace Value

/-- The setting of a structure: by its key in a table, by its place in a list. -/
def setting? (v : Value) (key : String) (place : Nat) : Option Value :=
  match v with
  | table entries => find? key entries
  | list items => items[place]?
  | _ => none

def isStructure : Value → Bool
  | table _ => true
  | list _ => true
  | _ => false

/-- A setting that has to be readable if it is there. -/
def readOr {α : Type} (default : α) (read : Value → Option α) : Option Value → Option α
  | none => some default
  | some v => read v

def optionalText? : Value → Option (Option String)
  | null => some none
  | v => v.toText?.map some

def mapEntries? {α : Type} (read : Value → Option α) : List (String × Value) →
    Option (List (String × α))
  | [] => some []
  | (key, v) :: more => do
    let a ← read v
    let rest ← mapEntries? read more
    return (key, a) :: rest

def toMap? {α : Type} (read : Value → Option α) : Value → Option (NameMap α)
  | table entries => (mapEntries? read entries).map NameMap.ofList
  | _ => none

end Value

namespace Config

open Value

def parameters? (v : Value) : Option Parameters := do
  let d : Parameters := {}
  let maxDepth ← readOr d.maxDepth toUInt32? (v.setting? "max_depth" 0)
  let minFolders ← readOr d.minFolders toUInt32? (v.setting? "min_folders" 1)
  let maxFolders ← readOr d.maxFolders toUInt32? (v.setting? "max_folders" 2)
  let minFiles ← readOr d.minFiles toUInt32? (v.setting? "min_files" 3)
  let maxFiles ← readOr d.maxFiles toUInt32? (v.setting? "max_files" 4)
  let seed ← readOr d.seed toUInt64? (v.setting? "seed" 5)
  let contentSeed ← readOr d.contentSeed toUInt64? (v.setting? "file_binary_seed" 6)
  return { maxDepth, minFolders, maxFolders, minFiles, maxFiles, seed, contentSeed }

def storePath? (v : Value) : Option (Option String) :=
  readOr none optionalText? (v.setting? "db_path" 7)

def logging? (v : Value) : Option LogSettings := do
  let d : LogSettings := {}
  let enabled ← readOr d.enabled toBool? (v.setting? "enabled" 0)
  let level ← readOr d.level toText? (v.setting? "level" 1)
  let format ← readOr d.format toText? (v.setting? "format" 2)
  let output ← readOr d.output toText? (v.setting? "output" 3)
  let file ← readOr none optionalText? (v.setting? "file" 4)
  let color ← readOr d.color toBool? (v.setting? "color" 5)
  let modules ← readOr ∅ (toMap? toText?) (v.setting? "modules" 6)
  return { enabled, level, format, output, file, color, modules }

def part? {α : Type} (default : α) (read : Value → Option α) : Option Value → Option α
  | none => some default
  | some v => if v.isStructure then read v else none

def ofValue? (v : Value) : Option Config := do
  let seed := find? "seed" v.entries
  let parameters ← part? {} parameters? seed
  let storePath ← part? none storePath? seed
  let worlds ← readOr ∅ (toMap? toFloat?) (find? "secondary_tables" v.entries)
  let logging ← part? {} logging? (find? "logging" v.entries)
  return { parameters, storePath, worlds, logging }

def defaultLayer : Value :=
  let d : Parameters := {}
  .table [("seed", .table [("max_depth", .int d.maxDepth.toNat),
    ("min_folders", .int d.minFolders.toNat), ("max_folders", .int d.maxFolders.toNat),
    ("min_files", .int d.minFiles.toNat), ("max_files", .int d.maxFiles.toNat),
    ("seed", .int d.seed.toNat), ("file_binary_seed", .int d.contentSeed.toNat)])]

def numberOnly? : Value → Option Binary64
  | .int n => some (.ofInt n)
  | .float x => some x
  | _ => none

def worldsKey : String := "secondary_tables"

/-- The worlds as a document writes them, with the case of their names. It may write them once, and
with numbers only. -/
def writtenWorlds? (entries : List (String × Value)) : Option (Option (NameMap Binary64)) :=
  match entries.filter (·.1 = worldsKey) with
  | [] => some none
  | [(_, .null)] => some none
  | [(_, v)] => (v.toMap? numberOnly?).map some
  | _ => none

/-- Puts the written names back. The value is the one that all layers together give the name in
lower case. -/
def restoreNames (written : NameMap Binary64) (merged : NameMap Binary64) : NameMap Binary64 :=
  written.toList.foldl (fun worlds (name, value) =>
    let lower := Text.lowercase name
    (worlds.erase lower).insert name ((worlds[lower]?).getD value)) merged

/-- A configuration from the entries of a document and a layer over them. Names of worlds keep their
case if the document's form tells them. -/
def ofLayers? (document : List (String × Value)) (keepsNames : Bool)
    (upper : List (String × Value)) : Option Config := do
  let settled := Value.settleEntries document
  let config ← ofValue? ((defaultLayer.overlay settled).overlay upper)
  if keepsNames then
    match ← writtenWorlds? document with
    | none => return config
    | some written => return { config with worlds := restoreNames written config.worlds }
  else return config

end Config

end SeedTree
