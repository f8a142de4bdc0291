import SeedTree.Config.Reading
import SeedTree.Disk
import SeedTree.Document

/- Configurations from documents, files and the environment. -/
namespace SeedTree

namespace Environment

def settingOf (s : String) : Value :=
  let word := Text.lowercase s
  if word = "true" then .bool true
  else if word = "false" then .bool false
  else match Decimal.readInt? s.toList with
    | some n => if fitsInt64 n then .int n else numberOr s
    | none => numberOr s
where
  numberOr (s : String) : Value :=
    match Binary64.read? s with
    | some x => .float x
    | none => .text s

def settingStart : List Char := "spectra_".toList

def withPoints : List Char → List Char
  | '_' :: '_' :: cs => '.' :: withPoints cs
  | c :: cs => c :: withPoints cs
  | [] => []

def settingKey? (name : String) : Option String :=
  let lower := (Text.lowercase name).toList
  if settingStart.isPrefixOf lower then
    some (String.ofList (withPoints (lower.drop settingStart.length)))
  else none

def settings (env : Environment) : List (String × Value) :=
  env.given.toList.filterMap fun (name, s) =>
    (settingKey? name).map fun key => (key, settingOf s)

end Environment

namespace Config

def ofDocument (form : DocumentForm) (content : String) (upper : List (String × Value)) :
    Except ConfigFault Config :=
  match form.read? content with
  | some (.table entries) =>
    match ofLayers? entries form.keepsNames upper with
    | some c => return c
    | none => throw .unreadable
  | _ => throw .unreadable

def ofText (form : DocumentForm) (content : String) : Except ConfigFault Config :=
  ofDocument form content []

def ofEnvironment (env : Environment) : Except ConfigFault Config :=
  match ofLayers? [] false env.settings with
  | some c => return c
  | none => throw .unreadable

/-- The ending of a file name: what stands after its last point, if something stands before it. -/
def endingOf? (path : String) : Option String :=
  match Text.splitLast? '.' (Path.fileName path).toList with
  | some (stem, ending) => if stem.isEmpty then none else some (String.ofList ending)
  | none => none

def fileText? (d : Disk) (path : String) : Option (DocumentForm × String) := do
  let form ← (endingOf? path).bind DocumentForm.ofEnding?
  let bytes ← (d.read path).toOption
  let content ← bytes.toText?
  return (form, content)

/-- The files that a folder's name stands for: the name with the ending of a form. -/
def filesBeside (d : Disk) (path : String) : List String :=
  (DocumentForm.endings.map fun e => path ++ "." ++ e.1).filter fun p =>
    match d.look p with
    | .ok (.file _) => true
    | _ => false

def ofFile (d : Disk) (env : Environment) (path : String) : Except ConfigFault Config :=
  match d.look path with
  | .error _ => throw (.missingFile path)
  | .ok (.file _) =>
    match fileText? d path with
    | some (form, content) => ofDocument form content env.settings
    | none => throw .unreadable
  | .ok _ =>
    match filesBeside d path, (endingOf? path).bind DocumentForm.ofEnding? with
    | beside :: _, ending =>
      match fileText? d beside, ending.map DocumentForm.keepsNames with
      | _, some true => throw .unreadable
      | some (form, content), _ =>
        match form.read? content with
        | some (.table entries) =>
          match ofLayers? entries false env.settings with
          | some c => return c
          | none => throw .unreadable
        | _ => throw .unreadable
      | none, _ => throw .unreadable
    | [], _ => throw .unreadable

end Config

end SeedTree
