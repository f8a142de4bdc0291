import SeedTree.Disk
import SeedTree.Log.Filter

/- Where events are written and how. The command line goes before the environment and the
   environment before the configuration. -/
namespace SeedTree

inductive LogStyle where
  | json
  | color
  | text
  deriving DecidableEq, Repr

structure LogOutputs where
  stdout : Bool := false
  stderr : Bool := false
  file : Bool := false
  deriving DecidableEq, Repr

namespace LogOutputs

def read (name : String) : Except LogFault LogOutputs :=
  if name = "stdout" then return { stdout := true }
  else if name = "stderr" then return { stderr := true }
  else if name = "file" then return { file := true }
  else if name = "file+stderr" then return { stderr := true, file := true }
  else if name = "both" then return { stdout := true, stderr := true }
  else throw (.output name)

def choose (settings : LogSettings) (override : Option String) (env : Environment) :
    Except LogFault LogOutputs :=
  match override, env.value? "SPECTRA_LOG_OUTPUT" with
  | some name, _ => read name
  | none, some name => read name
  | none, none => read settings.output

end LogOutputs

namespace LogFilter

/-- The targets and limits that a variable lists; entries without an equals sign are passed over. -/
def modulesOf (s : String) : List (List Char × List Char) :=
  (Text.splitOn ',' s.toList).filterMap fun piece =>
    (Text.splitFirst? '=' piece).map fun (target, limit) =>
      (Text.trimChars target, Text.trimChars limit)

def withModules (base : LogFilter) (settings : LogSettings) (env : Environment) :
    Except LogFault LogFilter :=
  match base.addAll
    (settings.modules.toList.map fun (name, limit) => (name.toList, limit.toList)) with
  | none => throw .directive
  | some f =>
    match f.addAll (modulesOf ((env.value? "SPECTRA_LOG_MODULES").getD "")) with
    | none => throw .environmentDirective
    | some f => return f

def ofLevel (level : String) (settings : LogSettings) (env : Environment) :
    Except LogFault LogFilter :=
  if level = "off" then return silent else withModules (ofText level) settings env

/-- The filter of a process. A readable filter in the environment stands alone, unless the command
line gives a level. -/
def choose (settings : LogSettings) (override : Option String) (env : Environment) :
    Except LogFault LogFilter :=
  match override with
  | some level => ofLevel level settings env
  | none =>
    match (env.value? "SPECTRA_LOG").bind read? with
    | some f => return f
    | none => ofLevel settings.level settings env

end LogFilter

/-- Whether lines are documents. Other names than the two are refused, and passed over in the
environment. -/
def LogSettings.asJson (settings : LogSettings) (override : Option String) (env : Environment) :
    Except LogFault Bool :=
  let known (name : String) : Bool := name = "json" || name = "text"
  let name := (override.or ((env.value? "SPECTRA_LOG_FORMAT").filter known)).getD settings.format
  if known name then return name = "json" else throw (.format name)

structure Logger where
  filter : LogFilter
  style : LogStyle
  outputs : LogOutputs
  /-- The file that lines are added to, if they are. -/
  file : Option String

namespace Logger

def silent : Logger := ⟨.silent, .text, {}, none⟩

def shows (l : Logger) (e : Event) : Bool := l.filter.lets e.target e.level

def openFile (path : String) (disk : Disk) : Except LogFault Disk := do
  let disk ← match Disk.folderOf? path with
    | some folder => (disk.makeFolders folder).mapError fun f => LogFault.folder f.message
    | none => pure disk
  (disk.openToAdd path).mapError fun f => LogFault.file path f.message

def start (settings : LogSettings) (overrides : LogOverrides) (env : Environment) (disk : Disk) :
    Except LogFault (Logger × Disk) := do
  if !settings.enabled then return (silent, disk)
  let filter ← LogFilter.choose settings overrides.level env
  let json ← settings.asJson overrides.format env
  let outputs ← LogOutputs.choose settings overrides.output env
  let style := if json then .json else if settings.color && !outputs.file then .color else .text
  if outputs.file then
    let path ← env.logFile overrides.file settings.file
    let disk ← openFile path disk
    return (⟨filter, style, outputs, some path⟩, disk)
  else return (⟨filter, style, outputs, none⟩, disk)

/-- Gives a process its logger. It has one at most: a second one is refused. -/
def install (current : Option Logger) (l : Logger) : Except LogFault Logger :=
  match current with
  | none => return l
  | some _ => throw .installed

end Logger

end SeedTree
