import SeedTree.Config

/- The variables a process is given, and the places in the user's folders that follow from them. -/
namespace SeedTree

structure Environment where
  given : NameMap String := ∅
  /-- The home folder of the account, for when no variable names one. -/
  accountHome : Option String := none

namespace Environment

def value? (env : Environment) (name : String) : Option String := env.given[name]?

def filled? (env : Environment) (name : String) : Option String :=
  (env.value? name).filter (· ≠ "")

end Environment

namespace FilePath

def isAbsolute (path : String) : Bool := path.toList.head? = some '/'

def inside (folder name : String) : String :=
  if folder = "" then name
  else if folder.toList.getLast? = some '/' then folder ++ name
  else folder ++ "/" ++ name

end FilePath

namespace Environment

def dataFolder? (env : Environment) : Option String :=
  match env.filled? "XDG_DATA_HOME" with
  | some folder => some folder
  | none => (env.value? "HOME").map fun home =>
    FilePath.inside (FilePath.inside home ".local") "share"

/-- The user's state folder; a variable counts only if it names an absolute path. -/
def stateFolder? (env : Environment) : Option String :=
  let home := (env.filled? "HOME").or env.accountHome
  match home, (env.value? "XDG_STATE_HOME").filter FilePath.isAbsolute with
  | none, _ => none
  | some _, some folder => some folder
  | some home, none => some (FilePath.inside (FilePath.inside home ".local") "state")

/-- The log file: from the command line, the environment, the configuration or in the state folder,
whichever comes first and is not empty. -/
def logFile (env : Environment) (override configured : Option String) : Except LogFault String :=
  match override.filter (· ≠ ""), env.filled? "SPECTRA_LOG_FILE", configured.filter (· ≠ "") with
  | some path, _, _ => return path
  | none, some path, _ => return path
  | none, none, some path => return path
  | none, none, none =>
    match env.stateFolder? with
    | some folder => return FilePath.inside (FilePath.inside folder "spectra") "spectra.log"
    | none => throw .noStateFolder

end Environment

def Config.storeFile (c : Config) (env : Environment) : Except ConfigFault String :=
  match c.storePath.filter (· ≠ "") with
  | some path => return path
  | none =>
    match env.dataFolder? with
    | some folder => return FilePath.inside (FilePath.inside folder "spectra") "spectra.db"
    | none => throw .noDataFolder

end SeedTree
