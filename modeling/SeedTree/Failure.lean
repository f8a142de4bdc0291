import SeedTree.Log.Settings
import SeedTree.Parameters
import SeedTree.Path
import SeedTree.Store.Fault
import SeedTree.World

/- Why an operation fails, and the words for it. -/
namespace SeedTree

def LogFault.message : LogFault → String
  | .directive => "Invalid log directive"
  | .environmentDirective => "Invalid log directive from env"
  | .format name => "Invalid log format: " ++ name ++ " (must be 'json' or 'text')"
  | .output name => "Invalid log output: " ++ name
    ++ " (must be 'stdout', 'stderr', 'file', 'file+stderr', or 'both')"
  | .folder reason => "Failed to create log directory: " ++ reason
  | .file path reason => "Failed to open log file " ++ Text.quoted path ++ ": " ++ reason
  | .installed => "Failed to install logger: a global default trace dispatcher has already been set"
  | .noStateFolder => "Could not determine platform state directory for log file"

inductive ConfigFault where
  | parameters (fault : ParameterFault)
  | world (fault : WorldFault)
  /-- The store belongs to a tree of another shape. -/
  | otherTree
  | noDataFolder
  | missingFile (path : String)
  /-- A document that cannot be read as a configuration. -/
  | unreadable
  | log (fault : LogFault)
  deriving DecidableEq, Repr

def ConfigFault.message : ConfigFault → String
  | .parameters fault => fault.message
  | .world fault => fault.message
  | .otherTree => "the backing store was generated with different seed parameters; "
    ++ "delete it or restore the original seed"
  | .noDataFolder =>
    "no seed.db_path configured and XDG data home is unknown (HOME not set)"
  | .missingFile path => "config file not found: " ++ path
  | .unreadable => "the document is not a configuration"
  | .log fault => fault.message

/-- What was looked for and not found. -/
inductive Missing where
  | path (path : String)
  | folder (path : String)
  | id (id : NodeId)
  deriving DecidableEq

def Missing.text : Missing → String
  | .path p => p
  | .folder p => p ++ " is not a folder"
  | .id i => i.toHex

inductive Failure where
  | notFound (what : Missing)
  | alreadyExists (path : String)
  | notADirectory (path : String)
  | isADirectory (path : String)
  | notEmpty (path : String)
  | invalidPath (fault : PathFault)
  | invalidConfig (fault : ConfigFault)
  | storage (fault : StoreFault)
  /-- The children of a folder could not be drawn within the draws allowed. -/
  | unending (path : String)
  deriving DecidableEq

namespace Failure

def missing (path : String) : Failure := .notFound (.path path)

def message : Failure → String
  | notFound what => "not found: " ++ what.text
  | alreadyExists path => "already exists: " ++ path
  | notADirectory path => "not a directory: " ++ path
  | isADirectory path => "is a directory: " ++ path
  | notEmpty path => "directory not empty: " ++ path
  | invalidPath fault => "invalid path: " ++ fault.message
  | invalidConfig fault => "invalid configuration: " ++ fault.message
  | storage fault => "storage error: " ++ fault.message
  | unending path => "generation does not end: " ++ path

end Failure

end SeedTree
