import SeedTree.Log.Settings
import SeedTree.Path
import SeedTree.World

/- What can be asked for on a command line. -/
namespace SeedTree

inductive Command where
  | list (path format : String)
  | stat (path format : String)
  /-- Content as a hex dump, or as bytes into a file of the system. -/
  | show (target : String) (byId : Bool) (offset : UInt64) (length : Option UInt64)
    (out : Option String)
  | checksum (path : String)
  | tree (path : String) (depth : UInt32)
  | makeFolder (path : String) (parents : Bool)
  | remove (path : String)
  | upload (file path : String)
  | worlds (format : String)
  deriving DecidableEq, Repr

structure Request where
  command : Command
  config : Option String
  world : String
  verbose : Bool
  logging : LogOverrides
  deriving DecidableEq, Repr

end SeedTree
