import SeedTree.Text

/- What is told where: the logging part of a configuration. -/
namespace SeedTree

structure LogSettings where
  enabled : Bool := true
  level : String := "info"
  format : String := "text"
  output : String := "stderr"
  file : Option String := none
  color : Bool := true
  /-- Levels of single targets. -/
  modules : NameMap String := ∅

structure LogOverrides where
  level : Option String := none
  format : Option String := none
  output : Option String := none
  file : Option String := none
  deriving DecidableEq, Repr

inductive LogFault where
  | directive
  | environmentDirective
  | format (name : String)
  | output (name : String)
  | folder (reason : String)
  | file (path : String) (reason : String)
  | installed
  | noStateFolder
  deriving DecidableEq, Repr

end SeedTree
