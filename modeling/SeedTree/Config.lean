import SeedTree.Failure

/- A configuration: what shapes the tree, where its store lies, which worlds there are and what is
   logged. -/
namespace SeedTree

structure Config where
  parameters : Parameters := {}
  /-- Where the store lies; without it, in the user's data folder. -/
  storePath : Option String := none
  worlds : NameMap Binary64 := ∅
  logging : LogSettings := {}

namespace Config

def worldTable (c : Config) : Except ConfigFault WorldTable :=
  (WorldTable.ofEntries c.worlds).mapError ConfigFault.world

def check (c : Config) : Except ConfigFault Unit := do
  c.parameters.check.mapError ConfigFault.parameters
  discard c.worldTable

end Config

end SeedTree
