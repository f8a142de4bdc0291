/- Events that are told while the engine works: how urgent they are, who tells them and in which
   words. -/
namespace SeedTree

inductive Level where
  | trace
  | debug
  | info
  | warn
  | error
  deriving DecidableEq, Repr

namespace Level

/-- The number of the levels at least as urgent. -/
def rank : Level → Nat
  | trace => 5
  | debug => 4
  | info => 3
  | warn => 2
  | error => 1

def text : Level → String
  | trace => "TRACE"
  | debug => "DEBUG"
  | info => "INFO"
  | warn => "WARN"
  | error => "ERROR"

end Level

inductive Event where
  | rootMaterialized
  | ready
  | storeOpened
  | expanded
  | alreadyExpanded
  | hidden
  | backfilled
  | staleChecksum
  | folderCreated
  | folderRevealed
  | uploaded
  | appearedMeanwhile
  | replaced
  | deleted
  | orphanEntry
  | contentWritten
  deriving DecidableEq, Repr

namespace Event

def level : Event → Level
  | rootMaterialized | expanded | backfilled | folderCreated | folderRevealed | uploaded | replaced
  | deleted => .debug
  | ready | storeOpened | contentWritten => .info
  | alreadyExpanded | hidden => .trace
  | staleChecksum | appearedMeanwhile | orphanEntry => .warn

def target : Event → String
  | rootMaterialized | expanded | alreadyExpanded | hidden | backfilled => "spectra::generation"
  | ready | storeOpened | staleChecksum | folderCreated | folderRevealed | uploaded
  | appearedMeanwhile | replaced | deleted => "spectra::api"
  | orphanEntry => "spectra::store::persistence"
  | contentWritten => "spectra::tooling::cli"

def message : Event → String
  | rootMaterialized => "Materialized root folder"
  | ready => "Spectra engine ready"
  | storeOpened => "Opened node store"
  | expanded => "Expanded folder"
  | alreadyExpanded => "Expansion already done by another caller"
  | hidden => "Node hidden in world"
  | backfilled => "Backfilled world decision"
  | staleChecksum => "Cached checksum disagrees with regenerated content"
  | folderCreated => "Created folder"
  | folderRevealed => "Revealed existing folder in world"
  | uploaded => "Uploaded file"
  | appearedMeanwhile => "File appeared while holding the parent lock"
  | replaced => "Replaced file content"
  | deleted => "Deleted node"
  | orphanEntry => "Child index entry without a node record"
  | contentWritten => "Wrote file content"

end Event

end SeedTree
