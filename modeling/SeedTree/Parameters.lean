import SeedTree.Number.Decimal
import SeedTree.Stream.Derivation

/- The numbers that shape a tree, and the fingerprint that tells two shapes apart. -/
namespace SeedTree

structure Parameters where
  maxDepth : UInt32 := 4
  minFolders : UInt32 := 1
  maxFolders : UInt32 := 3
  minFiles : UInt32 := 2
  maxFiles : UInt32 := 5
  seed : UInt64 := 42
  contentSeed : UInt64 := 0
  deriving DecidableEq, Repr

inductive ParameterFault where
  | noDepth
  | folderBounds (low high : UInt32)
  | fileBounds (low high : UInt32)
  deriving DecidableEq, Repr

def ParameterFault.message : ParameterFault → String
  | .noDepth => "seed.max_depth must be at least 1"
  | .folderBounds low high =>
    "seed.min_folders (" ++ Decimal.natText low.toNat ++ ") exceeds seed.max_folders ("
      ++ Decimal.natText high.toNat ++ ")"
  | .fileBounds low high =>
    "seed.min_files (" ++ Decimal.natText low.toNat ++ ") exceeds seed.max_files ("
      ++ Decimal.natText high.toNat ++ ")"

namespace Parameters

def check (p : Parameters) : Except ParameterFault Unit :=
  if p.maxDepth < 1 then throw .noDepth
  else if p.maxFolders < p.minFolders then throw (.folderBounds p.minFolders p.maxFolders)
  else if p.maxFiles < p.minFiles then throw (.fileBounds p.minFiles p.maxFiles)
  else return ()

/-- All fields side by side, each in its full width. -/
def fingerprintMessage (p : Parameters) : Bytes :=
  [p.maxDepth, p.minFolders, p.maxFolders, p.minFiles, p.maxFiles].flatMap Bytes.le32
    ++ Bytes.le64 p.seed ++ Bytes.le64 p.contentSeed

def fingerprint (p : Parameters) : Digest :=
  Blake3.deriveUnder Purpose.fingerprint.key p.fingerprintMessage

end Parameters

end SeedTree
