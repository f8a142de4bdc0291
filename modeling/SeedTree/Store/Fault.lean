import SeedTree.Bytes.Utf8

/- What can go wrong below the engine: in the operating system's files and in the records kept. -/
namespace SeedTree

inductive FileFault where
  | missing
  | alreadyThere
  | notDirectory
  | isDirectory
  | nameTooLong
  | nulInName
  | notText
  deriving DecidableEq, Repr

def FileFault.message : FileFault → String
  | missing => "No such file or directory (os error 2)"
  | alreadyThere => "File exists (os error 17)"
  | notDirectory => "Not a directory (os error 20)"
  | isDirectory => "Is a directory (os error 21)"
  | nameTooLong => "File name too long (os error 36)"
  | nulInName => "file name contained an unexpected NUL byte"
  | notText => "stream did not contain valid UTF-8"

inductive StoreFault where
  /-- A record that cannot be read. -/
  | codec
  /-- The store itself cannot be opened. -/
  | backend
  | file (fault : FileFault)
  /-- An entry of the identity index that is no text. -/
  | idEntry (fault : Bytes.TextFault)
  /-- An entry of the child index that is no text. -/
  | childEntry (fault : Bytes.TextFault)
  deriving DecidableEq, Repr

def StoreFault.message : StoreFault → String
  | codec => "failed to encode or decode node record"
  | backend => "store error"
  | file fault => "I/O error: " ++ fault.message
  | idEntry fault => "invalid path: non UTF-8 path in id index: " ++ fault.message
  | childEntry fault => "invalid path: non UTF-8 name in child index: " ++ fault.message

end SeedTree
