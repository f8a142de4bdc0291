import SeedTree.Digest.Sha256
import SeedTree.Stream.Derivation
import SeedTree.Stream.Draw

/- What a file serves: a fixed number of bytes from a stream keyed by the file's identity and, after
   an upload, by the digest of the uploaded bytes. -/
namespace SeedTree

def fileSize : Nat := 1024

def contentParts (id : NodeId) (upload : Option Digest) : List Bytes :=
  id.bytes :: (upload.map Digest.bytes).toList

def fileContent (id : NodeId) (contentSeed : UInt64) (upload : Option Digest) : Bytes :=
  let words := ChaCha.words (derive .content contentSeed (contentParts id upload))
  match Draw.fill fileSize words 0 with
  | some (bytes, _) => bytes
  | none => []

def checksumOf (bytes : Bytes) : String := (sha256 bytes).toHex

end SeedTree
