import SeedTree.Bytes

/- Digests and node identifiers: exactly thirty-two bytes. -/
namespace SeedTree

structure Digest where
  bytes : Bytes
  size : bytes.length = 32
  deriving DecidableEq

namespace Digest

theorem ext_bytes {a b : Digest} (same : a.bytes = b.bytes) : a = b := by
  cases a; cases b
  simp_all

def ofBytes? (bs : Bytes) : Option Digest :=
  if h : bs.length = 32 then some ⟨bs, h⟩ else none

theorem ofBytes?_bytes (d : Digest) : ofBytes? d.bytes = some d := by
  simp [ofBytes?, d.size]

def toHex (d : Digest) : String := d.bytes.toHex

/-- Sixty-four hexadecimal digits in any case, and nothing around them. -/
def ofHex? (s : String) : Option Digest := (Bytes.ofHex? s).bind ofBytes?

end Digest

/-- The identity of a node: a digest of the seed and the node's path. -/
abbrev NodeId := Digest

end SeedTree
