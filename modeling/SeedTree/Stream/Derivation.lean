import SeedTree.Digest.Blake3

/- What every derived value is derived from: a purpose, a seed and a list of parts. Each part is
   preceded by its length, so the message determines the parts. -/
namespace SeedTree

/-- What a derived value is for; values for two purposes have nothing in common. -/
inductive Purpose where
  | nodeId
  | hierarchy
  | content
  | existence
  | fingerprint
  deriving DecidableEq, Repr

namespace Purpose

def context : Purpose → String
  | nodeId => "spectra synthetic fs v1 node id"
  | hierarchy => "spectra synthetic fs v1 hierarchy stream"
  | content => "spectra synthetic fs v1 content stream"
  | existence => "spectra synthetic fs v1 existence stream"
  | fingerprint => "spectra synthetic fs v1 seed fingerprint"

def nodeIdKey : Blake3.Chaining := Blake3.contextKey nodeId.context
def hierarchyKey : Blake3.Chaining := Blake3.contextKey hierarchy.context
def contentKey : Blake3.Chaining := Blake3.contextKey content.context
def existenceKey : Blake3.Chaining := Blake3.contextKey existence.context
def fingerprintKey : Blake3.Chaining := Blake3.contextKey fingerprint.context

def key : Purpose → Blake3.Chaining
  | nodeId => nodeIdKey
  | hierarchy => hierarchyKey
  | content => contentKey
  | existence => existenceKey
  | fingerprint => fingerprintKey

theorem key_eq_contextKey (p : Purpose) : p.key = Blake3.contextKey p.context := by
  cases p <;> rfl

end Purpose

def framed (part : Bytes) : Bytes := Bytes.little 8 part.length ++ part

def message (seed : UInt64) (parts : List Bytes) : Bytes :=
  Bytes.le64 seed ++ parts.flatMap framed

def derive (purpose : Purpose) (seed : UInt64) (parts : List Bytes) : Digest :=
  Blake3.deriveUnder purpose.key (message seed parts)

def nodeIdOf (seed : UInt64) (path : String) : NodeId := derive .nodeId seed [utf8 path]

end SeedTree
