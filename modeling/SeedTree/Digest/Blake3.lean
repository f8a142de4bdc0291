import SeedTree.Bytes.Utf8
import SeedTree.Digest.Basic
import SeedTree.Digest.Words16

/- BLAKE3 in key-derivation mode: a context names the purpose, and the material is hashed under the
   key that the context gives. Chunks of 1024 bytes are the leaves of a binary tree whose left part
   holds the largest power of two of them. -/
namespace SeedTree

namespace Blake3

structure Chaining where
  k0 : UInt32
  k1 : UInt32
  k2 : UInt32
  k3 : UInt32
  k4 : UInt32
  k5 : UInt32
  k6 : UInt32
  k7 : UInt32

def Chaining.toList (k : Chaining) : List UInt32 := [k.k0, k.k1, k.k2, k.k3, k.k4, k.k5, k.k6, k.k7]

def iv : Chaining :=
  ⟨0x6A09E667, 0xBB67AE85, 0x3C6EF372, 0xA54FF53A, 0x510E527F, 0x9B05688C, 0x1F83D9AB, 0x5BE0CD19⟩

def chunkStart : UInt32 := 1
def chunkEnd : UInt32 := 2
def parent : UInt32 := 4
def root : UInt32 := 8
def deriveContext : UInt32 := 32
def deriveMaterial : UInt32 := 64

def rotateRight (x n : UInt32) : UInt32 := x >>> n ||| x <<< (32 - n)

def mix (q : Quad) (x y : UInt32) : Quad :=
  let a := q.a + q.b + x
  let d := rotateRight (q.d ^^^ a) 16
  let c := q.c + d
  let b := rotateRight (q.b ^^^ c) 12
  let a := a + b + y
  let d := rotateRight (d ^^^ a) 8
  let c := c + d
  ⟨a, rotateRight (b ^^^ c) 7, c, d⟩

def round (m s : Words16) : Words16 :=
  s.columnsAndDiagonals fun i q =>
    match i with
    | 0 => mix q m.w0 m.w1
    | 1 => mix q m.w2 m.w3
    | 2 => mix q m.w4 m.w5
    | 3 => mix q m.w6 m.w7
    | 4 => mix q m.w8 m.w9
    | 5 => mix q m.w10 m.w11
    | 6 => mix q m.w12 m.w13
    | _ => mix q m.w14 m.w15

def permute (m : Words16) : Words16 :=
  ⟨m.w2, m.w6, m.w3, m.w10, m.w7, m.w0, m.w4, m.w13, m.w1, m.w11, m.w12, m.w5, m.w9, m.w14, m.w15,
    m.w8⟩

def rounds : Nat → Words16 → Words16 → Words16
  | 0, _, s => s
  | n + 1, m, s => rounds n (permute m) (round m s)

/-- One compression, waiting to be finished as an inner value or as the root. -/
structure Output where
  key : Chaining
  block : Words16
  counter : Nat
  length : Nat
  flags : UInt32

def Output.compress (o : Output) (extra : UInt32) : Chaining :=
  let k := o.key
  let s : Words16 :=
    ⟨k.k0, k.k1, k.k2, k.k3, k.k4, k.k5, k.k6, k.k7, iv.k0, iv.k1, iv.k2, iv.k3,
      UInt32.ofNat o.counter, UInt32.ofNat (o.counter / twoTo 32), UInt32.ofNat o.length,
      o.flags ||| extra⟩
  let t := rounds 7 o.block s
  ⟨t.w0 ^^^ t.w8, t.w1 ^^^ t.w9, t.w2 ^^^ t.w10, t.w3 ^^^ t.w11, t.w4 ^^^ t.w12, t.w5 ^^^ t.w13,
    t.w6 ^^^ t.w14, t.w7 ^^^ t.w15⟩

def Output.chaining (o : Output) : Chaining := o.compress 0

def blockWords (block : Bytes) : Words16 :=
  Words16.ofList (Bytes.words32 (block ++ List.replicate (64 - block.length) 0))

/-- The blocks of one chunk in order: `first` says whether the next block opens the chunk. -/
def chunkBlocks (flags : UInt32) (counter : Nat) (first : Bool) (key : Chaining) :
    List Bytes → Output
  | [] => ⟨key, blockWords [], counter, 0,
      flags ||| (if first then chunkStart else 0) ||| chunkEnd⟩
  | [block] => ⟨key, blockWords block, counter, block.length,
      flags ||| (if first then chunkStart else 0) ||| chunkEnd⟩
  | block :: rest =>
    let o : Output := ⟨key, blockWords block, counter, block.length,
      flags ||| (if first then chunkStart else 0)⟩
    chunkBlocks flags counter false o.chaining rest

def chunkOutput (flags : UInt32) (key : Chaining) (counter : Nat) (chunk : Bytes) : Output :=
  chunkBlocks flags counter true key (chunk.chunks 64)

def parentOutput (flags : UInt32) (key left right : Chaining) : Output :=
  ⟨key, Words16.ofList (left.toList ++ right.toList), 0, 64, flags ||| parent⟩

/-- The largest power of two below `n`, for `n` at least two: doubling from `p` at most `fuel`
times. -/
def leftSize (n : Nat) : Nat → Nat → Nat
  | 0, p => p
  | fuel + 1, p => if 2 * p < n then leftSize n fuel (2 * p) else p

/-- The tree over the chunks numbered from `counter` on. The height of the tree is below the number
of chunks, so that number is enough `fuel`. -/
def tree (flags : UInt32) (key : Chaining) : Nat → Nat → List Bytes → Output
  | _, counter, [] => chunkOutput flags key counter []
  | _, counter, [chunk] => chunkOutput flags key counter chunk
  | 0, counter, chunk :: _ => chunkOutput flags key counter chunk
  | fuel + 1, counter, chunks =>
    let n := leftSize chunks.length chunks.length 1
    parentOutput flags key (tree flags key fuel counter (chunks.take n)).chaining
      (tree flags key fuel (counter + n) (chunks.drop n)).chaining

def hash (flags : UInt32) (key : Chaining) (message : Bytes) : Chaining :=
  let chunks := message.chunks 1024
  (tree flags key chunks.length 0 chunks).compress root

def contextKey (context : String) : Chaining := hash deriveContext iv (utf8 context)

def Chaining.toBytes (k : Chaining) : Bytes :=
  Bytes.le32 k.k0 ++ Bytes.le32 k.k1 ++ Bytes.le32 k.k2 ++ Bytes.le32 k.k3 ++ Bytes.le32 k.k4
    ++ Bytes.le32 k.k5 ++ Bytes.le32 k.k6 ++ Bytes.le32 k.k7

end Blake3

/-- The digest of `material` under the key that a context gives. -/
def Blake3.deriveUnder (key : Chaining) (material : Bytes) : Digest :=
  let k := hash deriveMaterial key material
  ⟨k.toBytes, by simp [Chaining.toBytes, Bytes.le32, Bytes.length_little]⟩

end SeedTree
