import SeedTree.Digest.Basic
import SeedTree.Digest.Words16

/- The ChaCha8 keystream as an endless sequence of 32-bit words: eight rounds, a 64-bit block
   counter from zero, stream number zero. -/
namespace SeedTree

abbrev Words := Nat → UInt32

namespace ChaCha

def rotateLeft (x n : UInt32) : UInt32 := x <<< n ||| x >>> (32 - n)

def quarter (q : Quad) : Quad :=
  let a := q.a + q.b
  let d := rotateLeft (q.d ^^^ a) 16
  let c := q.c + d
  let b := rotateLeft (q.b ^^^ c) 12
  let a := a + b
  let d := rotateLeft (d ^^^ a) 8
  let c := c + d
  ⟨a, rotateLeft (b ^^^ c) 7, c, d⟩

def rounds : Nat → Words16 → Words16
  | 0, s => s
  | n + 1, s => rounds n (s.columnsAndDiagonals fun _ q => quarter q)

def initial (key : List UInt32) (counter : Nat) : Words16 :=
  Words16.ofList ([0x61707865, 0x3320646e, 0x79622d32, 0x6b206574] ++ key
    ++ [UInt32.ofNat counter, UInt32.ofNat (counter / twoTo 32), 0, 0])

def block (key : List UInt32) (counter : Nat) : Words16 :=
  let s := initial key counter
  s.zipWith (· + ·) (rounds 4 s)

def words (key : Digest) : Words :=
  let k := Bytes.words32 key.bytes
  fun i => (block k (i / 16)).get i

end ChaCha

end SeedTree
