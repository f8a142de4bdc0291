import SeedTree.Bytes.Words
import SeedTree.Digest.Basic

/- SHA-256: padding, the message schedule as a sliding window of sixteen words, and sixty-four
   rounds a block. -/
namespace SeedTree

namespace Sha256

structure State where
  a : UInt32
  b : UInt32
  c : UInt32
  d : UInt32
  e : UInt32
  f : UInt32
  g : UInt32
  h : UInt32

def start : State :=
  ⟨0x6a09e667, 0xbb67ae85, 0x3c6ef372, 0xa54ff53a, 0x510e527f, 0x9b05688c, 0x1f83d9ab, 0x5be0cd19⟩

def roundKeys : List UInt32 := [
  0x428a2f98, 0x71374491, 0xb5c0fbcf, 0xe9b5dba5, 0x3956c25b, 0x59f111f1, 0x923f82a4, 0xab1c5ed5,
  0xd807aa98, 0x12835b01, 0x243185be, 0x550c7dc3, 0x72be5d74, 0x80deb1fe, 0x9bdc06a7, 0xc19bf174,
  0xe49b69c1, 0xefbe4786, 0x0fc19dc6, 0x240ca1cc, 0x2de92c6f, 0x4a7484aa, 0x5cb0a9dc, 0x76f988da,
  0x983e5152, 0xa831c66d, 0xb00327c8, 0xbf597fc7, 0xc6e00bf3, 0xd5a79147, 0x06ca6351, 0x14292967,
  0x27b70a85, 0x2e1b2138, 0x4d2c6dfc, 0x53380d13, 0x650a7354, 0x766a0abb, 0x81c2c92e, 0x92722c85,
  0xa2bfe8a1, 0xa81a664b, 0xc24b8b70, 0xc76c51a3, 0xd192e819, 0xd6990624, 0xf40e3585, 0x106aa070,
  0x19a4c116, 0x1e376c08, 0x2748774c, 0x34b0bcb5, 0x391c0cb3, 0x4ed8aa4a, 0x5b9cca4f, 0x682e6ff3,
  0x748f82ee, 0x78a5636f, 0x84c87814, 0x8cc70208, 0x90befffa, 0xa4506ceb, 0xbef9a3f7, 0xc67178f2]

def rotateRight (x n : UInt32) : UInt32 := x >>> n ||| x <<< (32 - n)

def round (s : State) (key word : UInt32) : State :=
  let mix := rotateRight s.e 6 ^^^ rotateRight s.e 11 ^^^ rotateRight s.e 25
  let choice := (s.e &&& s.f) ^^^ ((~~~s.e) &&& s.g)
  let first := s.h + mix + choice + key + word
  let turn := rotateRight s.a 2 ^^^ rotateRight s.a 13 ^^^ rotateRight s.a 22
  let majority := (s.a &&& s.b) ^^^ (s.a &&& s.c) ^^^ (s.b &&& s.c)
  ⟨first + (turn + majority), s.a, s.b, s.c, s.d + first, s.e, s.f, s.g⟩

def nextWord (window : List UInt32) : UInt32 :=
  let w1 := window.getD 1 0
  let w14 := window.getD 14 0
  let low := rotateRight w1 7 ^^^ rotateRight w1 18 ^^^ w1 >>> 3
  let high := rotateRight w14 17 ^^^ rotateRight w14 19 ^^^ w14 >>> 10
  window.getD 0 0 + low + window.getD 9 0 + high

def rounds : List UInt32 → List UInt32 → State → State
  | key :: keys, word :: window, s =>
    rounds keys (window ++ [nextWord (word :: window)]) (round s key word)
  | _, _, s => s

def bigWords : Bytes → List UInt32
  | a :: b :: c :: d :: rest =>
    (a.toUInt32 <<< 24 ||| b.toUInt32 <<< 16 ||| c.toUInt32 <<< 8 ||| d.toUInt32) :: bigWords rest
  | _ => []

def compress (s : State) (block : Bytes) : State :=
  let t := rounds roundKeys (bigWords block) s
  ⟨s.a + t.a, s.b + t.b, s.c + t.c, s.d + t.d, s.e + t.e, s.f + t.f, s.g + t.g, s.h + t.h⟩

/-- A one bit, zeros up to a whole block, and the length in bits as eight bytes, high one first. -/
def pad (message : Bytes) : Bytes :=
  let n := message.length
  message ++ 0x80 :: List.replicate ((119 - n % 64) % 64) 0 ++ (Bytes.little 8 (8 * n)).reverse

def bigBytes (w : UInt32) : Bytes := (Bytes.le32 w).reverse

def finish (s : State) : Bytes :=
  bigBytes s.a ++ bigBytes s.b ++ bigBytes s.c ++ bigBytes s.d ++ bigBytes s.e ++ bigBytes s.f
    ++ bigBytes s.g ++ bigBytes s.h

end Sha256

def sha256 (message : Bytes) : Digest :=
  let s := ((Sha256.pad message).chunks 64).foldl Sha256.compress Sha256.start
  ⟨Sha256.finish s, by simp [Sha256.finish, Sha256.bigBytes, Bytes.le32, Bytes.length_little]⟩

end SeedTree
