import SeedTree.Stream.ChaCha

/- Draws from a word sequence. A draw starts at a position and leaves the position after the words
   it used. Uniform draws reject words until one falls into the accepted zone, and have no result
   when that many rejections in a row exceed their fuel. -/
namespace SeedTree

def Draw (α : Type) := Words → Nat → Option (α × Nat)

namespace Draw

def pure {α : Type} (a : α) : Draw α := fun _ i => some (a, i)

def bind {α β : Type} (d : Draw α) (f : α → Draw β) : Draw β := fun ws i =>
  match d ws i with
  | none => none
  | some (a, j) => f a ws j

instance : Monad Draw where
  pure := pure
  bind := bind

def word : Draw UInt32 := fun ws i => some (ws i, i + 1)

def word64 : Draw UInt64 := do
  let low ← word
  let high ← word
  return low.toUInt64 ||| high.toUInt64 <<< 32

def upper16 : Draw Nat := do
  let w ← word
  return w.toNat / twoTo 16

/-- A number below 2^53, which stands for that many units of 2^-53. -/
def unit53 : Draw Nat := do
  let w ← word64
  return w.toNat / twoTo 11

def fill (length : Nat) : Draw Bytes := fun ws i =>
  let count := (length + 3) / 4
  let bs := (List.range count).flatMap fun k => Bytes.le32 (ws (i + k))
  some (bs.take length, i + count)

def leadingZeros (bits n : Nat) : Nat := if n = 0 then bits else bits - 1 - Nat.log2 n

/-- The largest accepted low half for a range of `r` values out of `2 ^ bits`. -/
def zone (bits r : Nat) : Nat :=
  (r * twoTo (leadingZeros bits r) % twoTo bits + twoTo bits - 1) % twoTo bits

/-- What one word answers for a range of `r` values: the high half of its product with `r`, if the
low half is in the zone. -/
def accept? (bits r word : Nat) : Option Nat :=
  let p := word * r
  if p % twoTo bits ≤ zone bits r then some (p / twoTo bits) else none

def untilSome {α : Type} (d : Draw (Option α)) : Nat → Draw α
  | 0 => fun _ _ => none
  | fuel + 1 => do
    match ← d with
    | some a => pure a
    | none => untilSome d fuel

/-- A number from `lo` to `hi`, both included. Equal bounds take no word, and the full range takes
one word as it is. -/
def range (fuel : Nat) (lo hi : UInt32) : Draw UInt32 :=
  if hi ≤ lo then pure lo
  else
    let r := (hi - lo + 1).toNat
    if r = 0 then word
    else do
      let n ← untilSome (do let w ← word; return accept? 32 r w.toNat) fuel
      return lo + UInt32.ofNat n

/-- A position in a list of `length` entries; a list of at most one entry takes no word. -/
def index (fuel length : Nat) : Draw Nat :=
  if length ≤ 1 then pure 0
  else untilSome (do let w ← word64; return accept? 64 length w.toNat) fuel

/-- How many rejected words a draw puts up with. -/
def patience : Nat := twoTo 60

end Draw

end SeedTree
