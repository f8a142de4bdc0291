import SeedTree.Bytes.Words

/- Double-precision numbers by their bits. A finite one is an integer number of units of 2^-1074, so
   comparing and rounding need integers only. -/
namespace SeedTree

structure Binary64 where
  bits : UInt64
  deriving DecidableEq, Repr

namespace Binary64

def isNegative (x : Binary64) : Bool := twoTo 63 ≤ x.bits.toNat

def exponentField (x : Binary64) : Nat := x.bits.toNat / twoTo 52 % twoTo 11

def fractionField (x : Binary64) : Nat := x.bits.toNat % twoTo 52

def isFinite (x : Binary64) : Bool := x.exponentField < 2047

def isNaN (x : Binary64) : Bool := x.exponentField = 2047 && x.fractionField ≠ 0

def isInfinite (x : Binary64) : Bool := x.exponentField = 2047 && x.fractionField = 0

def significand (x : Binary64) : Nat :=
  if x.exponentField = 0 then x.fractionField else twoTo 52 + x.fractionField

/-- The power of two, in units, that one step of the significand stands for. -/
def unitExponent (x : Binary64) : Nat := x.exponentField - 1

def magnitude (x : Binary64) : Nat := x.significand * twoTo x.unitExponent

def value (x : Binary64) : Int := if x.isNegative then -(x.magnitude : Int) else x.magnitude

def isZero (x : Binary64) : Bool := x.isFinite && x.magnitude = 0

def one : Nat := twoTo 1074

def ofParts (negative : Bool) (magnitudeBits : Nat) : Binary64 :=
  ⟨UInt64.ofNat ((if negative then twoTo 63 else 0) + magnitudeBits)⟩

def zero : Binary64 := ⟨0⟩
def infinity (negative : Bool) : Binary64 := ofParts negative (2047 * twoTo 52)
def nan : Binary64 := ofParts false (2047 * twoTo 52 + twoTo 51)

def divNearest (num den : Nat) : Nat :=
  let q := num / den
  let r := num % den
  if 2 * r < den then q else if den < 2 * r then q + 1 else q + q % 2

/-- The bits of the magnitude nearest to `num / den` units. A significand that rounds up to the next
power of two carries into the exponent, as the layout wants it. -/
def nearestBits (num den : Nat) : Nat :=
  let q := num / den
  let shift := if q < twoTo 53 then 0 else Nat.log2 q - 52
  shift * twoTo 52 + divNearest num (den * twoTo shift)

def ofRatio (negative : Bool) (num den : Nat) : Binary64 :=
  ofParts negative (min (nearestBits (num * one) den) (2047 * twoTo 52))

def ofNat (n : Nat) : Binary64 := ofRatio false n 1

def ofInt (n : Int) : Binary64 := ofRatio (n < 0) n.natAbs 1

def neg (x : Binary64) : Binary64 := ofParts (!x.isNegative) (x.bits.toNat % twoTo 63)

def mul (x y : Binary64) : Binary64 :=
  let negative := x.isNegative != y.isNegative
  if x.isNaN || y.isNaN then nan
  else if x.isInfinite || y.isInfinite then
    if x.isZero || y.isZero then nan else infinity negative
  else ofRatio negative (x.magnitude * y.magnitude) (one * one)

def div (x y : Binary64) : Binary64 :=
  let negative := x.isNegative != y.isNegative
  if x.isNaN || y.isNaN then nan
  else if x.isInfinite then if y.isInfinite then nan else infinity negative
  else if y.isInfinite then ofParts negative 0
  else if y.isZero then if x.isZero then nan else infinity negative
  else ofRatio negative x.magnitude y.magnitude

def inUnitInterval (x : Binary64) : Bool := x.isFinite && 0 ≤ x.value && x.value ≤ one

/-- Whether `numerator / 2 ^ scale` is less than the number; nothing is less than a NaN. -/
def exceeds (x : Binary64) (numerator scale : Nat) : Bool :=
  if x.isFinite then numerator * twoTo (1074 - scale) < x.value
  else x.isInfinite && !x.isNegative

def roundHalfAway (x : Binary64) : Int :=
  let n := (2 * x.magnitude + one) / (2 * one)
  if x.isNegative then -(n : Int) else n

/-- The nearest number that 64 bits hold without a sign: zero for a NaN and for all below. -/
def roundToUInt64 (x : Binary64) : Nat :=
  if x.isNaN then 0
  else if x.isInfinite then if x.isNegative then 0 else twoTo 64 - 1
  else min x.roundHalfAway.toNat (twoTo 64 - 1)

def toHex (x : Binary64) : String := Bytes.toHex (Bytes.le64 x.bits).reverse

end Binary64

end SeedTree
