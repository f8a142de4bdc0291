import SeedTree.Number.Binary64

/- Decimal numbers and the doubles nearest to them. -/
namespace SeedTree

/-- The number `digits * 10 ^ exponent`. -/
structure Decimal where
  digits : Nat
  exponent : Int
  deriving DecidableEq, Repr

namespace Decimal

def isDigit (c : Char) : Bool := '0' ≤ c && c ≤ '9'

def digitValue (c : Char) : Nat := c.toNat - 48

def natOfDigits (cs : List Char) : Nat := cs.foldl (fun n c => 10 * n + digitValue c) 0

def digitsOfNat (n : Nat) : List Char := Nat.toDigits 10 n

def natText (n : Nat) : String := String.ofList (digitsOfNat n)

def intText (n : Int) : String := if n < 0 then "-" ++ natText n.natAbs else natText n.natAbs

/-- The nearest double. Beyond 10^400 it is infinite and below 10^-400 zero, so no larger power of
ten is ever formed. -/
def toBinary64 (negative : Bool) (d : Decimal) : Binary64 :=
  if d.digits = 0 then .ofParts negative 0
  else
    let top : Int := (digitsOfNat d.digits).length + d.exponent
    if 400 < top then .infinity negative
    else if top < -400 then .ofParts negative 0
    else if 0 ≤ d.exponent then .ofRatio negative (d.digits * tenTo d.exponent.toNat) 1
    else .ofRatio negative d.digits (tenTo (-d.exponent).toNat)

def splitSign : List Char → Bool × List Char
  | '-' :: cs => (true, cs)
  | '+' :: cs => (false, cs)
  | cs => (false, cs)

def readInt? (cs : List Char) : Option Int :=
  let (negative, rest) := splitSign cs
  if rest.isEmpty || !rest.all isDigit then none
  else some (if negative then -(natOfDigits rest : Int) else natOfDigits rest)

def readNat? (cs : List Char) : Option Nat :=
  let digits := match cs with
    | '+' :: rest => rest
    | _ => cs
  if digits.isEmpty || !digits.all isDigit then none else some (natOfDigits digits)

def readExponent? : List Char → Option Int
  | [] => some 0
  | 'e' :: cs => readInt? cs
  | 'E' :: cs => readInt? cs
  | _ => none

def read? (cs : List Char) : Option Decimal :=
  let whole := cs.takeWhile isDigit
  let rest := cs.dropWhile isDigit
  let (fraction, rest) :=
    match rest with
    | '.' :: more => (more.takeWhile isDigit, more.dropWhile isDigit)
    | _ => ([], rest)
  if whole.isEmpty && fraction.isEmpty then none
  else (readExponent? rest).map fun e =>
    ⟨natOfDigits (whole ++ fraction), e - fraction.length⟩

end Decimal

namespace Binary64

def read? (s : String) : Option Binary64 :=
  let (negative, rest) := Decimal.splitSign s.toList
  let word := String.ofList (rest.map Char.toLower)
  if word = "inf" || word = "infinity" then some (infinity negative)
  else if word = "nan" then some (if negative then nan.neg else nan)
  else (Decimal.read? rest).map (Decimal.toBinary64 negative)

end Binary64

end SeedTree
