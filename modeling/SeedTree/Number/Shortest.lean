import SeedTree.Number.Decimal

/- The shortest decimal that reads back as a given double, and the texts written from it. -/
namespace SeedTree

namespace Binary64

/-- The open or closed interval of quarter units that round to a positive finite number. -/
structure Interval where
  low : Nat
  high : Nat
  closed : Bool

/-- Half a step below and above; below a power of two the step down is half as long. Both ends round
to the number exactly if its significand is even. -/
def roundingInterval (x : Binary64) : Interval :=
  let step := twoTo x.unitExponent
  let below := if x.fractionField = 0 ∧ 1 < x.exponentField then step else 2 * step
  ⟨4 * x.magnitude - below, 4 * x.magnitude + 2 * step, x.significand % 2 = 0⟩

def Interval.contains (i : Interval) (num den : Nat) : Bool :=
  if i.closed then i.low * den ≤ num && num ≤ i.high * den
  else i.low * den < num && num < i.high * den

def powerOfTen (e : Int) : Nat × Nat :=
  if 0 ≤ e then (4 * one * tenTo e.toNat, 1) else (4 * one, tenTo (-e).toNat)

/-- The multiple of `10 ^ e` nearest to the number among its two neighbours, if it lies in the
interval; of two equally near ones the even. -/
def onGrid? (x : Binary64) (e : Int) : Option Decimal :=
  let (num, den) := powerOfTen e
  let target := 4 * x.magnitude * den
  let q := target / num
  let i := x.roundingInterval
  let lowIn := i.contains (q * num) den
  let highIn := i.contains ((q + 1) * num) den
  let nearLow := 2 * (target - q * num)
  if lowIn && highIn then
    if nearLow < num || (nearLow = num && q % 2 = 0) then some ⟨q, e⟩ else some ⟨q + 1, e⟩
  else if lowIn then some ⟨q, e⟩
  else if highIn then some ⟨q + 1, e⟩
  else none

def leadingExponent (x : Binary64) : Int :=
  let whole := x.magnitude / one
  if 0 < whole then (Decimal.digitsOfNat whole).length - 1
  else
    let scaled := x.magnitude * tenTo 400 / one
    (Decimal.digitsOfNat scaled).length - 401

def firstHit (x : Binary64) (top : Int) : Nat → Int → Option Decimal
  | 0, _ => none
  | fuel + 1, count =>
    match x.onGrid? (top + 1 - count) with
    | some d => some d
    | none => firstHit x top fuel (count + 1)

def trim : Nat → Decimal → Decimal
  | 0, d => d
  | fuel + 1, d =>
    if d.digits ≠ 0 ∧ d.digits % 10 = 0 then trim fuel ⟨d.digits / 10, d.exponent + 1⟩ else d

/-- The fewest digits that read back as a positive finite number, nearest to it among those. -/
def shortest (x : Binary64) : Decimal :=
  trim 20 ((x.firstHit x.leadingExponent 17 1).getD ⟨0, 0⟩)

def zeros (n : Nat) : List Char := List.replicate n '0'

def positional (digits : List Char) (point : Int) (wholeEnd : List Char) : List Char :=
  if point ≤ 0 then '0' :: '.' :: zeros (-point).toNat ++ digits
  else if digits.length ≤ point.toNat then
    digits ++ zeros (point.toNat - digits.length) ++ wholeEnd
  else digits.take point.toNat ++ '.' :: digits.drop point.toNat

def signText (x : Binary64) : List Char := if x.isNegative then ['-'] else []

def plainText (x : Binary64) : String :=
  if x.isNaN then "NaN"
  else if x.isInfinite then String.ofList (x.signText ++ "inf".toList)
  else if x.isZero then String.ofList (x.signText ++ ['0'])
  else
    let d := x.shortest
    let digits := Decimal.digitsOfNat d.digits
    String.ofList (x.signText ++ positional digits (digits.length + d.exponent) [])

/-- The text in a document: a point or an exponent always shows, and an exponent stands from 1e16 on
and below 1e-5. -/
def documentText (x : Binary64) : String :=
  if !x.isFinite then "null"
  else if x.isZero then String.ofList (x.signText ++ "0.0".toList)
  else
    let d := x.shortest
    let digits := Decimal.digitsOfNat d.digits
    let point : Int := digits.length + d.exponent
    let body :=
      if -5 < point ∧ point ≤ 16 then positional digits point ['.', '0']
      else
        let exponent := (Decimal.intText (point - 1)).toList
        match digits with
        | [] => []
        | [only] => only :: 'e' :: exponent
        | first :: more => first :: '.' :: more ++ 'e' :: exponent
    String.ofList (x.signText ++ body)

/-- Two places after the point, the exact value rounded and a half to the even neighbour. -/
def twoPlaces (x : Binary64) : String :=
  if !x.isFinite then x.plainText
  else
    let hundredths := divNearest (x.magnitude * 100) one
    let fraction := hundredths % 100
    String.ofList (x.signText ++ Decimal.digitsOfNat (hundredths / 100) ++
      ['.', Char.ofNat (48 + fraction / 10), Char.ofNat (48 + fraction % 10)])

end Binary64

end SeedTree
