import SeedTree.Number.Shortest
import SeedTree.Text

/- The values that configuration documents hold, whatever they are written in, and their readings as
   numbers, truth values and texts. -/
namespace SeedTree

inductive Value where
  | null
  | bool (b : Bool)
  | int (n : Int)
  | float (x : Binary64)
  | text (s : String)
  | list (items : List Value)
  | table (entries : List (String × Value))

namespace Value

/-- The value under a key; the last one if there are several. -/
def find? (key : String) : List (String × Value) → Option Value
  | [] => none
  | (k, v) :: more =>
    match find? key more with
    | some later => some later
    | none => if k = key then some v else none

def put (key : String) (value : Value) : List (String × Value) → List (String × Value)
  | [] => [(key, value)]
  | (k, v) :: more => if k = key then (k, value) :: more else (k, v) :: put key value more

mutual

def settle : Value → Value
  | list items => list (settleItems items)
  | table entries => table (settleEntries entries)
  | null => null
  | bool b => bool b
  | int n => int n
  | float x => float x
  | text s => text s

def settleItems : List Value → List Value
  | [] => []
  | v :: more => v.settle :: settleItems more

def settleEntries : List (String × Value) → List (String × Value)
  | [] => []
  | (k, v) :: more =>
    let rest := settleEntries more
    if rest.any (·.1 = k) then rest else (k, v.settle) :: rest

end

def yesWords : List String := ["true", "on", "yes"]
def noWords : List String := ["false", "off", "no"]

/-- Decimal digits, a plus sign allowed before them, below 2^64. -/
def unsigned? (s : String) : Option Nat := (Decimal.readNat? s.toList).filter (· < twoTo 64)

/-- A reading as a number of 64 bits. Truth values count as one and zero; fractions round away from
zero from a half on; what is too large for a fraction is cut to the largest number. -/
def toNat? : Value → Option Nat
  | int n => if 0 ≤ n ∧ n < twoTo 64 then some n.toNat else none
  | bool b => some (if b then 1 else 0)
  | float x => some x.roundToUInt64
  | text s =>
    let word := Text.lowerAscii s
    if yesWords.contains word then some 1
    else if noWords.contains word then some 0
    else unsigned? s
  | _ => none

def toUInt64? (v : Value) : Option UInt64 := v.toNat?.map UInt64.ofNat

def toUInt32? (v : Value) : Option UInt32 :=
  v.toNat?.bind fun n => if n < twoTo 32 then some (UInt32.ofNat n) else none

def toFloat? : Value → Option Binary64
  | int n => some (.ofInt n)
  | bool b => some (.ofNat (if b then 1 else 0))
  | float x => some x
  | text s =>
    let word := Text.lowerAscii s
    if yesWords.contains word then some (.ofNat 1)
    else if noWords.contains word then some .zero
    else Binary64.read? s
  | _ => none

def toBool? : Value → Option Bool
  | int n => some (n ≠ 0)
  | bool b => some b
  | float x => some !x.isZero
  | text s =>
    let word := Text.lowerAscii s
    if word = "1" || yesWords.contains word then some true
    else if word = "0" || noWords.contains word then some false
    else none
  | _ => none

def toText? : Value → Option String
  | int n => some (Decimal.intText n)
  | bool b => some (if b then "true" else "false")
  | float x => some x.plainText
  | text s => some s
  | _ => none

end Value

end SeedTree
