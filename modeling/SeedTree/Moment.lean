import SeedTree.Number.Decimal
import SeedTree.Text.Blank

/- Moments in universal time to the nanosecond. A leap second is second sixty of its minute. -/
namespace SeedTree

structure Moment where
  year : Int
  month : Nat
  day : Nat
  hour : Nat
  minute : Nat
  second : Nat
  nano : Nat
  deriving DecidableEq, Repr

namespace Moment

def epoch : Moment := ⟨1970, 1, 1, 0, 0, 0, 0⟩

def isLeapYear (year : Int) : Bool := year % 4 = 0 && (year % 100 ≠ 0 || year % 400 = 0)

def daysInMonth (year : Int) (month : Nat) : Nat :=
  match month with
  | 2 => if isLeapYear year then 29 else 28
  | 4 | 6 | 9 | 11 => 30
  | _ => 31

def yearInRange (year : Int) : Bool := -262143 ≤ year && year ≤ 262142

def isValid (m : Moment) : Bool :=
  yearInRange m.year && 1 ≤ m.month && m.month ≤ 12 && 1 ≤ m.day
    && m.day ≤ daysInMonth m.year m.month && m.hour < 24 && m.minute < 60 && m.second ≤ 60
    && m.nano < tenTo 9

def previousDay (m : Moment) : Moment :=
  if 1 < m.day then { m with day := m.day - 1 }
  else if 1 < m.month then { m with month := m.month - 1, day := daysInMonth m.year (m.month - 1) }
  else { m with year := m.year - 1, month := 12, day := 31 }

def nextDay (m : Moment) : Moment :=
  if m.day < daysInMonth m.year m.month then { m with day := m.day + 1 }
  else if m.month < 12 then { m with month := m.month + 1, day := 1 }
  else { m with year := m.year + 1, month := 1, day := 1 }

def afterEpoch (seconds nano : Nat) : Moment :=
  let day := Nat.repeat nextDay (seconds / 86400) epoch
  let rest := seconds % 86400
  { day with hour := rest / 3600, minute := rest / 60 % 60, second := rest % 60, nano }

def minutesBefore (m : Moment) (offset : Int) : Moment :=
  let total : Int := m.hour * 60 + m.minute - offset
  let moved := if total < 0 then m.previousDay else if 1440 ≤ total then m.nextDay else m
  let ofDay := (total % 1440).toNat
  { moved with hour := ofDay / 60, minute := ofDay % 60 }

def padded (width n : Nat) : List Char :=
  let digits := Decimal.digitsOfNat n
  List.replicate (width - digits.length) '0' ++ digits

/-- Four digits, or a sign and at least five for years that four digits cannot hold. -/
def yearText (year : Int) : List Char :=
  if 0 ≤ year ∧ year ≤ 9999 then padded 4 year.toNat
  else if year < 0 then '-' :: padded 4 year.natAbs
  else '+' :: padded 4 year.toNat

/-- No digits, or three, six or nine: the fewest that are exact. -/
def fractionText (nano : Nat) : List Char :=
  if nano = 0 then []
  else if nano % tenTo 6 = 0 then '.' :: padded 3 (nano / tenTo 6)
  else if nano % tenTo 3 = 0 then '.' :: padded 6 (nano / tenTo 3)
  else '.' :: padded 9 nano

def textBeforeZone (m : Moment) : List Char :=
  yearText m.year ++ '-' :: padded 2 m.month ++ '-' :: padded 2 m.day ++ 'T' :: padded 2 m.hour
    ++ ':' :: padded 2 m.minute ++ ':' :: padded 2 m.second ++ fractionText m.nano

def toText (m : Moment) : String := String.ofList (m.textBeforeZone ++ ['Z'])

def toOffsetText (m : Moment) : String := String.ofList (m.textBeforeZone ++ "+00:00".toList)

def skipBlanks (cs : List Char) : List Char := cs.dropWhile Text.isBlank

def readDigits? (most : Nat) (cs : List Char) : Option (Nat × List Char) :=
  let digits := (cs.take most).takeWhile Decimal.isDigit
  if digits.isEmpty then none else some (Decimal.natOfDigits digits, cs.drop digits.length)

def readField? (low high : Nat) (cs : List Char) : Option (Nat × List Char) :=
  match readDigits? 2 (skipBlanks cs) with
  | some (n, rest) => if low ≤ n && n ≤ high then some (n, rest) else none
  | none => none

/-- A year of up to four digits, or of any number of digits after a sign. -/
def readYear? (cs : List Char) : Option (Int × List Char) :=
  match skipBlanks cs with
  | '-' :: rest => (readDigits? rest.length rest).map fun (n, rest) => (-(n : Int), rest)
  | '+' :: rest => (readDigits? rest.length rest).map fun (n, rest) => ((n : Int), rest)
  | cs => (readDigits? 4 cs).map fun (n, rest) => ((n : Int), rest)

def readMark? (mark : Char) (cs : List Char) : Option (List Char) :=
  match skipBlanks cs with
  | c :: rest => if c = mark then some rest else none
  | [] => none

/-- The nanoseconds of a fraction of at least one digit; digits after the ninth count for
nothing. -/
def readFraction? : List Char → Option (Nat × List Char)
  | '.' :: cs =>
    let digits := cs.takeWhile Decimal.isDigit
    if digits.isEmpty then none
    else
      let kept := digits.take 9
      some (Decimal.natOfDigits kept * tenTo (9 - kept.length), cs.drop digits.length)
  | cs => some (0, cs)

def isZoneGap (c : Char) : Bool := c = ':' || Text.isBlank c

def twoDigits? : List Char → Option (Nat × List Char)
  | a :: b :: rest =>
    if Decimal.isDigit a && Decimal.isDigit b then
      some (10 * Decimal.digitValue a + Decimal.digitValue b, rest)
    else none
  | _ => none

def readClockOffset? (cs : List Char) : Option (Nat × List Char) := do
  let (hours, rest) ← twoDigits? cs
  let (minutes, rest) ← twoDigits? (rest.dropWhile isZoneGap)
  if minutes < 60 && hours < 24 then some (60 * hours + minutes, rest) else none

def readZone? (cs : List Char) : Option (Int × List Char) :=
  let start := String.ofList ((cs.take 3).map Char.toUpper)
  if start = "UTC" then some (0, cs.drop 3)
  else match cs with
    | 'Z' :: rest => some (0, rest)
    | 'z' :: rest => some (0, rest)
    | '+' :: rest => (readClockOffset? rest).map fun (n, rest) => ((n : Int), rest)
    | '-' :: rest => (readClockOffset? rest).map fun (n, rest) => (-(n : Int), rest)
    | '\u2212' :: rest => (readClockOffset? rest).map fun (n, rest) => (-(n : Int), rest)
    | _ => none

def skipDateMark : List Char → Option (List Char)
  | 'T' :: rest => some rest
  | 't' :: rest => some rest
  | ' ' :: rest => some rest
  | _ => none

def read? (text : String) : Option Moment := do
  let (year, cs) ← readYear? text.toList
  let cs ← readMark? '-' cs
  let (month, cs) ← readField? 1 12 cs
  let cs ← readMark? '-' cs
  let (day, cs) ← readField? 1 31 cs
  let cs ← skipDateMark cs
  let (hour, cs) ← readField? 0 23 cs
  let cs ← readMark? ':' cs
  let (minute, cs) ← readField? 0 59 cs
  let cs ← readMark? ':' cs
  let (second, cs) ← readField? 0 60 cs
  let (nano, cs) ← readFraction? cs
  let (offset, cs) ← readZone? (skipBlanks cs)
  let here : Moment := ⟨year, month, day, hour, minute, second, nano⟩
  let there := here.minutesBefore offset
  if (skipBlanks cs).isEmpty && here.isValid && there.isValid then some there else none

end Moment

end SeedTree
