import SeedTree.Document.Value

/- Documents in JSON. A number without a fraction or an exponent is an integer as long as 64 signed
   bits hold it. Any other number is formed in steps: a significand of 64 bits, and then one
   multiplication or division by a power of ten, each rounded. -/
namespace SeedTree.Json

def isSpace (c : Char) : Bool := c = ' ' || c = '\t' || c = '\n' || c = '\r'

def skipSpace (cs : List Char) : List Char := cs.dropWhile isSpace

/-- The significand after more digits, how many digits it took and how many did not fit. -/
def absorb (significand : Nat) : List Char → Nat × Nat × Nat
  | [] => (significand, 0, 0)
  | c :: cs =>
    let next := 10 * significand + Decimal.digitValue c
    if next < twoTo 64 then
      let (n, taken, left) := absorb next cs
      (n, taken + 1, left)
    else (significand, 0, cs.length + 1)

/-- Divides by ten to the power `n`, 308 places at a time. -/
def scaleDown (x : Binary64) : Nat → Nat → Binary64
  | 0, _ => x
  | fuel + 1, n =>
    if n ≤ 308 then x.div (.ofNat (tenTo n))
    else if x.isZero then x
    else scaleDown (x.div (.ofNat (tenTo 308))) fuel (n - 308)

def scaled? (significand : Nat) (exponent : Int) : Option Binary64 :=
  let x := Binary64.ofNat significand
  if exponent < 0 then some (scaleDown x 20 exponent.natAbs)
  else if 308 < exponent then if significand = 0 then some x else none
  else
    let y := x.mul (.ofNat (tenTo exponent.toNat))
    if y.isInfinite then none else some y

/-- An exponent that needs more than 31 bits counts as 2^31. -/
def exponentOf (digits : List Char) : Nat := min (Decimal.natOfDigits digits) (twoTo 31)

def readExponent? (cs : List Char) : Option (Int × List Char) :=
  let (negative, cs) := Decimal.splitSign cs
  let digits := cs.takeWhile Decimal.isDigit
  if digits.isEmpty then none
  else
    let n := exponentOf digits
    some (if negative then -(n : Int) else n, cs.drop digits.length)

def readWhole? (cs : List Char) : Option (List Char × List Char) :=
  let digits := cs.takeWhile Decimal.isDigit
  match digits with
  | [] => none
  | '0' :: _ :: _ => none
  | _ => some (digits, cs.drop digits.length)

def readFraction? : List Char → Option (List Char × List Char)
  | '.' :: cs =>
    let digits := cs.takeWhile Decimal.isDigit
    if digits.isEmpty then none else some (digits, cs.drop digits.length)
  | cs => some ([], cs)

def wholeValue (negative : Bool) (n : Nat) : Value :=
  if negative then
    if n = 0 ∨ twoTo 63 < n then .float (Binary64.ofNat n).neg else .int (-(n : Int))
  else if n < twoTo 63 then .int n
  else .float (.ofNat n)

def readNumber? (cs : List Char) : Option (Value × List Char) := do
  let (negative, cs) := match cs with
    | '-' :: rest => (true, rest)
    | _ => (false, cs)
  let (whole, cs) ← readWhole? cs
  let (significand, _, left) := absorb 0 whole
  let signed (x : Binary64) : Value := .float (if negative then x.neg else x)
  let (fraction, cs) ← readFraction? cs
  let (significand, taken, _) := absorb significand fraction
  let exponent : Int := (left : Int) - taken
  match cs with
  | 'e' :: rest | 'E' :: rest =>
    let (shift, rest) ← readExponent? rest
    let x ← scaled? significand (exponent + shift)
    return (signed x, rest)
  | _ =>
    if fraction.isEmpty && left = 0 then return (wholeValue negative significand, cs)
    else
      let x ← scaled? significand exponent
      return (signed x, cs)

def hexQuad? : List Char → Option (Nat × List Char)
  | a :: b :: c :: d :: rest => do
    let a ← Bytes.hexValue? a
    let b ← Bytes.hexValue? b
    let c ← Bytes.hexValue? c
    let d ← Bytes.hexValue? d
    return (4096 * a + 256 * b + 16 * c + d, rest)
  | _ => none

def isHighHalf (n : Nat) : Bool := 0xD800 ≤ n && n < 0xDC00
def isLowHalf (n : Nat) : Bool := 0xDC00 ≤ n && n < 0xE000

/-- The character of a numeric escape; one beyond sixteen bits takes two. -/
def readCodePoint? (cs : List Char) : Option (Char × List Char) := do
  let (n, cs) ← hexQuad? cs
  if isLowHalf n then none
  else if isHighHalf n then
    match cs with
    | '\\' :: 'u' :: rest => do
      let (m, rest) ← hexQuad? rest
      if isLowHalf m then
        return (Char.ofNat (0x10000 + (n - 0xD800) * 0x400 + (m - 0xDC00)), rest)
      else none
    | _ => none
  else return (Char.ofNat n, cs)

def readEscape? : List Char → Option (Char × List Char)
  | '"' :: cs => some ('"', cs)
  | '\\' :: cs => some ('\\', cs)
  | '/' :: cs => some ('/', cs)
  | 'b' :: cs => some ('\x08', cs)
  | 'f' :: cs => some ('\x0c', cs)
  | 'n' :: cs => some ('\n', cs)
  | 'r' :: cs => some ('\r', cs)
  | 't' :: cs => some ('\t', cs)
  | 'u' :: cs => readCodePoint? cs
  | _ => none

def readText? : Nat → List Char → List Char → Option (String × List Char)
  | 0, _, _ => none
  | _, _, [] => none
  | fuel + 1, done, c :: cs =>
    if c = '"' then some (String.ofList done.reverse, cs)
    else if c = '\\' then do
      let (c, cs) ← readEscape? cs
      readText? fuel (c :: done) cs
    else if c.toNat < 0x20 then none
    else readText? fuel (c :: done) cs

def word? (word : String) (cs : List Char) : Option (List Char) :=
  if word.toList.isPrefixOf cs then some (cs.drop word.length) else none

mutual

def readValue? : Nat → Nat → List Char → Option (Value × List Char)
  | 0, _, _ => none
  | fuel + 1, depth, cs =>
    match skipSpace cs with
    | '[' :: rest =>
      if depth ≤ 1 then none
      else match skipSpace rest with
        | ']' :: rest => some (.list [], rest)
        | rest => readItems? fuel (depth - 1) [] rest
    | '\x7b' :: rest =>
      if depth ≤ 1 then none
      else match skipSpace rest with
        | '\x7d' :: rest => some (.table [], rest)
        | rest => readEntries? fuel (depth - 1) [] rest
    | '"' :: rest => (readText? (rest.length + 1) [] rest).map fun (s, rest) => (.text s, rest)
    | 'n' :: rest => (word? "ull" rest).map fun rest => (.null, rest)
    | 't' :: rest => (word? "rue" rest).map fun rest => (.bool true, rest)
    | 'f' :: rest => (word? "alse" rest).map fun rest => (.bool false, rest)
    | rest => readNumber? rest

def readItems? : Nat → Nat → List Value → List Char → Option (Value × List Char)
  | 0, _, _, _ => none
  | fuel + 1, depth, done, cs => do
    let (v, cs) ← readValue? fuel depth cs
    match skipSpace cs with
    | ',' :: cs => readItems? fuel depth (v :: done) cs
    | ']' :: cs => return (.list (v :: done).reverse, cs)
    | _ => none

def readEntries? : Nat → Nat → List (String × Value) → List Char → Option (Value × List Char)
  | 0, _, _, _ => none
  | fuel + 1, depth, done, cs =>
    match skipSpace cs with
    | '"' :: cs => do
      let (key, cs) ← readText? (cs.length + 1) [] cs
      match skipSpace cs with
      | ':' :: cs => do
        let (v, cs) ← readValue? fuel depth cs
        match skipSpace cs with
        | ',' :: cs => readEntries? fuel depth ((key, v) :: done) cs
        | '\x7d' :: cs => return (.table ((key, v) :: done).reverse, cs)
        | _ => none
      | _ => none
    | _ => none

end

/-- The value a whole document holds, with every entry it writes; lists and tables nest at most 127
levels deep. -/
def read? (s : String) : Option Value := do
  let cs := s.toList
  let (v, rest) ← readValue? (2 * cs.length + 2) 128 cs
  if (skipSpace rest).isEmpty then return v else none

end SeedTree.Json
