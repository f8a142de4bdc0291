import SeedTree.Document.Json5

/- Documents in object notation with structures: `Name(field: value)`, tuples, lists, maps and
   options. A structure reads as a table and a tuple as a list; names of structures do not
   matter. -/
namespace SeedTree.Ron

def isSpace (c : Char) : Bool :=
  c = ' ' || c = '\t' || c = '\n' || c = '\r' || c = '\x0b' || c = '\x0c' || c = '\u0085'
    || c = '\u200e' || c = '\u200f' || c = '\u2028' || c = '\u2029'

/-- The rest after a block comment, within which others may stand. -/
def afterBlock? : Nat → List Char → Option (List Char)
  | _, [] => none
  | depth, '/' :: '*' :: cs => afterBlock? (depth + 1) cs
  | depth, '*' :: '/' :: cs => if depth = 0 then some cs else afterBlock? (depth - 1) cs
  | depth, _ :: cs => afterBlock? depth cs

def skip : Nat → List Char → List Char
  | 0, cs => cs
  | fuel + 1, cs =>
    match cs.dropWhile isSpace with
    | '/' :: '/' :: rest => skip fuel (rest.dropWhile (· ≠ '\n'))
    | '/' :: '*' :: rest =>
      match afterBlock? 0 rest with
      | some rest => skip fuel rest
      | none => '/' :: '*' :: rest
    | rest => rest

def skipAll (cs : List Char) : List Char := skip (cs.length + 1) cs

def isNameStart (c : Char) : Bool := c.isAlpha || c = '_'

def isNameChar (c : Char) : Bool := c.isAlphanum || c = '_'

def name? (cs : List Char) : Option (String × List Char) :=
  match cs with
  | c :: _ =>
    if isNameStart c then
      let name := cs.takeWhile isNameChar
      some (String.ofList name, cs.drop name.length)
    else none
  | [] => none

def braced? (cs : List Char) : Option (Char × List Char) := do
  let digits := cs.takeWhile fun c => (Bytes.hexValue? c).isSome
  let values ← digits.mapM Bytes.hexValue?
  let n := values.foldl (fun n d => 16 * n + d) 0
  match cs.drop digits.length with
  | '\x7d' :: rest =>
    if digits.isEmpty || 6 < digits.length || 0x10FFFF < n || (0xD800 ≤ n && n < 0xE000) then none
    else return (Char.ofNat n, rest)
  | _ => none

def escape? : List Char → Option (Char × List Char)
  | '\'' :: cs => some ('\'', cs)
  | '"' :: cs => some ('"', cs)
  | '\\' :: cs => some ('\\', cs)
  | 'n' :: cs => some ('\n', cs)
  | 'r' :: cs => some ('\r', cs)
  | 't' :: cs => some ('\t', cs)
  | '0' :: cs => some ('\x00', cs)
  | 'x' :: a :: b :: cs => do
    let a ← Bytes.hexValue? a
    let b ← Bytes.hexValue? b
    return (Char.ofNat (16 * a + b), cs)
  | 'u' :: '\x7b' :: cs => braced? cs
  | _ => none

def text? : Nat → List Char → List Char → Option (String × List Char)
  | 0, _, _ => none
  | _, _, [] => none
  | fuel + 1, done, c :: cs =>
    if c = '"' then some (String.ofList done.reverse, cs)
    else if c = '\\' then do
      let (c, cs) ← escape? cs
      text? fuel (c :: done) cs
    else text? fuel (c :: done) cs

/-- The rest of a raw text, which ends with a quote and as many hashes as it began with. -/
def raw? (ending : List Char) : Nat → List Char → List Char → Option (String × List Char)
  | 0, _, _ => none
  | _, _, [] => none
  | fuel + 1, done, c :: cs =>
    if ending.isPrefixOf (c :: cs) then
      some (String.ofList done.reverse, (c :: cs).drop ending.length)
    else raw? ending fuel (c :: done) cs

def rawText? (cs : List Char) : Option (String × List Char) :=
  let hashes := cs.takeWhile (· = '#')
  match cs.drop hashes.length with
  | '"' :: rest => raw? ('"' :: hashes) (rest.length + 1) [] rest
  | _ => none

def char? (cs : List Char) : Option (Char × List Char) := do
  let (c, rest) ← match cs with
    | '\\' :: rest => escape? rest
    | c :: rest => some (c, rest)
    | [] => none
  match rest with
  | '\'' :: rest => return (c, rest)
  | _ => none

def isNumberChar (c : Char) : Bool :=
  c.isAlphanum || c = '+' || c = '-' || c = '.' || c = '_'

def notUnderscore (c : Char) : Bool := c ≠ '_'

def based? (negative : Bool) (base : Nat) (digits : List Char) : Option Value := do
  let values ← digits.mapM Bytes.hexValue?
  if digits.isEmpty || values.any fun d => base ≤ d then none
  else
    let n := values.foldl (fun n d => base * n + d) 0
    wholeOf (if negative then -(n : Int) else n)
where
  /-- Integers of 64 signed bits; greater ones as fractions. -/
  wholeOf (n : Int) : Option Value :=
    if fitsInt64 n then some (.int n)
    else if 0 ≤ n ∧ n < twoTo 64 then some (.float (.ofInt n))
    else none

def number? (token : List Char) : Option Value :=
  let (negative, rest) := Decimal.splitSign (token.filter notUnderscore)
  if rest = "inf".toList then some (.float (.infinity negative))
  else if rest = "NaN".toList then some (.float (if negative then Binary64.nan.neg else .nan))
  else match rest with
    | '0' :: 'x' :: digits => based? negative 16 digits
    | '0' :: 'o' :: digits => based? negative 8 digits
    | '0' :: 'b' :: digits => based? negative 2 digits
    | _ =>
      if rest.all Decimal.isDigit then based? negative 10 rest
      else (Decimal.read? rest).map fun d => .float (d.toBinary64 negative)

def keyOf? : Value → Option String
  | .text s => some s
  | _ => none

def field? (cs : List Char) : Option (String × List Char) := do
  let (name, rest) ← name? cs
  match skipAll rest with
  | ':' :: rest => return (name, rest)
  | _ => none

mutual

def value? : Nat → List Char → Option (Value × List Char)
  | 0, _ => none
  | fuel + 1, cs =>
    match skipAll cs with
    | '(' :: rest => body? fuel rest
    | '[' :: rest => items? fuel ']' [] rest
    | '\x7b' :: rest => pairs? fuel [] rest
    | '"' :: rest => (text? (rest.length + 1) [] rest).map fun (s, rest) => (.text s, rest)
    | '\'' :: rest => (char? rest).map fun (c, rest) => (.text (String.ofList [c]), rest)
    | 'r' :: '"' :: rest => (rawText? ('"' :: rest)).map fun (s, rest) => (.text s, rest)
    | 'r' :: '#' :: rest => (rawText? ('#' :: rest)).map fun (s, rest) => (.text s, rest)
    | cs =>
      match name? cs with
      | none =>
        let token := cs.takeWhile isNumberChar
        (number? token).map fun v => (v, cs.drop token.length)
      | some (name, rest) =>
        if name = "true" then some (.bool true, rest)
        else if name = "false" then some (.bool false, rest)
        else if name = "None" then some (.null, rest)
        else if name = "inf" || name = "NaN" then (number? name.toList).map fun v => (v, rest)
        else match skipAll rest with
          | '(' :: inner =>
            if name = "Some" then do
              let (v, inner) ← value? fuel inner
              let inner := skipAll inner
              let inner := match inner with
                | ',' :: more => skipAll more
                | _ => inner
              match inner with
              | ')' :: rest => return (v, rest)
              | _ => none
            else body? fuel inner
          | _ => some (.null, rest)

def body? : Nat → List Char → Option (Value × List Char)
  | 0, _ => none
  | fuel + 1, cs =>
    match skipAll cs with
    | ')' :: rest => some (.null, rest)
    | cs => if (field? cs).isSome then fields? fuel [] cs else items? fuel ')' [] cs

def items? : Nat → Char → List Value → List Char → Option (Value × List Char)
  | 0, _, _, _ => none
  | fuel + 1, close, done, cs =>
    match skipAll cs with
    | [] => none
    | c :: rest =>
      if c = close then some (.list done.reverse, rest)
      else do
        let (v, cs) ← value? fuel (c :: rest)
        match skipAll cs with
        | ',' :: cs => items? fuel close (v :: done) cs
        | c :: cs => if c = close then return (.list (v :: done).reverse, cs) else none
        | [] => none

def fields? : Nat → List (String × Value) → List Char → Option (Value × List Char)
  | 0, _, _ => none
  | fuel + 1, done, cs =>
    match skipAll cs with
    | ')' :: rest => some (.table done.reverse, rest)
    | cs => do
      let (name, cs) ← field? cs
      let (v, cs) ← value? fuel cs
      match skipAll cs with
      | ',' :: cs => fields? fuel ((name, v) :: done) cs
      | ')' :: cs => return (.table ((name, v) :: done).reverse, cs)
      | _ => none

def pairs? : Nat → List (String × Value) → List Char → Option (Value × List Char)
  | 0, _, _ => none
  | fuel + 1, done, cs =>
    match skipAll cs with
    | '\x7d' :: rest => some (.table done.reverse, rest)
    | cs => do
      let (key, cs) ← value? fuel cs
      let key ← keyOf? key
      match skipAll cs with
      | ':' :: cs => do
        let (v, cs) ← value? fuel cs
        match skipAll cs with
        | ',' :: cs => pairs? fuel ((key, v) :: done) cs
        | '\x7d' :: cs => return (.table ((key, v) :: done).reverse, cs)
        | _ => none
      | _ => none

end

def skipSwitches : Nat → List Char → List Char
  | 0, cs => cs
  | fuel + 1, cs =>
    match skipAll cs with
    | '#' :: '!' :: '[' :: rest => skipSwitches fuel ((rest.dropWhile (· ≠ ']')).drop 1)
    | cs => cs

def read? (s : String) : Option Value := do
  let cs := skipSwitches 8 s.toList
  let (v, rest) ← value? (2 * cs.length + 2) cs
  if (skipAll rest).isEmpty then return v else none

end SeedTree.Ron
