import SeedTree.Document.Json
import SeedTree.Text.Blank

/- Documents in JSON5: comments, keys without quotes, texts between single quotes, trailing commas
   and more spellings of numbers. -/
namespace SeedTree.Json5

def isLineEnd (c : Char) : Bool := c = '\n' || c = '\r' || c = '\u2028' || c = '\u2029'

def isSpace (c : Char) : Bool := (Text.isBlank c && c ≠ '\u0085') || c = '\ufeff'

def afterBlock? : List Char → Option (List Char)
  | [] => none
  | '*' :: '/' :: cs => some cs
  | _ :: cs => afterBlock? cs

def skip : Nat → List Char → List Char
  | 0, cs => cs
  | fuel + 1, cs =>
    match cs.dropWhile isSpace with
    | '/' :: '/' :: rest => skip fuel (rest.dropWhile fun c => !isLineEnd c)
    | '/' :: '*' :: rest =>
      match afterBlock? rest with
      | some rest => skip fuel rest
      | none => '/' :: '*' :: rest
    | rest => rest

def skipAll (cs : List Char) : List Char := skip (cs.length + 1) cs

def escape? : List Char → Option (List Char × List Char)
  | '\r' :: '\n' :: cs => some ([], cs)
  | c :: cs =>
    if isLineEnd c then some ([], cs)
    else match c with
      | 'b' => some (['\x08'], cs)
      | 'f' => some (['\x0c'], cs)
      | 'n' => some (['\n'], cs)
      | 'r' => some (['\r'], cs)
      | 't' => some (['\t'], cs)
      | 'v' => some (['\x0b'], cs)
      | '0' => if (cs.head?.map Decimal.isDigit).getD false then none else some (['\x00'], cs)
      | 'x' =>
        match cs with
        | a :: b :: rest => do
          let a ← Bytes.hexValue? a
          let b ← Bytes.hexValue? b
          return ([Char.ofNat (16 * a + b)], rest)
        | _ => none
      | 'u' => (Json.readCodePoint? cs).map fun (c, rest) => ([c], rest)
      | _ => if Decimal.isDigit c then none else some ([c], cs)
  | [] => none

def text? (quote : Char) : Nat → List Char → List Char → Option (String × List Char)
  | 0, _, _ => none
  | _, _, [] => none
  | fuel + 1, done, c :: cs =>
    if c = quote then some (String.ofList done.reverse, cs)
    else if c = '\\' then do
      let (shown, cs) ← escape? cs
      text? quote fuel (shown ++ done) cs
    else if c = '\n' || c = '\r' then none
    else text? quote fuel (c :: done) cs

def isNameChar (c : Char) : Bool :=
  c.isAlphanum || c = '_' || c = '$' || (0x80 ≤ c.toNat && !isSpace c && !isLineEnd c)

def key? : List Char → Option (String × List Char)
  | '"' :: cs => text? '"' (cs.length + 1) [] cs
  | '\'' :: cs => text? '\'' (cs.length + 1) [] cs
  | cs =>
    let name := cs.takeWhile isNameChar
    match name with
    | [] => none
    | c :: _ =>
      if Decimal.isDigit c then none else some (String.ofList name, cs.drop name.length)

def isNumberChar (c : Char) : Bool := c.isAlphanum || c = '+' || c = '-' || c = '.'

def hasPoint (c : Char) : Bool := c = '.' || c = 'e' || c = 'E'

/-- Integers have 64 signed bits, hexadecimal ones 32 and no sign; other numbers must be finite
unless they are infinities or NaN by name. -/
def number? (token : List Char) : Option Value :=
  let (negative, rest) := Decimal.splitSign token
  if rest = "Infinity".toList then
    if token.head? = some '+' then none else some (.float (.infinity negative))
  else if rest = "NaN".toList then if token.head? = some '+' then none else some (.float .nan)
  else match token with
    | '0' :: 'x' :: digits | '0' :: 'X' :: digits => do
      let values ← digits.mapM Bytes.hexValue?
      let n : Nat := values.foldl (fun n d => 16 * n + d) 0
      if digits.isEmpty || twoTo 32 ≤ n then none else return .int (n : Int)
    | _ =>
      match rest with
      | '0' :: c :: _ => if Decimal.isDigit c then none else fromPlain negative rest
      | _ => fromPlain negative rest
where
  fromPlain (negative : Bool) (rest : List Char) : Option Value := do
    if rest.any hasPoint then
      let d ← Decimal.read? rest
      let x := d.toBinary64 negative
      if x.isFinite then return .float x else none
    else
      let n ← Decimal.readInt? rest
      let n := if negative then -n else n
      if rest.all Decimal.isDigit && fitsInt64 n then return .int n else none

def scalar? (cs : List Char) : Option (Value × List Char) :=
  let token := cs.takeWhile isNumberChar
  let rest := cs.drop token.length
  if token = "null".toList then some (.null, rest)
  else if token = "true".toList then some (.bool true, rest)
  else if token = "false".toList then some (.bool false, rest)
  else (number? token).map fun v => (v, rest)

mutual

def value? : Nat → List Char → Option (Value × List Char)
  | 0, _ => none
  | fuel + 1, cs =>
    match skipAll cs with
    | '[' :: rest => items? fuel [] rest
    | '\x7b' :: rest => pairs? fuel [] rest
    | '"' :: rest => (text? '"' (rest.length + 1) [] rest).map fun (s, rest) => (.text s, rest)
    | '\'' :: rest => (text? '\'' (rest.length + 1) [] rest).map fun (s, rest) => (.text s, rest)
    | rest => scalar? rest

def items? : Nat → List Value → List Char → Option (Value × List Char)
  | 0, _, _ => none
  | fuel + 1, done, cs =>
    match skipAll cs with
    | ']' :: rest => some (.list done.reverse, rest)
    | cs => do
      let (v, cs) ← value? fuel cs
      match skipAll cs with
      | ',' :: cs => items? fuel (v :: done) cs
      | ']' :: cs => return (.list (v :: done).reverse, cs)
      | _ => none

def pairs? : Nat → List (String × Value) → List Char → Option (Value × List Char)
  | 0, _, _ => none
  | fuel + 1, done, cs =>
    match skipAll cs with
    | '\x7d' :: rest => some (.table done.reverse, rest)
    | cs => do
      let (key, cs) ← key? cs
      match skipAll cs with
      | ':' :: cs => do
        let (v, cs) ← value? fuel cs
        match skipAll cs with
        | ',' :: cs => pairs? fuel ((key, v) :: done) cs
        | '\x7d' :: cs => return (.table ((key, v) :: done).reverse, cs)
        | _ => none
      | _ => none

end

def read? (s : String) : Option Value := do
  let cs := s.toList
  let (v, rest) ← value? (2 * cs.length + 2) cs
  if (skipAll rest).isEmpty then return v else none

end SeedTree.Json5
