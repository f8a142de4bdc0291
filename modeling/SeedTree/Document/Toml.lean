import SeedTree.Document.Json
import SeedTree.Moment

/- Documents in TOML. A table may be opened once by a header and filled by dotted keys in one place
   only, so every path of a document has one definition. -/
namespace SeedTree.Toml

inductive Step where
  | key (name : String)
  | entry (position : Nat)
  deriving DecidableEq, Repr

/-- What a path has been defined as: a finished value, a table on the way to one with a header, a
table made by dotted keys, a table with a header, or a list of so many tables. -/
inductive Mark where
  | leaf
  | passed
  | dotted
  | headed
  | tables (count : Nat)
  deriving DecidableEq, Repr

/-- The definitions so far and the value they make up. -/
structure Draft where
  marks : List (List Step × Mark) := []
  root : Value := .table []

def Draft.mark? (d : Draft) (path : List Step) : Option Mark :=
  (d.marks.find? (·.1 = path)).map Prod.snd

def Draft.setMark (d : Draft) (path : List Step) (mark : Mark) : Draft :=
  { d with marks := (path, mark) :: d.marks }

def itemsOf : Value → List Value
  | .list items => items
  | _ => []

def entriesOf : Value → List (String × Value)
  | .table entries => entries
  | _ => []

def alterAt (change : Value → Value) : List Step → Value → Value
  | [], v => change v
  | .key name :: more, v =>
    let entries := entriesOf v
    .table (Value.put name (alterAt change more ((Value.find? name entries).getD .null)) entries)
  | .entry position :: more, v =>
    let items := itemsOf v
    let items := items ++ List.replicate (position + 1 - items.length) .null
    .list (items.modify position (alterAt change more))

def Draft.alter (d : Draft) (path : List Step) (change : Value → Value) : Draft :=
  { d with root := alterAt change path d.root }

/-- Goes down along keys, into the last table of a list. Dotted keys may not enter a table that has
a header. -/
def Draft.descend? (d : Draft) (dotted : Bool) (here : List Step) :
    List String → Option (Draft × List Step)
  | [] => some (d, here)
  | name :: more =>
    let path := here ++ [.key name]
    match d.mark? path with
    | none => (d.setMark path (if dotted then .dotted else .passed)).descend? dotted path more
    | some .leaf => none
    | some (.tables count) => d.descend? dotted (path ++ [.entry (count - 1)]) more
    | some .headed => if dotted then none else d.descend? dotted path more
    | some _ => d.descend? dotted path more

def Draft.define? (d : Draft) (here : List Step) (keys : List String) (v : Value) :
    Option Draft := do
  let name ← keys.getLast?
  let above := keys.dropLast
  let (d, table) ← d.descend? true here above
  let path := table ++ [.key name]
  if !above.isEmpty && d.mark? table ≠ some .dotted then none
  else if (d.mark? path).isSome then none
  else return (d.setMark path .leaf).alter path fun _ => v

def Draft.open? (d : Draft) (keys : List String) : Option (Draft × List Step) := do
  let name ← keys.getLast?
  let (d, above) ← d.descend? false [] keys.dropLast
  let path := above ++ [.key name]
  match d.mark? path with
  | none | some .passed =>
    return ((d.setMark path .headed).alter path fun v => .table (entriesOf v), path)
  | _ => none

def Draft.append? (d : Draft) (keys : List String) : Option (Draft × List Step) := do
  let name ← keys.getLast?
  let (d, above) ← d.descend? false [] keys.dropLast
  let path := above ++ [.key name]
  let count ← match d.mark? path with
    | none => some 0
    | some (.tables count) => some count
    | _ => none
  let here := path ++ [.entry count]
  return ((d.setMark path (.tables (count + 1))).alter here fun _ => .table [], here)

/-! Lexical parts. -/

def isSpace (c : Char) : Bool := c = ' ' || c = '\t'

def skipSpace (cs : List Char) : List Char := cs.dropWhile isSpace

def isControl (c : Char) : Bool := (c.toNat < 0x20 && c ≠ '\t') || c.toNat = 0x7F

def newline? : List Char → Option (List Char)
  | '\n' :: cs => some cs
  | '\r' :: '\n' :: cs => some cs
  | _ => none

def skipComment : List Char → List Char
  | '#' :: cs => cs.dropWhile fun c => !isControl c
  | cs => cs

def lineEnd? (cs : List Char) : Option (List Char) :=
  match skipComment (skipSpace cs) with
  | [] => some []
  | cs => newline? cs

def skipLines : Nat → List Char → List Char
  | 0, cs => cs
  | fuel + 1, cs =>
    match newline? (skipComment (skipSpace cs)) with
    | some rest => skipLines fuel rest
    | none => skipComment (skipSpace cs)

def hexDigits? (count : Nat) (cs : List Char) : Option (Char × List Char) := do
  let digits := cs.take count
  if digits.length < count then none
  let values ← digits.mapM Bytes.hexValue?
  let n := values.foldl (fun n d => 16 * n + d) 0
  if n < 0xD800 || (0xE000 ≤ n && n < 0x110000) then return (Char.ofNat n, cs.drop count) else none

def escape? : List Char → Option (Char × List Char)
  | 'b' :: cs => some ('\x08', cs)
  | 't' :: cs => some ('\t', cs)
  | 'n' :: cs => some ('\n', cs)
  | 'f' :: cs => some ('\x0c', cs)
  | 'r' :: cs => some ('\r', cs)
  | '"' :: cs => some ('"', cs)
  | '\\' :: cs => some ('\\', cs)
  | 'u' :: cs => hexDigits? 4 cs
  | 'U' :: cs => hexDigits? 8 cs
  | _ => none

def basic? : Nat → List Char → List Char → Option (String × List Char)
  | 0, _, _ => none
  | _, _, [] => none
  | fuel + 1, done, c :: cs =>
    if c = '"' then some (String.ofList done.reverse, cs)
    else if c = '\\' then do
      let (c, cs) ← escape? cs
      basic? fuel (c :: done) cs
    else if isControl c then none
    else basic? fuel (c :: done) cs

def literal? (cs : List Char) : Option (String × List Char) :=
  let body := cs.takeWhile fun c => c ≠ '\'' && !isControl c
  match cs.drop body.length with
  | '\'' :: rest => some (String.ofList body, rest)
  | _ => none

def isSpaceOrLine (c : Char) : Bool := isSpace c || c = '\n' || c = '\r'

/-- After a backslash at the end of a line, the blanks up to the next text are skipped. -/
def lineBreak? (cs : List Char) : Option (List Char) :=
  (newline? (skipSpace cs)).map fun rest => rest.dropWhile isSpaceOrLine

/-- How a text of several lines may end: three quotes, with up to two more that belong to it. -/
def closing? (quote : Char) (cs : List Char) : Option (Nat × List Char) :=
  let quotes := min 5 (cs.takeWhile (· = quote)).length
  if quotes < 3 then none else some (quotes - 3, cs.drop quotes)

def multi? (quote : Char) (escapes : Bool) : Nat → List Char → List Char →
    Option (String × List Char)
  | 0, _, _ => none
  | _, _, [] => none
  | fuel + 1, done, c :: cs =>
    if c = quote then
      match closing? quote (c :: cs) with
      | some (more, rest) => some (String.ofList (List.replicate more quote ++ done).reverse, rest)
      | none => multi? quote escapes fuel (c :: done) cs
    else if escapes && c = '\\' then
      match lineBreak? cs with
      | some rest => multi? quote escapes fuel done rest
      | none => do
        let (c, cs) ← escape? cs
        multi? quote escapes fuel (c :: done) cs
    else match newline? (c :: cs) with
      | some rest => multi? quote escapes fuel ('\n' :: done) rest
      | none => if isControl c then none else multi? quote escapes fuel (c :: done) cs

def dropNewline (cs : List Char) : List Char := (newline? cs).getD cs

def text? : List Char → Option (String × List Char)
  | '"' :: '"' :: '"' :: cs => multi? '"' true (cs.length + 1) [] (dropNewline cs)
  | '\'' :: '\'' :: '\'' :: cs => multi? '\'' false (cs.length + 1) [] (dropNewline cs)
  | '"' :: cs => basic? (cs.length + 1) [] cs
  | '\'' :: cs => literal? cs
  | _ => none

def isBare (c : Char) : Bool :=
  ('a' ≤ c && c ≤ 'z') || ('A' ≤ c && c ≤ 'Z') || Decimal.isDigit c || c = '_' || c = '-'

def simpleKey? : List Char → Option (String × List Char)
  | '"' :: cs => basic? (cs.length + 1) [] cs
  | '\'' :: cs => literal? cs
  | cs =>
    let key := cs.takeWhile isBare
    if key.isEmpty then none else some (String.ofList key, cs.drop key.length)

def dottedKey? : Nat → List Char → Option (List String × List Char)
  | 0, _ => none
  | fuel + 1, cs => do
    let (key, cs) ← simpleKey? (skipSpace cs)
    match skipSpace cs with
    | '.' :: rest =>
      let (more, rest) ← dottedKey? fuel rest
      return (key :: more, rest)
    | rest => return ([key], rest)

def depthLimit : Nat := 80

/-! Numbers and dates. -/

def notUnderscore (c : Char) : Bool := c ≠ '_'

def plainDigits? (isDigit : Char → Bool) (cs : List Char) : Option (List Char) :=
  let groups := Text.splitOn '_' cs
  if groups.all fun g => !g.isEmpty && g.all isDigit then some (cs.filter notUnderscore) else none

def noLeadingZero : List Char → Bool
  | '0' :: _ :: _ => false
  | _ => true

def based? (base : Nat) (cs : List Char) : Option Value := do
  let isDigit (c : Char) : Bool := match Bytes.hexValue? c with
    | some d => d < base
    | none => false
  let digits ← plainDigits? isDigit cs
  let values ← digits.mapM Bytes.hexValue?
  let n := values.foldl (fun n d => base * n + d) 0
  if n < twoTo 63 then return .int n else none

def decimalInt? (negative : Bool) (cs : List Char) : Option Value := do
  let digits ← plainDigits? Decimal.isDigit cs
  if !noLeadingZero digits then none
  let n := Decimal.natOfDigits digits
  if negative then if n ≤ twoTo 63 then return .int (-(n : Int)) else none
  else if n < twoTo 63 then return .int n
  else none

def isExponentMark (c : Char) : Bool := c = 'e' || c = 'E'

def float? (negative : Bool) (cs : List Char) : Option Value := do
  let mantissa := cs.takeWhile fun c => !isExponentMark c
  let exponent ← match cs.drop mantissa.length with
    | [] => some 0
    | _ :: rest =>
      let (minus, rest) := Decimal.splitSign rest
      let digits ← plainDigits? Decimal.isDigit rest
      let n := Decimal.natOfDigits digits
      some (if minus then -(n : Int) else (n : Int))
  let whole := mantissa.takeWhile (· ≠ '.')
  let wholeDigits ← plainDigits? Decimal.isDigit whole
  if !noLeadingZero wholeDigits then none
  let fraction ← match mantissa.drop whole.length with
    | [] => if whole.length = cs.length then none else some []
    | _ :: rest => plainDigits? Decimal.isDigit rest
  let d : Decimal := ⟨Decimal.natOfDigits (wholeDigits ++ fraction), exponent - fraction.length⟩
  let x := d.toBinary64 negative
  if x.isInfinite && !negative then none else return .float x

def number? (token : List Char) : Option Value :=
  let (negative, rest) := Decimal.splitSign token
  if rest = "inf".toList then some (.float (.infinity negative))
  else if rest = "nan".toList then some (.float (if negative then Binary64.nan.neg else .nan))
  else match token with
    | '0' :: 'x' :: cs => based? 16 cs
    | '0' :: 'o' :: cs => based? 8 cs
    | '0' :: 'b' :: cs => based? 2 cs
    | _ => (decimalInt? negative rest).or (float? negative rest)

def field? (count low high : Nat) (cs : List Char) : Option (Nat × List Char) :=
  let digits := (cs.take count).takeWhile Decimal.isDigit
  let n := Decimal.natOfDigits digits
  if digits.length = count && low ≤ n && n ≤ high then some (n, cs.drop count) else none

def mark? (mark : Char) : List Char → Option (List Char)
  | c :: cs => if c = mark then some cs else none
  | [] => none

def date? (cs : List Char) : Option (List Char × List Char) := do
  let (year, rest) ← field? 4 0 9999 cs
  let (month, rest) ← field? 2 1 12 (← mark? '-' rest)
  let (_, rest) ← field? 2 1 (Moment.daysInMonth year month) (← mark? '-' rest)
  return (cs.take 10, rest)

/-- The fraction of a second, cut to nine digits and without trailing zeros. -/
def fractionText (digits : List Char) : List Char :=
  let kept := ((digits.take 9).reverse.dropWhile (· = '0')).reverse
  if kept.isEmpty then [] else '.' :: kept

def time? (cs : List Char) : Option (List Char × List Char) := do
  let (_, rest) ← field? 2 0 23 cs
  let (_, rest) ← field? 2 0 59 (← mark? ':' rest)
  let (_, rest) ← field? 2 0 60 (← mark? ':' rest)
  match rest with
  | '.' :: more =>
    let digits := more.takeWhile Decimal.isDigit
    if digits.isEmpty then none
    return (cs.take 8 ++ fractionText digits, more.drop digits.length)
  | _ => return (cs.take 8, rest)

def offset? (cs : List Char) : Option (List Char × List Char) :=
  match cs with
  | 'Z' :: rest | 'z' :: rest => some (['Z'], rest)
  | '+' :: rest | '-' :: rest => do
    let (_, rest) ← field? 2 0 23 rest
    let (_, rest) ← field? 2 0 59 (← mark? ':' rest)
    return (cs.take 6, rest)
  | _ => some ([], cs)

def isDateMark (c : Char) : Bool := c = 'T' || c = 't' || c = ' '

def moment? (cs : List Char) : Option (Value × List Char) :=
  match date? cs with
  | none => (time? cs).map fun (time, rest) => (.text (String.ofList time), rest)
  | some (date, rest) =>
    let withTime : Option (Value × List Char) := do
      let c ← rest.head?
      if !isDateMark c then none
      let (time, rest) ← time? (rest.drop 1)
      let (offset, rest) ← offset? rest
      return (.text (String.ofList (date ++ 'T' :: time ++ offset)), rest)
    withTime.or (some (.text (String.ofList date), rest))

def isTokenChar (c : Char) : Bool := isBare c || c = '+' || c = '.'

def looksLikeMoment (cs : List Char) : Bool :=
  let digits := (cs.takeWhile Decimal.isDigit).length
  match cs.drop digits with
  | '-' :: _ => digits = 4
  | ':' :: _ => digits = 2
  | _ => false

def scalar? (cs : List Char) : Option (Value × List Char) :=
  match cs with
  | '"' :: _ | '\'' :: _ => (text? cs).map fun (s, rest) => (.text s, rest)
  | _ =>
    if looksLikeMoment cs then moment? cs
    else
      let token := cs.takeWhile isTokenChar
      let rest := cs.drop token.length
      if token = "true".toList then some (.bool true, rest)
      else if token = "false".toList then some (.bool false, rest)
      else (number? token).map fun v => (v, rest)

mutual

def value? : Nat → Nat → List Char → Option (Value × List Char)
  | 0, _, _ => none
  | fuel + 1, depth, cs =>
    match cs with
    | '[' :: rest => if depth ≤ 1 then none else items? fuel (depth - 1) [] rest
    | '\x7b' :: rest =>
      if depth ≤ 1 then none
      else match skipSpace rest with
        | '\x7d' :: rest => some (.table [], rest)
        | rest => pairs? fuel (depth - 1) {} rest
    | _ => scalar? cs

def items? : Nat → Nat → List Value → List Char → Option (Value × List Char)
  | 0, _, _, _ => none
  | fuel + 1, depth, done, cs =>
    match skipLines (cs.length + 1) cs with
    | ']' :: rest => some (.list done.reverse, rest)
    | cs => do
      let (v, cs) ← value? fuel depth cs
      match skipLines (cs.length + 1) cs with
      | ',' :: cs => items? fuel depth (v :: done) cs
      | ']' :: cs => return (.list (v :: done).reverse, cs)
      | _ => none

def pairs? : Nat → Nat → Draft → List Char → Option (Value × List Char)
  | 0, _, _, _ => none
  | fuel + 1, depth, draft, cs => do
    let (keys, cs) ← dottedKey? depthLimit cs
    let cs ← mark? '=' cs
    let (v, cs) ← value? fuel depth (skipSpace cs)
    let draft ← draft.define? [] keys v
    match skipSpace cs with
    | ',' :: cs => pairs? fuel depth draft cs
    | '\x7d' :: cs => return (draft.root, cs)
    | _ => none

end

def line? (draft : Draft) (here : List Step) (cs : List Char) :
    Option (Draft × List Step × List Char) :=
  match cs with
  | '[' :: '[' :: rest => do
    let (keys, rest) ← dottedKey? depthLimit rest
    let rest ← mark? ']' rest
    let rest ← mark? ']' rest
    let (draft, here) ← draft.append? keys
    return (draft, here, ← lineEnd? rest)
  | '[' :: rest => do
    let (keys, rest) ← dottedKey? depthLimit rest
    let rest ← mark? ']' rest
    let (draft, here) ← draft.open? keys
    return (draft, here, ← lineEnd? rest)
  | _ => do
    let (keys, rest) ← dottedKey? depthLimit cs
    let rest ← mark? '=' rest
    let (v, rest) ← value? (2 * rest.length + 2) depthLimit (skipSpace rest)
    let draft ← draft.define? here keys v
    return (draft, here, ← lineEnd? rest)

def lines? : Nat → Draft → List Step → List Char → Option Value
  | 0, _, _, _ => none
  | fuel + 1, draft, here, cs =>
    match skipLines (cs.length + 1) cs with
    | [] => some draft.root
    | cs => do
      let (draft, here, rest) ← line? draft here cs
      lines? fuel draft here rest

def dropByteOrderMark : List Char → List Char
  | '\ufeff' :: cs => cs
  | cs => cs

def read? (s : String) : Option Value :=
  let cs := dropByteOrderMark s.toList
  lines? (cs.length + 2) {} [] cs

end SeedTree.Toml
