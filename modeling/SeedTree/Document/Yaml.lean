import SeedTree.Document.Json5

/- Documents in YAML: one document of mappings and sequences by indentation, collections in
   brackets, and scalars plain, quoted or in blocks. Anchors, tags and explicit keys are not
   read. -/
namespace SeedTree.Yaml

structure Line where
  indent : Nat
  text : List Char

def isBlankLine (l : Line) : Bool :=
  match l.text.dropWhile (· = '\t') with
  | [] => true
  | '#' :: _ => true
  | _ => false

def ofChars (cs : List Char) : Line :=
  let text := cs.dropWhile (· = ' ')
  ⟨cs.length - text.length, text⟩

def dropReturn (cs : List Char) : List Char :=
  match cs.reverse with
  | '\r' :: rest => rest.reverse
  | _ => cs

def linesOf (cs : List Char) : List Line :=
  (Text.splitOn '\n' cs).map fun line => ofChars (dropReturn line)

def toChars (l : Line) : List Char := List.replicate l.indent ' ' ++ l.text

def next? : List Line → Option (Line × List Line)
  | [] => none
  | l :: more => if isBlankLine l then next? more else some (l, more)

/-! Scalars. -/

def int? (base : Nat) (cs : List Char) : Option Int := do
  let (negative, digits) := Decimal.splitSign cs
  let values ← digits.mapM Bytes.hexValue?
  if digits.isEmpty || values.any fun d => base ≤ d then none
  let n : Nat := values.foldl (fun n d => base * n + d) 0
  let n : Int := if negative then -(n : Int) else n
  if fitsInt64 n then return n else none

/-- What a plain scalar means. A number that is written only as YAML knows it cannot be used. -/
def plain? (s : String) : Option Value :=
  let cs := s.toList
  let based : Option Int := match cs with
    | '0' :: 'x' :: digits => int? 16 digits
    | '0' :: 'o' :: digits => int? 8 digits
    | _ => int? 10 cs
  match based with
  | some n => some (.int n)
  | none =>
    if s = "~" || s = "null" || s = "" then some .null
    else if s = "true" then some (.bool true)
    else if s = "false" then some (.bool false)
    else if [".inf", ".Inf", ".INF", "+.inf", "+.Inf", "+.INF", "-.inf", "-.Inf", "-.INF", ".nan",
        ".NAN"].contains s then none
    else match Binary64.read? s with
      | some x => some (.float x)
      | none => some (.text s)

def escapes : List (Char × Char) :=
  [('0', '\x00'), ('a', '\x07'), ('b', '\x08'), ('t', '\t'), ('\t', '\t'),
    ('n', '\n'), ('v', '\x0b'),
   ('f', '\x0c'), ('r', '\r'), ('e', '\x1b'), (' ', ' '), ('"', '"'), ('/', '/'), ('\\', '\\'),
   ('N', '\u0085'), ('_', '\u00a0'), ('L', '\u2028'), ('P', '\u2029')]

def hexEscape? (count : Nat) (cs : List Char) : Option (Char × List Char) := do
  let digits := cs.take count
  if digits.length < count then none
  let values ← digits.mapM Bytes.hexValue?
  let n : Nat := values.foldl (fun n d => 16 * n + d) 0
  if n < 0xD800 || (0xE000 ≤ n && n < 0x110000) then return (Char.ofNat n, cs.drop count) else none

def escape? : List Char → Option (Char × List Char)
  | 'x' :: cs => hexEscape? 2 cs
  | 'u' :: cs => hexEscape? 4 cs
  | 'U' :: cs => hexEscape? 8 cs
  | c :: cs => (escapes.find? (·.1 = c)).map fun e => (e.2, cs)
  | [] => none

def isSpace (c : Char) : Bool := c = ' ' || c = '\t'

/-- What a line end inside a scalar becomes: a space, or one line end for each blank line. -/
def folded (cs : List Char) : List Char × List Char :=
  let gap := cs.takeWhile fun c => isSpace c || c = '\n'
  let breaks := (gap.filter (· = '\n')).length
  (if breaks = 0 then [' '] else List.replicate breaks '\n', cs.drop gap.length)

def trimEnd (reversed : List Char) : List Char := reversed.dropWhile isSpace

def double? : Nat → List Char → List Char → Option (String × List Char)
  | 0, _, _ => none
  | _, _, [] => none
  | fuel + 1, done, c :: cs =>
    if c = '"' then some (String.ofList done.reverse, cs)
    else if c = '\\' then
      match cs with
      | '\n' :: rest => double? fuel done (rest.dropWhile isSpace)
      | _ => do
        let (c, cs) ← escape? cs
        double? fuel (c :: done) cs
    else if c = '\n' then
      let (shown, rest) := folded cs
      double? fuel (shown.reverse ++ trimEnd done) rest
    else double? fuel (c :: done) cs

def single? : Nat → List Char → List Char → Option (String × List Char)
  | 0, _, _ => none
  | _, _, [] => none
  | fuel + 1, done, c :: cs =>
    if c = '\'' then
      match cs with
      | '\'' :: rest => single? fuel ('\'' :: done) rest
      | _ => some (String.ofList done.reverse, cs)
    else if c = '\n' then
      let (shown, rest) := folded cs
      single? fuel (shown.reverse ++ trimEnd done) rest
    else single? fuel (c :: done) cs

def endsWord : List Char → Bool
  | [] => true
  | c :: _ => isSpace c || c = '\n'

def isFlowMark (c : Char) : Bool := c = ',' || c = '[' || c = ']' || c = '\x7b' || c = '\x7d'

def plainChars (flow : Bool) : List Char → List Char → List Char × List Char
  | done, [] => (done, [])
  | done, c :: cs =>
    if c = '\n' then (done, c :: cs)
    else if flow && isFlowMark c then (done, c :: cs)
    else if c = ':' && (endsWord cs || (flow && (cs.head?.map isFlowMark).getD false)) then
      (done, c :: cs)
    else if c = '#' && (done.head?.map isSpace).getD true then (done, c :: cs)
    else plainChars flow (c :: done) cs

def mayBegin : List Char → Bool
  | [] => false
  | c :: cs =>
    if c = '-' || c = '?' || c = ':' then !endsWord cs
    else !isFlowMark c && !(['#', '&', '*', '!', '|', '>', '\'', '"', '%', '@', '\x60'].contains c)

/-! Collections in brackets. -/

def skipFlow : Nat → List Char → List Char
  | 0, cs => cs
  | fuel + 1, cs =>
    match cs.dropWhile fun c => isSpace c || c = '\n' with
    | '#' :: rest => skipFlow fuel (rest.dropWhile (· ≠ '\n'))
    | rest => rest

def skip (cs : List Char) : List Char := skipFlow (cs.length + 1) cs

def scalar? (cs : List Char) : Option (Value × List Char) :=
  match cs with
  | '"' :: rest => (double? (rest.length + 1) [] rest).map fun (s, rest) => (.text s, rest)
  | '\'' :: rest => (single? (rest.length + 1) [] rest).map fun (s, rest) => (.text s, rest)
  | _ =>
    if !mayBegin cs then none
    else
      let (done, rest) := plainChars true [] cs
      (plain? (String.ofList (trimEnd done).reverse)).map fun v => (v, rest)

def keyOf? : Value → Option String
  | .text s => some s
  | .int n => some (Decimal.intText n)
  | _ => none

mutual

def flow? : Nat → List Char → Option (Value × List Char)
  | 0, _ => none
  | fuel + 1, cs =>
    match skip cs with
    | '[' :: rest => flowItems? fuel [] rest
    | '\x7b' :: rest => flowPairs? fuel [] rest
    | rest => scalar? rest

def flowItems? : Nat → List Value → List Char → Option (Value × List Char)
  | 0, _, _ => none
  | fuel + 1, done, cs =>
    match skip cs with
    | ']' :: rest => some (.list done.reverse, rest)
    | cs => do
      let (v, cs) ← flow? fuel cs
      match skip cs with
      | ',' :: cs => flowItems? fuel (v :: done) cs
      | ']' :: cs => return (.list (v :: done).reverse, cs)
      | _ => none

def flowPairs? : Nat → List (String × Value) → List Char → Option (Value × List Char)
  | 0, _, _ => none
  | fuel + 1, done, cs =>
    match skip cs with
    | '\x7d' :: rest => some (.table done.reverse, rest)
    | cs => do
      let (key, cs) ← scalar? cs
      let key ← keyOf? key
      let (v, cs) ← match skip cs with
        | ':' :: rest =>
          match skip rest with
          | ',' :: _ | '\x7d' :: _ => some (Value.null, rest)
          | _ => flow? fuel rest
        | rest => some (Value.null, rest)
      match skip cs with
      | ',' :: cs => flowPairs? fuel ((key, v) :: done) cs
      | '\x7d' :: cs => return (.table ((key, v) :: done).reverse, cs)
      | _ => none

end

/-! Blocks. -/

def key? (cs : List Char) : Option (String × List Char) := do
  let (key, rest) ← match cs with
    | '"' :: rest => double? (rest.length + 1) [] rest
    | '\'' :: rest => single? (rest.length + 1) [] rest
    | _ =>
      if !mayBegin cs then none
      else
        let (done, rest) := plainChars false [] cs
        ((plain? (String.ofList (trimEnd done).reverse)).bind keyOf?).map fun k => (k, rest)
  match rest.dropWhile isSpace with
  | ':' :: rest => if endsWord rest then return (key, rest.dropWhile isSpace) else none
  | _ => none

def isItem : List Char → Bool
  | '-' :: cs => endsWord cs
  | _ => false

def lineIsDone (cs : List Char) : Bool :=
  match cs.dropWhile isSpace with
  | [] => true
  | '#' :: _ => cs.head?.map isSpace |>.getD false
  | _ => false

def plainLines (above : Int) : List Char → List Line → List Char × List Line
  | done, [] => (done, [])
  | done, l :: more =>
    if !isBlankLine l && above < (l.indent : Int) && (key? l.text).isNone && !isItem l.text then
      let (chars, rest) := plainChars false [] l.text
      let done := trimEnd chars ++ ' ' :: done
      if rest.isEmpty then plainLines above done more else (done, more)
    else (done, l :: more)

def blockLines (indent : Nat) : List Line → List (List Char) × List Line
  | [] => ([], [])
  | l :: more =>
    if l.text.isEmpty then
      let (rest, after) := blockLines indent more
      (List.replicate (l.indent - indent) ' ' :: rest, after)
    else if indent ≤ l.indent then
      let (rest, after) := blockLines indent more
      ((List.replicate (l.indent - indent) ' ' ++ l.text) :: rest, after)
    else ([], l :: more)

def foldLines : List (List Char) → List Char
  | [] => []
  | [only] => only
  | a :: b :: more =>
    if b.isEmpty then a ++ '\n' :: foldLines more
    else a ++ ' ' :: foldLines (b :: more)

/-- A block scalar after its mark: `|` keeps lines and `>` folds them; `-` and `+` decide about the
line ends after it. -/
def blockScalar? (mark : Char) (header : List Char) (above : Int) (lines : List Line) :
    Option (Value × List Line) := do
  let options := header.takeWhile fun c => !isSpace c
  if !lineIsDone (header.drop options.length) then none
  if !options.all fun c => c = '-' || c = '+' || Decimal.isDigit c then none
  let first ← match lines.dropWhile fun l => l.text.isEmpty with
    | l :: _ => some l.indent
    | [] => some 0
  if (first : Int) ≤ above then return (.text "", lines)
  let (body, after) := blockLines first lines
  let kept := (body.reverse.dropWhile List.isEmpty).reverse
  let ending :=
    if options.contains '-' || kept.isEmpty then []
    else if options.contains '+' then List.replicate (1 + body.length - kept.length) '\n'
    else ['\n']
  let chars := if mark = '|' then Text.joinWith ['\n'] kept else foldLines kept
  return (.text (String.ofList (chars ++ ending)), after)

def inline? (above : Int) (cs : List Char) (more : List Line) : Option (Value × List Line) :=
  match cs with
  | '|' :: header => blockScalar? '|' header above more
  | '>' :: header => blockScalar? '>' header above more
  | '[' :: _ | '\x7b' :: _ | '"' :: _ | '\'' :: _ => do
    let chars := Text.joinWith ['\n'] (cs :: more.map toChars)
    let (v, rest) ← flow? (2 * chars.length + 2) chars
    let line := rest.takeWhile (· ≠ '\n')
    if !lineIsDone line then none
    let left := (rest.filter (· = '\n')).length
    return (v, more.drop (more.length - left))
  | _ =>
    if !mayBegin cs then none
    else do
      let (done, rest) := plainChars false [] cs
      if !rest.isEmpty && !(rest.head? = some '#') then none
      let (done, more) :=
        if rest.isEmpty then plainLines above (trimEnd done) more else (trimEnd done, more)
      let v ← plain? (String.ofList done.reverse)
      return (v, more)

mutual

/-- The value of the lines with an indentation greater than `above`; null if there are none. A
sequence in a mapping may stand at the indentation of its key. -/
def block? : Nat → Int → Bool → List Line → Option (Value × List Line)
  | 0, _, _, _ => none
  | fuel + 1, above, inMapping, lines =>
    match next? lines with
    | none => some (.null, [])
    | some (l, more) =>
      if above < (l.indent : Int) || (inMapping && (l.indent : Int) = above && isItem l.text) then
        if isItem l.text then sequence? fuel l.indent [] (l :: more)
        else if (key? l.text).isSome then mapping? fuel l.indent [] (l :: more)
        else inline? above l.text more
      else some (.null, l :: more)

def sequence? : Nat → Nat → List Value → List Line → Option (Value × List Line)
  | 0, _, _, _ => none
  | fuel + 1, indent, done, lines =>
    match next? lines with
    | some (l, more) =>
      if l.indent = indent && isItem l.text then do
        let after := l.text.drop 1
        let text := after.dropWhile (· = ' ')
        let inner : Line := ⟨indent + 1 + (after.length - text.length), text⟩
        let (v, rest) ← block? fuel indent false
          (if lineIsDone after then more else inner :: more)
        sequence? fuel indent (v :: done) rest
      else if indent < l.indent then none
      else some (.list done.reverse, l :: more)
    | none => some (.list done.reverse, [])

def mapping? : Nat → Nat → List (String × Value) → List Line → Option (Value × List Line)
  | 0, _, _, _ => none
  | fuel + 1, indent, done, lines =>
    match next? lines with
    | some (l, more) =>
      if l.indent = indent && !isItem l.text then do
        let (key, text) ← key? l.text
        let (v, rest) ←
          if lineIsDone (' ' :: text) then block? fuel indent true more
          else if (key? text).isSome && (text.head?.map fun c => c ≠ '"' && c ≠ '\'').getD false
          then none
          else inline? indent text more
        mapping? fuel indent ((key, v) :: done) rest
      else if indent < l.indent then none
      else some (.table done.reverse, l :: more)
    | none => some (.table done.reverse, [])

end

def isMark (mark : List Char) (l : Line) : Bool :=
  l.indent = 0 && mark.isPrefixOf l.text && endsWord (l.text.drop 3)

def startMark : List Char := ['-', '-', '-']
def endMark : List Char := ['.', '.', '.']

/-- The lines of the only document, its marks taken off; none if there are several documents. -/
def document? (lines : List Line) : Option (Bool × List Line) :=
  let directives := lines.takeWhile fun l => isBlankLine l || l.text.head? = some '%'
  let body := lines.drop directives.length
  let (marked, body) := match body with
    | l :: more =>
      if isMark startMark l then
        let text := l.text.drop 3
        let inner := text.dropWhile (· = ' ')
        (true, Line.mk (3 + (text.length - inner.length)) inner :: more)
      else (false, l :: more)
    | [] => (false, [])
  let (body, after) := body.span fun l => !isMark endMark l && !isMark startMark l
  if after.any fun l => !isBlankLine l && !isMark endMark l then none
  else if after.any (isMark startMark) then none
  else some (marked, body)

def read? (s : String) : Option Value := do
  let cs := match s.toList with
    | '\ufeff' :: rest => rest
    | cs => cs
  let (marked, lines) ← document? (linesOf cs)
  match next? lines with
  | none => return if marked then .null else .table []
  | some _ =>
    let (v, rest) ← block? (cs.length + 4) (-1) false lines
    if (next? rest).isSome then none else return v

end SeedTree.Yaml
