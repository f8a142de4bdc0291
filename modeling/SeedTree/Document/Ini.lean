import SeedTree.Document.Value
import SeedTree.Text.Blank

/- Documents in INI form: sections of keys with texts. Comments begin at the start of a line; a
   backslash escapes in keys and values. -/
namespace SeedTree.Ini

def escape? : List Char → Option (Option Char × List Char)
  | [] => none
  | '0' :: cs => some (some '\x00', cs)
  | 'a' :: cs => some (some '\x07', cs)
  | 'b' :: cs => some (some '\x08', cs)
  | 't' :: cs => some (some '\t', cs)
  | 'r' :: cs => some (some '\r', cs)
  | 'n' :: cs => some (some '\n', cs)
  | '\n' :: cs => some (none, cs)
  | 'x' :: a :: b :: c :: d :: cs => do
    let values ← [a, b, c, d].mapM Bytes.hexValue?
    let n := values.foldl (fun n d => 16 * n + d) 0
    if 0xD800 ≤ n ∧ n < 0xE000 then none else return (some (Char.ofNat n), cs)
  | c :: cs => some (some c, cs)

/-- The characters up to one where `stops` holds, which is left in place. The end of the document
may stand for it if `mayEnd`. -/
def until? (stops : Char → Bool) (mayEnd : Bool) :
    Nat → List Char → List Char → Option (List Char × List Char)
  | 0, _, _ => none
  | _, done, [] => if mayEnd then some (done.reverse, []) else none
  | fuel + 1, done, c :: cs =>
    if stops c then some (done.reverse, c :: cs)
    else if c = '\\' then do
      let (escaped, cs) ← escape? cs
      until? stops mayEnd fuel (escaped.toList ++ done) cs
    else until? stops mayEnd fuel (c :: done) cs

def isLineEnd (c : Char) : Bool := c = '\n' || c = '\r'

def isBlankInLine (c : Char) : Bool := Text.isBlank c && !isLineEnd c

def lineRest? (cs : List Char) : Option (List Char × List Char) :=
  until? isLineEnd true (cs.length + 1) [] cs

/-- The value after its separator; quotes around its beginning are dropped. -/
def value? (cs : List Char) : Option (String × List Char) := do
  let cs := cs.dropWhile isBlankInLine
  let quoted (quote : Char) (cs : List Char) : Option (List Char × List Char) := do
    let (inside, cs) ← until? (· = quote) false (cs.length + 1) [] cs
    let (after, cs) ← lineRest? (cs.drop 1)
    return (inside ++ after, cs)
  let (v, cs) ← match cs with
    | '"' :: rest => quoted '"' rest
    | '\'' :: rest => quoted '\'' rest
    | _ => lineRest? cs
  return (String.ofList (Text.trimChars v), cs)

/-- The keys before the first section, and the sections; the last of several with one name
counts. -/
structure Draft where
  top : List (String × Value) := []
  sections : List (String × List (String × Value)) := []

def Draft.define (d : Draft) (key v : String) : Draft :=
  match d.sections with
  | (name, entries) :: more =>
    { d with sections := (name, Value.put key (.text v) entries) :: more }
  | [] => { d with top := Value.put key (.text v) d.top }

def Draft.toValue (d : Draft) : Value :=
  .table (d.sections.reverse.foldl (fun entries (name, inner) =>
    Value.put name (.table inner) entries) d.top)

/-- Blanks before the next item; whether it stands at the start of its line. -/
def skipBlanks (atStart : Bool) : List Char → Bool × List Char
  | [] => (atStart, [])
  | c :: cs =>
    if Text.isBlank c then skipBlanks (c = '\n') cs else (atStart, c :: cs)

def items? : Nat → Bool → Draft → List Char → Option Draft
  | 0, _, _, _ => none
  | fuel + 1, atStart, draft, cs =>
    match skipBlanks atStart cs with
    | (_, []) => some draft
    | (start, c :: cs) =>
      if c = ';' || c = '#' then
        if start then items? fuel true draft ((cs.dropWhile (· ≠ '\n')).drop 1) else none
      else if c = '[' then do
        let (name, cs) ← until? (· = ']') false (cs.length + 1) [] cs
        let name := String.ofList (Text.trimChars name)
        items? fuel false { draft with sections := (name, []) :: draft.sections } (cs.drop 1)
      else do
        let stops (c : Char) : Bool := c = '=' || c = ':'
        let (key, cs) ← until? stops false (cs.length + 2) [] (c :: cs)
        let key := Text.trimChars key
        if key.isEmpty then none
        let (v, cs) ← value? (cs.drop 1)
        items? fuel false (draft.define (String.ofList key) v) cs

def read? (s : String) : Option Value :=
  (items? (s.length + 1) true {} s.toList).map Draft.toValue

end SeedTree.Ini
