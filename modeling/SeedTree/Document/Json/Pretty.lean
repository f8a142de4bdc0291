import SeedTree.Document.Value

/- Values written as JSON over several lines, two blanks for each level. Empty lists and tables stay
   on one line. Control characters are escaped, all others stand for themselves. -/
namespace SeedTree.Json

def hexFour (n : Nat) : List Char :=
  let digits := Nat.toDigits 16 n
  List.replicate (4 - digits.length) '0' ++ digits

def escaped (c : Char) : List Char :=
  if c = '"' then ['\\', '"']
  else if c = '\\' then ['\\', '\\']
  else if c = '\x08' then ['\\', 'b']
  else if c = '\x09' then ['\\', 't']
  else if c = '\x0a' then ['\\', 'n']
  else if c = '\x0c' then ['\\', 'f']
  else if c = '\x0d' then ['\\', 'r']
  else if c.toNat < 0x20 then '\\' :: 'u' :: hexFour c.toNat
  else [c]

def textChars (s : String) : List Char := '"' :: s.toList.flatMap escaped ++ ['"']

def indent (level : Nat) : List Char := List.replicate (2 * level) ' '

def enclosed (opening closing : Char) (level : Nat) (members : List (List Char)) : List Char :=
  if members.isEmpty then [opening, closing]
  else
    opening :: '\n' ::
      Text.joinWith [',', '\n'] (members.map fun m => indent (level + 1) ++ m)
      ++ '\n' :: indent level ++ [closing]

mutual

def chars (level : Nat) : Value → List Char
  | .null => "null".toList
  | .bool b => if b then "true".toList else "false".toList
  | .int n => (Decimal.intText n).toList
  | .float x => x.documentText.toList
  | .text s => textChars s
  | .list items => enclosed '[' ']' level (itemChars (level + 1) items)
  | .table entries => enclosed '\x7b' '\x7d' level (entryChars (level + 1) entries)

def itemChars (level : Nat) : List Value → List (List Char)
  | [] => []
  | v :: more => chars level v :: itemChars level more

def entryChars (level : Nat) : List (String × Value) → List (List Char)
  | [] => []
  | (key, v) :: more => (textChars key ++ [':', ' '] ++ chars level v) :: entryChars level more

end

def pretty (v : Value) : String := String.ofList (chars 0 v)

end SeedTree.Json
