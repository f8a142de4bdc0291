import SeedTree.Document.Value
import SeedTree.Text.Lowercase

/- Layers of settings put over one another. Keys are compared in lower case; tables are merged entry
   by entry and everything else is replaced. The keys at the top of a layer are paths: names joined
   by points, with positions of lists in brackets. -/
namespace SeedTree

inductive KeyPath where
  | name (key : String)
  | child (parent : KeyPath) (key : String)
  | item (parent : KeyPath) (position : Int)
  deriving DecidableEq, Repr

namespace KeyPath

def isKeyChar (c : Char) : Bool :=
  ('a' ≤ c && c ≤ 'z') || ('A' ≤ c && c ≤ 'Z') || Decimal.isDigit c || c = '_' || c = '-' || c = ' '

def isGap (c : Char) : Bool := c = ' ' || c = '\t'

def readPosition? (cs : List Char) : Option (Int × List Char) :=
  let cs := cs.dropWhile isGap
  let (negative, cs) := match cs with
    | '-' :: rest => (true, rest)
    | _ => (false, cs)
  let digits := cs.takeWhile Decimal.isDigit
  match (cs.drop digits.length).dropWhile isGap with
  | ']' :: rest =>
    let n := Decimal.natOfDigits digits
    if digits.isEmpty || twoTo 63 ≤ n then none else some (if negative then -(n : Int) else n, rest)
  | _ => none

def extend? (fuel : Nat) (path : KeyPath) (cs : List Char) : Option KeyPath :=
  match fuel, cs with
  | _, [] => some path
  | fuel + 1, '.' :: cs =>
    let key := cs.takeWhile isKeyChar
    if key.isEmpty then none
    else extend? fuel (.child path (String.ofList key)) (cs.drop key.length)
  | fuel + 1, '[' :: cs =>
    match readPosition? cs with
    | some (position, cs) => extend? fuel (.item path position) cs
    | none => none
  | _, _ => none

/-- The path that a text spells; a text that spells none is a single name. -/
def ofText (s : String) : KeyPath :=
  let cs := s.toList
  let key := cs.takeWhile isKeyChar
  if key.isEmpty then .name s
  else (extend? cs.length (.name (String.ofList key)) (cs.drop key.length)).getD (.name s)

end KeyPath

namespace Value

def entries : Value → List (String × Value)
  | table entries => entries
  | _ => []

def items : Value → List Value
  | list items => items
  | _ => []

def alter (key : String) (change : Value → Value) (v : Value) : Value :=
  let key := Text.lowercase key
  let entries := v.entries
  table (put key (change ((find? key entries).getD null)) entries)

/-- The place in a list of some length that a position means; negative ones count from the end. -/
def place? (length : Nat) (position : Int) : Option Nat :=
  if 0 ≤ position then some position.toNat
  else if position.natAbs ≤ length then some (length - position.natAbs)
  else none

/-- Changes the item at a position, with nulls put before it where the list is too short. -/
def alterItem (position : Int) (change : Value → Value) (v : Value) : Value :=
  let items := v.items
  match place? items.length position with
  | none => v
  | some i =>
    let items := items ++ List.replicate (i + 1 - items.length) null
    list (items.modify i change)

/-- Changes the value at a path; what stands in the way is replaced. -/
def alterAt : KeyPath → (Value → Value) → Value → Value
  | .name key, change, v => v.alter key change
  | .child parent key, change, v => alterAt parent (alter key change) v
  | .item parent position, change, v => alterAt parent (alterItem position change) v

mutual

/-- Puts a value under a key: a table into the table that is there, anything else in place of what
is there. -/
def merge (key : String) (into : Value) : Value → Value
  | table incoming =>
    let lower := Text.lowercase key
    let entries := into.entries
    let target := (find? lower entries).getD (table [])
    table (put lower (mergeAll target incoming) entries)
  | null => table (put (Text.lowercase key) null into.entries)
  | bool b => table (put (Text.lowercase key) (bool b) into.entries)
  | int n => table (put (Text.lowercase key) (int n) into.entries)
  | float x => table (put (Text.lowercase key) (float x) into.entries)
  | text s => table (put (Text.lowercase key) (text s) into.entries)
  | list items => table (put (Text.lowercase key) (list items) into.entries)

def mergeAll (into : Value) : List (String × Value) → Value
  | [] => into
  | (key, v) :: more => mergeAll (merge key into v) more

end

def mergeAt (into : Value) (path : KeyPath) (v : Value) : Value :=
  match path with
  | .name key => merge key into v
  | .child parent key => alterAt parent (fun there => merge key there v) into
  | .item parent position => alterAt parent (alterItem position fun _ => v) into

def overlay (under : Value) (layer : List (String × Value)) : Value :=
  layer.foldl (fun v entry => v.mergeAt (KeyPath.ofText entry.1) entry.2) under

end Value

end SeedTree
