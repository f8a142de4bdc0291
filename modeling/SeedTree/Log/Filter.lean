import SeedTree.Log.Event
import SeedTree.Number.Decimal
import SeedTree.Text.Blank

/- Filters on events. A filter is made of directives; each sets a limit for the targets that begin
   as it says, and of several that fit a target the longest governs. -/
namespace SeedTree

/-- A limit on the rank of events: zero lets none pass, five lets all pass. -/
structure Directive where
  /-- How the targets begin that it is about; without it, it is about all. -/
  target : Option String
  limit : Nat
  deriving DecidableEq, Repr

namespace Directive

def limitWords : List String := ["off", "error", "warn", "info", "debug", "trace"]

def limit? (s : String) : Option Nat :=
  match (Decimal.readNat? s.toList).filter (· < limitWords.length) with
  | some n => some n
  | none => limitWords.findIdx? (· = Text.lowerAscii s)

/-- The limit that lets everything pass; a target alone means it. -/
def most : Nat := 5

def mayBegin (c : Char) : Bool :=
  c.isAlphanum || c = '-' || c = ':' || c = '_' || 0x7F < c.toNat

/-- Reads a limit, a target, or a target and its limit with an equals sign between them. A word that
is no limit is a target. -/
def read? (cs : List Char) : Option Directive :=
  match cs.dropWhile Text.isBlank with
  | [] => none
  | c :: _ =>
    if !mayBegin c || cs.contains ',' || cs.contains '[' then none
    else match Text.splitFirst? '=' cs with
      | none =>
        match limit? (String.ofList cs) with
        | some limit => some ⟨none, limit⟩
        | none => some ⟨some (String.ofList cs), most⟩
      | some (target, limit) =>
        if (cs.head?.map Text.isBlank).getD false then none
        else if limit.isEmpty then some ⟨some (String.ofList target), most⟩
        else (limit? (String.ofList limit)).map fun limit => ⟨some (String.ofList target), limit⟩

def fits (d : Directive) (target : String) : Bool :=
  match d.target with
  | none => true
  | some start => start.toList.isPrefixOf target.toList

/-- How much a directive says about the targets it fits. -/
def weight (d : Directive) : Nat :=
  match d.target with
  | none => 0
  | some start => start.length + 1

end Directive

structure LogFilter where
  directives : List Directive := []
  deriving DecidableEq, Repr

namespace LogFilter

def silent : LogFilter := {}

def add (f : LogFilter) (d : Directive) : LogFilter :=
  ⟨d :: f.directives.filter (·.target ≠ d.target)⟩

def ofDirectives (ds : List Directive) : LogFilter := ds.foldl add silent

def heaviest? : List Directive → Option Directive
  | [] => none
  | d :: more =>
    match heaviest? more with
    | some other => if other.weight ≤ d.weight then some d else some other
    | none => some d

def governing? (f : LogFilter) (target : String) : Option Directive :=
  heaviest? (f.directives.filter (·.fits target))

def lets (f : LogFilter) (target : String) (level : Level) : Bool :=
  match f.governing? target with
  | some d => level.rank ≤ d.limit
  | none => false

def pieces (s : String) : List (List Char) :=
  (Text.splitOn ',' s.toList).filter fun piece => !piece.isEmpty

def read? (s : String) : Option LogFilter := ((pieces s).mapM Directive.read?).map ofDirectives

/-- A filter from those directives that can be read; if there are none, errors pass. -/
def ofText (s : String) : LogFilter :=
  match (pieces s).filterMap Directive.read? with
  | [] => ofDirectives [⟨none, 1⟩]
  | ds => ofDirectives ds

def addAll (f : LogFilter) : List (List Char × List Char) → Option LogFilter
  | [] => some f
  | (target, limit) :: more => do
    let d ← Directive.read? (target ++ '=' :: limit)
    (f.add d).addAll more

end LogFilter

end SeedTree
