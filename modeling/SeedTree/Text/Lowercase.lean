import SeedTree.Text.Lowercase.Ranges

/- Lower case of a text: each capital becomes its small letter, a capital sigma at the end of a word
   becomes the final form, and a dotted capital I keeps its dot. -/
namespace SeedTree.Text

def CaseRun.covers (run : CaseRun) (n : Nat) : Bool :=
  run.first ≤ n && n ≤ run.last && (n - run.first) % run.stride = 0

def smallLetter (c : Char) : Char :=
  match capitalRuns.find? (·.covers c.toNat) with
  | some run => Char.ofNat (c.toNat + run.distance).toNat
  | none => c

/-- Whether the nearest character that is not looked past has a case. -/
def nearestIsCased : List Char → Bool
  | [] => false
  | c :: cs => if caseIgnorableRanges.contains c then nearestIsCased cs else casedRanges.contains c

/-- `before` holds the characters already passed, the nearest first. -/
def lowerFrom (before : List Char) : List Char → List Char
  | [] => []
  | c :: cs =>
    let small :=
      if c.toNat = 0x3A3 then
        if nearestIsCased before && !nearestIsCased cs then ['ς'] else ['σ']
      else if c.toNat = 0x130 then ['i', '\u0307']
      else [smallLetter c]
    small ++ lowerFrom (c :: before) cs

def lowercase (s : String) : String := String.ofList (lowerFrom [] s.toList)

end SeedTree.Text
