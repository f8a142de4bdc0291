import SeedTree.Text

/- Sets of characters as closed ranges of code points. -/
namespace SeedTree.Text

abbrev CodeRanges := List (Nat × Nat)

def CodeRanges.contains (ranges : CodeRanges) (c : Char) : Bool :=
  ranges.any fun range => range.1 ≤ c.toNat && c.toNat ≤ range.2

end SeedTree.Text
