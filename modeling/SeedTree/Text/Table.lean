import SeedTree.Text.Width

/- Tables drawn with lines. Cells have one blank on either side, several lines where their text has,
   and the width of the widest line in their column. -/
namespace SeedTree

namespace Table

/-- A line across: its ends, what it is made of and what stands where it meets a line down. -/
structure Rule where
  left : Char
  fill : Char
  cross : Char
  right : Char

structure Style where
  top : Rule
  underHead : Rule
  /-- The line between two rows, if there is one. -/
  between : Option Rule
  bottom : Rule
  /-- What stands between two cells. -/
  separator : Char

def borders : Style where
  top := ⟨'┌', '─', '─', '┐'⟩
  underHead := ⟨'╞', '═', '═', '╡'⟩
  between := none
  bottom := ⟨'└', '─', '─', '┘'⟩
  separator := ' '

def grid : Style where
  top := ⟨'┌', '─', '┬', '┐'⟩
  underHead := ⟨'╞', '═', '╪', '╡'⟩
  between := some ⟨'├', '╌', '┼', '┤'⟩
  bottom := ⟨'└', '─', '┴', '┘'⟩
  separator := '┆'

def cellLines (cell : String) : List (List Char) := Text.splitOn '\n' cell.toList

def cellWidth (cell : String) : Nat :=
  (cellLines cell).foldl (fun widest line => max widest (Text.width line)) 0

def widths (head : List String) (rows : List (List String)) : List Nat :=
  rows.foldl (fun ws row => List.zipWith max ws (row.map cellWidth)) (head.map cellWidth)

def padded (width : Nat) (line : List Char) : List Char :=
  ' ' :: line ++ List.replicate (width - Text.width line) ' ' ++ [' ']

def ruleLine (ws : List Nat) (r : Rule) : List Char :=
  r.left :: Text.joinWith [r.cross] (ws.map fun w => List.replicate (w + 2) r.fill) ++ [r.right]

def rowLines (style : Style) (ws : List Nat) (row : List String) : List (List Char) :=
  let cells := row.map cellLines
  let height := cells.foldl (fun highest cell => max highest cell.length) 0
  (List.range height).map fun i =>
    '│' :: Text.joinWith [style.separator]
      (List.zipWith (fun w cell => padded w (cell.getD i [])) ws cells) ++ ['│']

def bodyLines (style : Style) (ws : List Nat) : List (List String) → List (List Char)
  | [] => []
  | [row] => rowLines style ws row
  | row :: more =>
    rowLines style ws row ++ (style.between.map (ruleLine ws)).toList ++ bodyLines style ws more

def lines (style : Style) (head : List String) (rows : List (List String)) : List (List Char) :=
  let ws := widths head rows
  ruleLine ws style.top :: rowLines style ws head ++ ruleLine ws style.underHead ::
    bodyLines style ws rows ++ [ruleLine ws style.bottom]

def text (style : Style) (head : List String) (rows : List (List String)) : String :=
  String.ofList (Text.joinWith ['\n'] (lines style head rows))

end Table

end SeedTree
