import SeedTree.Text.Width.Ranges

/- How many columns a text takes. Most characters take one; wide ones and pictures two; marks and
   joiners none. Pictures joined together take the columns of one. -/
namespace SeedTree.Text

def isJoiner (c : Char) : Bool := c.toNat = 0x200D
def isPictureSelector (c : Char) : Bool := c.toNat = 0xFE0F
def isTextSelector (c : Char) : Bool := c.toNat = 0xFE0E
def isSkinTone (c : Char) : Bool := 0x1F3FB ≤ c.toNat && c.toNat ≤ 0x1F3FF
def isPicture (c : Char) : Bool := pictureRanges.contains c

def charWidth (c : Char) : Nat :=
  if 0x20 ≤ c.toNat && c.toNat < 0x7F then 1
  else if c.toNat = 0x17D8 then 3
  else if zeroWidthRanges.contains c then 0
  else if wideRanges.contains c then 2
  else 1

/-- The characters of one picture, if the text begins with one, are skipped: its selector, its skin
tone and what is joined to it. -/
def afterPicture? : List Char → Option (List Char)
  | [] => none
  | [c] => if isPicture c then some [] else none
  | c :: d :: ds =>
    if isPictureSelector d && (isPicture c || pictureBaseRanges.contains c) then some ds
    else if isSkinTone d && modifiableRanges.contains c then some ds
    else if isPicture c && !isTextSelector d then some (d :: ds)
    else none

def afterJoined (fuel : Nat) (cs : List Char) : List Char :=
  match fuel, cs with
  | fuel + 1, c :: rest =>
    if isJoiner c then
      match afterPicture? rest with
      | some rest => afterJoined fuel rest
      | none => cs
    else cs
  | _, _ => cs

def widthOf : Nat → List Char → Nat
  | 0, _ => 0
  | _, [] => 0
  | fuel + 1, c :: cs =>
    match afterPicture? (c :: cs) with
    | some rest => 2 + widthOf fuel (afterJoined fuel rest)
    | none =>
      match c, cs with
      | '\r', '\n' :: rest => 1 + widthOf fuel rest
      | _, d :: rest =>
        if isTextSelector d && isPicture c then 1 + widthOf fuel rest
        else charWidth c + widthOf fuel cs
      | _, [] => charWidth c

def width (cs : List Char) : Nat := widthOf cs.length cs

end SeedTree.Text
