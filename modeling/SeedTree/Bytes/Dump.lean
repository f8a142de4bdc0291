import SeedTree.Bytes.Words
import SeedTree.Text

/- Bytes laid out for reading: sixteen on a line, in hexadecimal pairs and, beside them, as the
   printable characters they are in ASCII. Each line begins with the place of its first byte. -/
namespace SeedTree.Dump

def lineSize : Nat := 16

def gutterChar (b : UInt8) : Char :=
  if 0x20 ≤ b.toNat && b.toNat ≤ 0x7E then Char.ofNat b.toNat else '.'

def placeText (place : Nat) : List Char :=
  let digits := Nat.toDigits 16 place
  List.replicate (8 - digits.length) '0' ++ digits

def pairsText (row : Bytes) : List Char := Text.joinWith [' '] (row.map Bytes.hexPair)

def pairsWidth : Nat := 3 * lineSize - 1

def line (place : Nat) (row : Bytes) : List Char :=
  let pairs := pairsText row
  placeText place ++ [' ', ' '] ++ pairs ++ List.replicate (pairsWidth - pairs.length) ' '
    ++ [' ', ' ', '|'] ++ row.map gutterChar ++ ['|']

/-- The lines of the rows, each one's place sixteen after the one before. -/
def linesFrom (place : Nat) : List Bytes → List (List Char)
  | [] => []
  | row :: more => line place row :: linesFrom (place + lineSize) more

def text (bs : Bytes) (offset : Nat) : String :=
  String.ofList ((linesFrom offset (bs.chunks lineSize)).flatMap fun l => l ++ ['\n'])

end SeedTree.Dump
