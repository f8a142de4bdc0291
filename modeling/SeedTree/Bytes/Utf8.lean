import SeedTree.Bytes

/- Text as UTF-8 bytes, and what is wrong with bytes that are no text. -/
namespace SeedTree

namespace Bytes

/-- Where reading stops, and the length of the bad sequence there; none when the bytes end inside
a sequence that could still have been completed. -/
structure TextFault where
  index : Nat
  badLength : Option Nat
  deriving DecidableEq, Repr

def TextFault.message (f : TextFault) : String :=
  let start := f.index
  match f.badLength with
  | some n => s!"invalid utf-8 sequence of {n} bytes from index {start}"
  | none => s!"incomplete utf-8 byte sequence from index {start}"

def isTail (b : UInt8) : Bool := 0x80 ≤ b && b ≤ 0xBF

/-- How many bytes follow a first byte, and the range of the second. -/
inductive Lead where
  | ascii
  | two
  | three (low high : UInt8)
  | four (low high : UInt8)
  | none

def lead (b : UInt8) : Lead :=
  if b < 0x80 then .ascii
  else if b < 0xC2 then .none
  else if b < 0xE0 then .two
  else if b = 0xE0 then .three 0xA0 0xBF
  else if b = 0xED then .three 0x80 0x9F
  else if b < 0xF0 then .three 0x80 0xBF
  else if b = 0xF0 then .four 0x90 0xBF
  else if b < 0xF4 then .four 0x80 0xBF
  else if b = 0xF4 then .four 0x80 0x8F
  else .none

/-- The first character of a byte string and the bytes after it; the number in a fault is the
length of the bad sequence. -/
def nextChar (first : UInt8) (rest : Bytes) : Except (Option Nat) (Char × Bytes) :=
  match lead first with
  | .ascii => .ok (Char.ofNat first.toNat, rest)
  | .none => .error (some 1)
  | .two =>
    match rest with
    | [] => .error none
    | b :: rest =>
      if isTail b then
        .ok (Char.ofNat ((first.toNat - 0xC0) * 64 + (b.toNat - 0x80)), rest)
      else .error (some 1)
  | .three low high =>
    match rest with
    | [] => .error none
    | b :: rest =>
      if !(low ≤ b && b ≤ high) then .error (some 1)
      else match rest with
        | [] => .error none
        | c :: rest =>
          if isTail c then
            .ok (Char.ofNat ((first.toNat - 0xE0) * 4096 + (b.toNat - 0x80) * 64
              + (c.toNat - 0x80)), rest)
          else .error (some 2)
  | .four low high =>
    match rest with
    | [] => .error none
    | b :: rest =>
      if !(low ≤ b && b ≤ high) then .error (some 1)
      else match rest with
        | [] => .error none
        | c :: rest =>
          if !isTail c then .error (some 2)
          else match rest with
            | [] => .error none
            | d :: rest =>
              if isTail d then
                .ok (Char.ofNat ((first.toNat - 0xF0) * 262144 + (b.toNat - 0x80) * 4096
                  + (c.toNat - 0x80) * 64 + (d.toNat - 0x80)), rest)
              else .error (some 3)

/-- Reads characters until the bytes end; every character takes one byte at least, so `fuel` of the
number of bytes is enough. -/
def readChars (fuel index : Nat) (bs : Bytes) (done : List Char) : Except TextFault (List Char) :=
  match fuel, bs with
  | _, [] => .ok done.reverse
  | 0, _ :: _ => .ok done.reverse
  | fuel + 1, b :: rest =>
    match nextChar b rest with
    | .ok (c, tail) => readChars fuel (index + (rest.length + 1 - tail.length)) tail (c :: done)
    | .error badLength => .error ⟨index, badLength⟩

def toText (bs : Bytes) : Except TextFault String :=
  (readChars bs.length 0 bs []).map String.ofList

def toText? (bs : Bytes) : Option String := (toText bs).toOption

end Bytes

def utf8 (s : String) : Bytes := s.toList.flatMap String.utf8EncodeChar

end SeedTree
