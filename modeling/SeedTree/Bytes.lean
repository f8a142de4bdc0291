import Std.Data.ExtTreeMap

/- Byte strings: their order, maps keyed by them, and their hexadecimal text. -/
namespace SeedTree

abbrev Bytes := List UInt8

namespace Bytes

def byteOrder (a b : UInt8) : Ordering :=
  if a.toNat < b.toNat then .lt else if a.toNat = b.toNat then .eq else .gt

theorem byteOrder_isLE_iff (a b : UInt8) : (byteOrder a b).isLE = true ↔ a.toNat ≤ b.toNat := by
  unfold byteOrder
  split
  · simp [Ordering.isLE]; omega
  · split <;> simp [Ordering.isLE] <;> omega

instance : Std.TransCmp byteOrder where
  eq_swap {a b} := by
    unfold byteOrder
    by_cases h : a.toNat < b.toNat
    · simp [h, Nat.lt_asymm h, Nat.ne_of_gt h]
    · by_cases h2 : a.toNat = b.toNat
      · simp [h2]
      · simp [h, h2, show b.toNat < a.toNat by omega]
  isLE_trans {a b c} h1 h2 := by
    rw [byteOrder_isLE_iff] at *
    omega

instance : Std.LawfulEqCmp byteOrder where
  compare_self {a} := by simp [byteOrder]
  eq_of_compare {a b} h := by
    unfold byteOrder at h
    split at h
    · cases h
    · split at h
      · exact UInt8.toNat_inj.mp (by assumption)
      · cases h

/-- Dictionary order, a shorter string first. -/
def order : Bytes → Bytes → Ordering := List.compareLex byteOrder

instance : Std.TransCmp order := inferInstanceAs (Std.TransCmp (List.compareLex byteOrder))

instance : Std.LawfulEqCmp order := inferInstanceAs (Std.LawfulEqCmp (List.compareLex byteOrder))

def hexDigit (n : Nat) : Char :=
  if n < 10 then Char.ofNat (48 + n) else Char.ofNat (87 + n)

def hexPair (b : UInt8) : List Char :=
  [hexDigit (b.toNat / 16), hexDigit (b.toNat % 16)]

def toHex (bs : Bytes) : String := String.ofList (bs.flatMap hexPair)

def hexValue? (c : Char) : Option Nat :=
  if '0' ≤ c ∧ c ≤ '9' then some (c.toNat - 48)
  else if 'a' ≤ c ∧ c ≤ 'f' then some (c.toNat - 87)
  else if 'A' ≤ c ∧ c ≤ 'F' then some (c.toNat - 55)
  else none

def ofHexChars? : List Char → Option Bytes
  | [] => some []
  | [_] => none
  | a :: b :: rest => do
    let high ← hexValue? a
    let low ← hexValue? b
    let tail ← ofHexChars? rest
    return UInt8.ofNat (16 * high + low) :: tail

def ofHex? (s : String) : Option Bytes := ofHexChars? s.toList

end Bytes

abbrev ByteMap (α : Type) := Std.ExtTreeMap Bytes α Bytes.order

def ByteMap.startingWith {α : Type} (m : ByteMap α) (start : Bytes) : List (Bytes × α) :=
  m.toList.filter fun entry => start.isPrefixOf entry.1

end SeedTree
