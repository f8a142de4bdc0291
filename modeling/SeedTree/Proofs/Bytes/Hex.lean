import SeedTree.Digest.Basic
import SeedTree.Proofs.Text.Letters
import SeedTree.Text.Blank

/- Hexadecimal texts read back: the pairs that a byte string is written as, in capitals or not, and
   an identity with blanks around it. -/
namespace SeedTree

namespace Bytes

theorem hexValue?_hexDigit {n : Nat} (small : n < 16) : hexValue? (hexDigit n) = some n := by
  revert n
  decide

theorem hexDigit_plain {n : Nat} (small : n < 16) : hexDigit n ≠ ' ' ∧ hexDigit n ≠ '\n' := by
  revert n
  decide

theorem plain_hexPair {b : UInt8} {c : Char} (member : c ∈ hexPair b) : c ≠ ' ' ∧ c ≠ '\n' := by
  have bound := b.toNat_lt
  rcases List.mem_cons.mp member with rfl | member
  · exact hexDigit_plain (by omega)
  · rw [List.mem_singleton.mp member]
    exact hexDigit_plain (by omega)

theorem ofHexChars?_hexPair (b : UInt8) (cs : List Char) :
    ofHexChars? (hexPair b ++ cs) = (ofHexChars? cs).map (b :: ·) := by
  have bound := b.toNat_lt
  have high := hexValue?_hexDigit (n := b.toNat / 16) (by omega)
  have low := hexValue?_hexDigit (n := b.toNat % 16) (by omega)
  have whole : 16 * (b.toNat / 16) + b.toNat % 16 = b.toNat := Nat.div_add_mod b.toNat 16
  simp only [hexPair, List.cons_append, List.nil_append, ofHexChars?, high, low]
  cases ofHexChars? cs with
  | none => rfl
  | some bs =>
    change some (UInt8.ofNat (16 * (b.toNat / 16) + b.toNat % 16) :: bs) = some (b :: bs)
    rw [whole, UInt8.ofNat_toNat]

theorem ofHexChars?_pairs (bs : Bytes) : ofHexChars? (bs.flatMap hexPair) = some bs := by
  induction bs with
  | nil => rfl
  | cons b bs ih => rw [List.flatMap_cons, ofHexChars?_hexPair, ih, Option.map_some]

theorem hexValue?_toLower (c : Char) : hexValue? c.toLower = hexValue? c :=
    Text.apply_toLower (by decide) c

theorem ofHexChars?_toLower (cs : List Char) :
    ofHexChars? (cs.map Char.toLower) = ofHexChars? cs := by
  induction cs using ofHexChars?.induct with
  | case1 => rfl
  | case2 => rfl
  | case3 a b rest ih => simp only [List.map_cons, ofHexChars?, hexValue?_toLower, ih]

end Bytes

namespace Text

theorem dropWhile_blanks {before cs : List Char} (leading : ∀ c ∈ before, isBlank c = true)
    (plain : ∀ c ∈ cs, isBlank c = false) : (before ++ cs).dropWhile isBlank = cs := by
  rw [List.dropWhile_append_of_pos leading]
  cases cs with
  | nil => rfl
  | cons c cs => rw [List.dropWhile_cons_of_neg (by simp [plain c])]

theorem trimChars_of_blanks {before cs after : List Char} (leading : ∀ c ∈ before, isBlank c = true)
    (trailing : ∀ c ∈ after, isBlank c = true)
    (plain : ∀ c ∈ cs, isBlank c = false) (some : cs ≠ []) :
    trimChars (before ++ cs ++ after) = cs := by
  obtain ⟨c, more, rfl⟩ := List.exists_cons_of_ne_nil some
  have first : isBlank c = false := plain c List.mem_cons_self
  have reversed : (c :: (more ++ after)).reverse = after.reverse ++ (c :: more).reverse := by simp
  have stripped : (after.reverse ++ (c :: more).reverse).dropWhile isBlank =
      (c :: more).reverse := by
    refine dropWhile_blanks (fun d member => trailing d (List.mem_reverse.mp member))
      fun d member => ?_
    exact plain d (List.mem_reverse.mp member)
  rw [trimChars, List.append_assoc, List.dropWhile_append_of_pos leading, List.cons_append,
    List.dropWhile_cons_of_neg (by simp [first]), reversed, stripped, List.reverse_reverse]

end Text

namespace Digest

/-- The digits of an identity in any letter case, with any blanks around them. -/
def Spells (text : String) (id : Digest) : Prop :=
  ∃ before digits after, text.toList = before ++ digits ++ after ∧
    (∀ c ∈ before, Text.isBlank c = true) ∧
    (∀ c ∈ after, Text.isBlank c = true) ∧ digits.map Char.toLower = id.toHex.toList

theorem isBlank_of_hexValue? {c : Char} {n : Nat} (digit : Bytes.hexValue? c = some n) :
    Text.isBlank c = false := by
  have bounds : 48 ≤ c.toNat ∧ c.toNat ≤ 102 := by
    unfold Bytes.hexValue? at digit
    have within : ∀ low high : Char, low ≤ c ∧ c ≤ high →
        low.toNat ≤ c.toNat ∧ c.toNat ≤ high.toNat :=
      fun _ _ range => range
    split at digit
    · rename_i range
      have known : 48 ≤ c.toNat ∧ c.toNat ≤ 57 := within '0' '9' range
      omega
    · split at digit
      · rename_i range
        have known : 97 ≤ c.toNat ∧ c.toNat ≤ 102 := within 'a' 'f' range
        omega
      · split at digit
        · rename_i range
          have known : 65 ≤ c.toNat ∧ c.toNat ≤ 70 := within 'A' 'F' range
          omega
        · cases digit
  have outside : ∀ range ∈ Text.blankRanges, range.2 < 48 ∨ 102 < range.1 := by decide
  refine List.any_eq_false.mpr fun range member => ?_
  have known := outside range member
  simp only [Bool.and_eq_true, decide_eq_true_eq]
  omega

theorem mem_toHex {id : Digest} {c : Char} (member : c ∈ id.toHex.toList) :
    ∃ n < 16, c = Bytes.hexDigit n := by
  rw [toHex, Bytes.toHex, String.toList_ofList] at member
  obtain ⟨b, _, inside⟩ := List.mem_flatMap.mp member
  have bound := b.toNat_lt
  rcases List.mem_cons.mp inside with rfl | inside
  · exact ⟨b.toNat / 16, by omega, rfl⟩
  · exact ⟨b.toNat % 16, by omega, List.mem_singleton.mp inside⟩

theorem spells_toHex (id : Digest) : Spells id.toHex id := by
  have small : ∀ n < 16, (Bytes.hexDigit n).toLower = Bytes.hexDigit n := by decide
  refine ⟨[], id.toHex.toList, [], by simp, by simp, by simp, ?_⟩
  refine (List.map_congr_left fun c member => ?_).trans (List.map_id _)
  obtain ⟨n, bound, rfl⟩ := mem_toHex member
  exact small n bound

theorem ofHex?_trim {text : String} {id : Digest} (spells : Spells text id) :
    ofHex? (Text.trim text) = some id := by
  obtain ⟨before, digits, after, whole, leading, trailing, lower⟩ := spells
  have hex : id.toHex.toList = id.bytes.flatMap Bytes.hexPair := String.toList_ofList
  have read : Bytes.ofHexChars? digits = some id.bytes := by
    rw [← Bytes.ofHexChars?_toLower, lower, hex, Bytes.ofHexChars?_pairs]
  have some : digits ≠ [] := by
    rintro rfl
    have size := id.size
    rw [← Option.some.inj read] at size
    cases size
  have plain : ∀ c ∈ digits, Text.isBlank c = false := by
    intro c member
    have among : c.toLower ∈ id.toHex.toList := lower ▸ List.mem_map_of_mem member
    obtain ⟨n, small, same⟩ := mem_toHex among
    refine isBlank_of_hexValue? (n := n) ?_
    rw [← Bytes.hexValue?_toLower, same, Bytes.hexValue?_hexDigit small]
  rw [ofHex?, Bytes.ofHex?, Text.trim, whole, String.toList_ofList,
    Text.trimChars_of_blanks leading trailing plain some, read, Option.bind_some, ofBytes?_bytes]

end Digest

end SeedTree
