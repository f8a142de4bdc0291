import Mathlib.Algebra.Group.Nat.Defs
import SeedTree.Moment

/- The text of a moment is read back as that moment, whatever its year and its fraction of a
   second. -/
namespace SeedTree

namespace Decimal

theorem natOfDigits_digitsOfNat (n : Nat) : natOfDigits (digitsOfNat n) = n :=
  Nat.ofDigitChars_ten_toDigits

theorem digitsOfNat_digits {n : Nat} {c : Char} (member : c ∈ digitsOfNat n) :
    isDigit c = true :=
  Nat.isDigit_of_mem_toDigits (by decide) (by decide) member

theorem natOfDigits_zeros (count : Nat) (cs : List Char) :
    natOfDigits (List.replicate count '0' ++ cs) = natOfDigits cs := by
  change Nat.ofDigitChars 10 _ 0 = Nat.ofDigitChars 10 cs 0
  rw [Nat.ofDigitChars_append, Nat.ofDigitChars_replicate_zero, Nat.mul_zero]

end Decimal

namespace Moment

open Decimal

theorem padded_digits (width n : Nat) {c : Char} (member : c ∈ padded width n) :
    isDigit c = true := by
  rcases List.mem_append.mp member with zero | digit
  · rw [List.eq_of_mem_replicate zero]
    rfl
  · exact digitsOfNat_digits digit

theorem padded_ne_nil (width n : Nat) : padded width n ≠ [] := by
  intro empty
  exact Nat.toDigits_ne_nil (List.append_eq_nil_iff.mp empty).2

theorem natOfDigits_padded (width n : Nat) : natOfDigits (padded width n) = n := by
  rw [padded, natOfDigits_zeros, natOfDigits_digitsOfNat]

theorem length_padded {width n : Nat} (positive : 0 < width) (fits : n < 10 ^ width) :
    (padded width n).length = width := by
  have digits := (Nat.length_toDigits_le_iff (b := 10) (by decide) positive).mpr fits
  simp only [padded, List.length_append, List.length_replicate, digitsOfNat]
  omega

theorem readDigits?_padded {width n : Nat} (positive : 0 < width) (fits : n < 10 ^ width)
    (rest : List Char) : readDigits? width (padded width n ++ rest) = some (n, rest) := by
  have length := length_padded positive fits
  have taken : (padded width n ++ rest).take width = padded width n := by
    rw [List.take_append_of_le_length (by omega), List.take_of_length_le (by omega)]
  have digits : (padded width n).takeWhile isDigit = padded width n := by
    have all : (padded width n ++ []).takeWhile isDigit = padded width n ++ [].takeWhile isDigit :=
      List.takeWhile_append_of_pos fun _ member => padded_digits width n member
    simpa using all
  simp [readDigits?, taken, digits, padded_ne_nil, natOfDigits_padded]

theorem readDigits?_whole (width n most : Nat) (mark : Char) (rest : List Char)
    (other : isDigit mark = false) (enough : (padded width n).length < most) :
    readDigits? most (padded width n ++ mark :: rest) = some (n, mark :: rest) := by
  have digits : ((padded width n ++ mark :: rest).take most).takeWhile isDigit
      = padded width n := by
    rw [List.take_append, List.take_of_length_le (by omega),
      List.takeWhile_append_of_pos fun _ member => padded_digits _ _ member]
    obtain ⟨more, room⟩ := Nat.exists_eq_add_of_lt enough
    rw [show most - (padded width n).length = more + 1 by omega, List.take_succ_cons,
      List.takeWhile_cons_of_neg (by simp [other]), List.append_nil]
  simp [readDigits?, digits, padded_ne_nil, natOfDigits_padded]

theorem digit_not_blank {c : Char} (digit : isDigit c = true) : Text.isBlank c = false := by
  have code : 48 ≤ c.toNat ∧ c.toNat ≤ 57 := Char.isDigit_iff_toNat.mp digit
  simp only [Text.isBlank, Text.CodeRanges.contains, Text.blankRanges, List.any_cons,
    List.any_nil, Bool.or_false, Bool.or_eq_false_iff, Bool.and_eq_false_iff,
    decide_eq_false_iff_not]
  omega

theorem skipBlanks_cons {c : Char} (dark : Text.isBlank c = false) (rest : List Char) :
    skipBlanks (c :: rest) = c :: rest := by
  simp [skipBlanks, dark]

theorem skipBlanks_padded (width n : Nat) (rest : List Char) :
    skipBlanks (padded width n ++ rest) = padded width n ++ rest := by
  cases shape : padded width n with
  | nil => exact absurd shape (padded_ne_nil width n)
  | cons c cs =>
    have digit : isDigit c = true :=
      padded_digits width n (by rw [shape]; exact List.mem_cons_self)
    exact skipBlanks_cons (digit_not_blank digit) _

theorem readField?_padded {low high n : Nat} (above : low ≤ n) (below : n ≤ high)
    (fits : n < 100) (rest : List Char) :
    readField? low high (padded 2 n ++ rest) = some (n, rest) := by
  simp [readField?, skipBlanks_padded, readDigits?_padded (by decide : 0 < 2) fits, above, below]

theorem readMark?_cons (mark : Char) (dark : Text.isBlank mark = false) (rest : List Char) :
    readMark? mark (mark :: rest) = some rest := by
  simp [readMark?, skipBlanks_cons dark]

/-- A year of four digits is not mistaken for one with a sign. -/
theorem readYear?_padded {n : Nat} (fits : n < 10 ^ 4) (rest : List Char) :
    readYear? (padded 4 n ++ '-' :: rest) = some ((n : Int), '-' :: rest) := by
  have plain := readDigits?_padded (by decide : 0 < 4) fits ('-' :: rest)
  have skip := skipBlanks_padded 4 n ('-' :: rest)
  cases shape : padded 4 n ++ '-' :: rest with
  | nil => simp at shape
  | cons c cs =>
    have digit : isDigit c = true := by
      cases front : padded 4 n with
      | nil => exact absurd front (padded_ne_nil _ _)
      | cons d ds =>
        rw [front, List.cons_append, List.cons.injEq] at shape
        rw [← shape.1]
        exact padded_digits 4 n (by rw [front]; exact List.mem_cons_self)
    rw [shape] at skip plain
    have unsigned : c ≠ '-' ∧ c ≠ '+' := by
      constructor
      · rintro rfl
        cases digit
      · rintro rfl
        cases digit
    unfold readYear?
    rw [skip]
    split
    · rename_i same
      exact absurd (List.cons.inj same).1 unsigned.1
    · rename_i same
      exact absurd (List.cons.inj same).1 unsigned.2
    · rw [plain, Option.map_some]

theorem readYear?_yearText (year : Int) (rest : List Char) :
    readYear? (yearText year ++ '-' :: rest) = some (year, '-' :: rest) := by
  have dash : isDigit '-' = false := rfl
  have signed : ∀ n : Nat, (padded 4 n).length < (padded 4 n ++ '-' :: rest).length := by
    intro n
    simp
  unfold yearText
  split
  · rename_i small
    rw [readYear?_padded (by omega), Int.toNat_of_nonneg small.1]
  · split
    · rename_i negative
      have read := readDigits?_whole 4 year.natAbs _ '-' rest dash (signed year.natAbs)
      have skip : skipBlanks ('-' :: padded 4 year.natAbs ++ '-' :: rest)
          = '-' :: (padded 4 year.natAbs ++ '-' :: rest) := skipBlanks_cons rfl _
      simp only [readYear?, skip, read, Option.map_some]
      congr 2
      omega
    · rename_i large
      have read := readDigits?_whole 4 year.toNat _ '-' rest dash (signed year.toNat)
      have skip : skipBlanks ('+' :: padded 4 year.toNat ++ '-' :: rest)
          = '+' :: (padded 4 year.toNat ++ '-' :: rest) := skipBlanks_cons rfl _
      simp only [readYear?, skip, read, Option.map_some]
      congr 2
      omega

theorem takeWhile_padded (width n : Nat) (mark : Char) (rest : List Char)
    (other : isDigit mark = false) :
    (padded width n ++ mark :: rest).takeWhile isDigit = padded width n := by
  rw [List.takeWhile_append_of_pos fun _ member => padded_digits _ _ member,
    List.takeWhile_cons_of_neg (by simp [other]), List.append_nil]

theorem readFraction?_padded {width n : Nat} (positive : 0 < width) (short : width ≤ 9)
    (fits : n < 10 ^ width) (rest : List Char) :
    readFraction? ('.' :: padded width n ++ 'Z' :: rest)
      = some (n * tenTo (9 - width), 'Z' :: rest) := by
  have length := length_padded positive fits
  have digits := takeWhile_padded width n 'Z' rest rfl
  have kept : (padded width n).take 9 = padded width n := List.take_of_length_le (by omega)
  simp [readFraction?, digits, padded_ne_nil, kept, natOfDigits_padded, length]

theorem readFraction?_fractionText {nano : Nat} (fits : nano < 10 ^ 9) (rest : List Char) :
    readFraction? (fractionText nano ++ 'Z' :: rest) = some (nano, 'Z' :: rest) := by
  have milli : tenTo 6 = 1000000 := rfl
  have micro : tenTo 3 = 1000 := rfl
  unfold fractionText
  rw [milli, micro]
  split
  · rename_i zero
    simp [readFraction?, zero]
  · split
    · have value : nano / 1000000 * tenTo (9 - 3) = nano := by
        change nano / 1000000 * 1000000 = nano
        omega
      rw [readFraction?_padded (by decide) (by decide) (by omega), value]
    · split
      · have value : nano / 1000 * tenTo (9 - 6) = nano := by
          change nano / 1000 * 1000 = nano
          omega
        rw [readFraction?_padded (by decide) (by decide) (by omega), value]
      · have value : nano * tenTo (9 - 9) = nano := Nat.mul_one nano
        rw [readFraction?_padded (by decide) (by decide) fits, value]

theorem isValid_iff (m : Moment) : m.isValid = true ↔
    yearInRange m.year = true ∧ 1 ≤ m.month ∧ m.month ≤ 12 ∧ 1 ≤ m.day
      ∧ m.day ≤ daysInMonth m.year m.month ∧ m.hour < 24 ∧ m.minute < 60 ∧ m.second ≤ 60
      ∧ m.nano < 10 ^ 9 := by
  have giga : tenTo 9 = 10 ^ 9 := rfl
  simp only [isValid, giga, Bool.and_eq_true, decide_eq_true_eq, and_assoc]

theorem daysInMonth_le (year : Int) (month : Nat) : daysInMonth year month ≤ 31 := by
  unfold daysInMonth
  split
  · split <;> omega
  all_goals omega

theorem minutesBefore_zero {m : Moment} (hours : m.hour < 24) (minutes : m.minute < 60) :
    m.minutesBefore 0 = m := by
  unfold minutesBefore
  have early : ¬ ((m.hour * 60 + m.minute - 0 : Int) < 0) := by omega
  have late : ¬ (1440 ≤ (m.hour * 60 + m.minute - 0 : Int)) := by omega
  simp only [early, late, if_false]
  have hour : ((m.hour * 60 + m.minute - 0 : Int) % 1440).toNat / 60 = m.hour := by omega
  have minute : ((m.hour * 60 + m.minute - 0 : Int) % 1440).toNat % 60 = m.minute := by omega
  rw [hour, minute]

theorem readZone?_zulu : readZone? ['Z'] = some (0, []) := by decide

theorem length_padded_le (width : Nat) {n k : Nat} (positive : 0 < k) (fits : n < 10 ^ k) :
    (padded width n).length ≤ max width k := by
  have digits := (Nat.length_toDigits_le_iff (b := 10) (by decide) positive).mpr fits
  simp only [padded, List.length_append, List.length_replicate, digitsOfNat]
  omega

theorem length_yearText_le {year : Int} (range : yearInRange year = true) :
    (yearText year).length ≤ 7 := by
  simp only [yearInRange, Bool.and_eq_true, decide_eq_true_eq] at range
  unfold yearText
  split
  · have := length_padded_le 4 (n := year.toNat) (k := 6) (by decide) (by omega)
    omega
  · split
    · have := length_padded_le 4 (n := year.natAbs) (k := 6) (by decide) (by omega)
      rw [List.length_cons]
      omega
    · have := length_padded_le 4 (n := year.toNat) (k := 6) (by decide) (by omega)
      rw [List.length_cons]
      omega

theorem length_fractionText_le {nano : Nat} (fits : nano < 10 ^ 9) :
    (fractionText nano).length ≤ 10 := by
  have bound : ∀ width n, width ≤ 9 → n ≤ nano → (padded width n).length ≤ 9 := by
    intro width n short small
    have := length_padded_le width (n := n) (k := 9) (by decide) (by omega)
    omega
  unfold fractionText
  split
  · simp
  · split
    · have := bound 3 (nano / tenTo 6) (by decide) (Nat.div_le_self _ _)
      rw [List.length_cons]
      omega
    · split
      · have := bound 6 (nano / tenTo 3) (by decide) (Nat.div_le_self _ _)
        rw [List.length_cons]
        omega
      · have := bound 9 nano (by decide) (Nat.le_refl _)
        rw [List.length_cons]
        omega

theorem length_toText_le {m : Moment} (valid : m.isValid = true) :
    m.toText.toList.length ≤ 50 := by
  obtain ⟨range, _, month, _, day, hour, minute, second, nano⟩ := (isValid_iff m).mp valid
  have days := daysInMonth_le m.year m.month
  have year := length_yearText_le range
  have fraction := length_fractionText_le nano
  have pair : ∀ n, n < 100 → (padded 2 n).length = 2 := fun n small =>
    length_padded (by decide) small
  simp only [toText, textBeforeZone, String.toList_ofList, List.length_append, List.length_cons,
    List.length_nil, pair m.month (by omega), pair m.day (by omega), pair m.hour (by omega),
    pair m.minute (by omega), pair m.second (by omega)]
  omega

theorem bind_of {α β : Type} {x : Option α} {a : α} (read : x = some a) (f : α → Option β) :
    x >>= f = f a := by
  rw [read, Option.bind_eq_bind, Option.bind_some]

theorem read?_toText {m : Moment} (valid : m.isValid = true) : read? m.toText = some m := by
  obtain ⟨_, month1, month2, day1, day2, hour, minute, second, nano⟩ := (isValid_iff m).mp valid
  have days := daysInMonth_le m.year m.month
  have zone : skipBlanks ['Z'] = ['Z'] := skipBlanks_cons rfl []
  have dash : Text.isBlank '-' = false := rfl
  have colon : Text.isBlank ':' = false := rfl
  simp only [read?, toText, textBeforeZone, String.toList_ofList, List.append_assoc,
    List.cons_append]
  rw [bind_of (readYear?_yearText m.year _)]
  dsimp only
  rw [bind_of (readMark?_cons '-' dash _), bind_of (readField?_padded month1 month2 (by omega) _)]
  dsimp only
  rw [bind_of (readMark?_cons '-' dash _),
    bind_of (readField?_padded day1 (by omega : m.day ≤ 31) (by omega) _)]
  dsimp only
  rw [bind_of (rfl : skipDateMark ('T' :: _) = some _),
    bind_of (readField?_padded (Nat.zero_le _) (by omega : m.hour ≤ 23) (by omega) _)]
  dsimp only
  rw [bind_of (readMark?_cons ':' colon _),
    bind_of (readField?_padded (Nat.zero_le _) (by omega : m.minute ≤ 59) (by omega) _)]
  dsimp only
  rw [bind_of (readMark?_cons ':' colon _),
    bind_of (readField?_padded (Nat.zero_le _) second (by omega) _)]
  dsimp only
  rw [bind_of (readFraction?_fractionText nano _), zone, bind_of readZone?_zulu,
    minutesBefore_zero hour minute]
  simp [skipBlanks, valid]

end Moment

end SeedTree
