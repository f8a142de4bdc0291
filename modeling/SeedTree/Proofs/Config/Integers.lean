import Mathlib.Data.List.TakeWhile
import SeedTree.Config.Loading
import SeedTree.Document.Json
import SeedTree.Proofs.Config.Layers
import SeedTree.Proofs.Text.Letters
import SeedTree.Proofs.Text.Lowercase

/- Integers as documents and variables spell them. Where 64 bits with a sign hold an integer, it is
   read as that integer; where 64 bits without one do, as the nearest double. -/
namespace SeedTree

namespace Decimal

/-- The ways an integer is spelled: digits, with or without a sign. -/
inductive Spells : List Char → Int → Prop where
  | minus {digits : List Char} (all : digits.all isDigit = true) :
    Spells ('-' :: digits) (-(natOfDigits digits : Int))
  | plus {digits : List Char} (all : digits.all isDigit = true) :
    Spells ('+' :: digits) (natOfDigits digits)
  | plain {digits : List Char} (all : digits.all isDigit = true) :
    Spells digits (natOfDigits digits)

theorem splitSign_cases (cs : List Char) :
    (∃ digits, cs = '-' :: digits ∧ splitSign cs = (true, digits)) ∨
      (∃ digits, cs = '+' :: digits ∧ splitSign cs = (false, digits)) ∨
        splitSign cs = (false, cs) := by
  unfold splitSign
  split
  · exact Or.inl ⟨_, rfl, rfl⟩
  · exact Or.inr (Or.inl ⟨_, rfl, rfl⟩)
  · exact Or.inr (Or.inr rfl)

theorem spells_of_readInt? {literal : List Char} {n : Int} (spelled : readInt? literal = some n) :
    Spells literal n := by
  simp only [readInt?, Option.ite_none_left_eq_some, Bool.or_eq_true, not_or, Bool.not_eq_true',
    Bool.not_eq_false, Option.some.injEq] at spelled
  obtain ⟨⟨-, all⟩, same⟩ := spelled
  rcases splitSign_cases literal with ⟨digits, rfl, sign⟩ | ⟨digits, rfl, sign⟩ | sign <;>
    rw [sign] at all same <;>
    subst same
  · exact .minus all
  · exact .plus all
  · exact .plain all

theorem toNat_of_isDigit {c : Char} (digit : isDigit c = true) : 48 ≤ c.toNat ∧ c.toNat ≤ 57 := by
  simp only [isDigit, Bool.and_eq_true, decide_eq_true_eq] at digit
  exact digit

theorem Spells.below_letters {literal : List Char} {n : Int} (spells : Spells literal n) :
    ∀ c ∈ literal, c.toNat < 65 := by
  have digit : ∀ digits : List Char, digits.all isDigit = true → ∀ c ∈ digits, c.toNat < 65 := by
    intro digits all c member
    have bounds := toNat_of_isDigit (List.all_eq_true.mp all c member)
    omega
  cases spells with
  | minus all => exact List.forall_mem_cons.mpr ⟨by decide, digit _ all⟩
  | plus all => exact List.forall_mem_cons.mpr ⟨by decide, digit _ all⟩
  | plain all => exact digit _ all

end Decimal

namespace Text

theorem isSmall_of_lt {c : Char} (before : c.toNat < 65) : IsSmall c := by
  have firsts : (dottedI :: capitalRuns).all (fun run => 65 ≤ run.first) = true := by decide +kernel
  refine isSmall_of_uncovered fun run member => ?_
  have first : 65 ≤ run.first := of_decide_eq_true (List.all_eq_true.mp firsts run member)
  have outside : ¬ run.first ≤ c.toNat := by omega
  simp [CaseRun.covers, outside]

end Text

theorem bounds_of_fits {n : Int} (fits : fitsInt64 n = true) :
    -(twoTo 63 : Int) ≤ n ∧ n < twoTo 63 := by
  simpa [fitsInt64] using fits

/-- What a reader makes of an integer: the integer, or a zero with a minus, as long as 64 bits with
a sign hold it, and the nearest double as long as 64 bits hold it. -/
structure Value.Renders (n : Int) (v : Value) : Prop where
  whole : fitsInt64 n = true → v = .int n ∨ n = 0 ∧ v = .float (Binary64.ofNat 0).neg
  wide : (twoTo 63 : Int) ≤ n → n < twoTo 64 → v = .float (.ofNat n.toNat)

namespace Json

variable {digits literal rest : List Char} {n : Int} {v : Value}

theorem le_foldl_digits (cs : List Char) (n : Nat) :
    n ≤ cs.foldl (fun n c => 10 * n + Decimal.digitValue c) n := by
  induction cs generalizing n with
  | nil => exact Nat.le_refl n
  | cons c cs ih =>
    have more := ih (10 * n + Decimal.digitValue c)
    rw [List.foldl_cons]
    omega

theorem absorb_of_lt (cs : List Char) {significand : Nat}
    (fits : cs.foldl (fun n c => 10 * n + Decimal.digitValue c) significand < twoTo 64) :
    absorb significand cs =
      (cs.foldl (fun n c => 10 * n + Decimal.digitValue c) significand, cs.length, 0) := by
  induction cs generalizing significand with
  | nil => rfl
  | cons c cs ih =>
    have first := le_foldl_digits cs (10 * significand + Decimal.digitValue c)
    rw [List.foldl_cons] at fits
    rw [absorb, if_pos (by omega), ih fits]
    rfl

theorem readWhole?_digits (all : digits.all Decimal.isDigit = true) {whole : List Char}
    (read : readWhole? digits = some (whole, rest)) : whole = digits ∧ rest = [] := by
  have taken : digits.takeWhile Decimal.isDigit = digits :=
    List.takeWhile_eq_self_iff.mpr fun c member => List.all_eq_true.mp all c member
  simp only [readWhole?, taken] at read
  split at read <;> cases read
  exact ⟨rfl, List.drop_length⟩

theorem readNumber?_minus (all : digits.all Decimal.isDigit = true)
    (fits : Decimal.natOfDigits digits < twoTo 64)
    (read : readNumber? ('-' :: digits) = some (v, rest)) :
    v = wholeValue true (Decimal.natOfDigits digits) := by
  obtain ⟨⟨whole, left⟩, taken, later⟩ := Option.bind_eq_some_iff.mp read
  obtain ⟨rfl, rfl⟩ := readWhole?_digits all taken
  dsimp only at later
  rw [absorb_of_lt whole fits] at later
  cases later
  rfl

theorem readNumber?_plain (all : digits.all Decimal.isDigit = true)
    (fits : Decimal.natOfDigits digits < twoTo 64)
    (read : readNumber? digits = some (v, rest)) :
    v = wholeValue false (Decimal.natOfDigits digits) := by
  obtain ⟨⟨whole, left⟩, taken, later⟩ := Option.bind_eq_some_iff.mp read
  split at taken
  · cases all
  · obtain ⟨rfl, rfl⟩ := readWhole?_digits all taken
    dsimp only at later
    rw [absorb_of_lt whole fits] at later
    cases later
    split
    · cases all
    · rfl

theorem renders_of_readNumber? (spelled : Decimal.readInt? literal = some n)
    (read : readNumber? literal = some (v, rest)) : v.Renders n := by
  have wide : twoTo 64 = 2 * twoTo 63 := by decide
  have positive : 0 < twoTo 63 := twoTo_pos 63
  cases Decimal.spells_of_readInt? spelled with
  | @minus digits all =>
    refine ⟨fun fits => ?_, fun above => ?_⟩
    · have bounds := bounds_of_fits fits
      rw [readNumber?_minus all (by omega) read, wholeValue, if_pos rfl]
      by_cases zero : Decimal.natOfDigits digits = 0
      · rw [if_pos (Or.inl zero), zero]
        exact Or.inr ⟨rfl, rfl⟩
      · rw [if_neg (by omega)]
        exact Or.inl rfl
    · omega
  | plus all => cases read
  | @plain digits all =>
    refine ⟨fun fits => ?_, fun above below => ?_⟩
    · have bounds := bounds_of_fits fits
      rw [readNumber?_plain all (by omega) read, wholeValue,
        if_neg Bool.false_ne_true, if_pos (by omega)]
      exact Or.inl rfl
    · rw [readNumber?_plain all (by omega) read, wholeValue,
        if_neg Bool.false_ne_true, if_neg (by omega)]
      rfl

end Json

namespace Decimal

theorem splitSign_digits {digits : List Char} (all : digits.all isDigit = true) :
    splitSign digits = (false, digits) := by
  rcases splitSign_cases digits with ⟨rest, rfl, -⟩ | ⟨rest, rfl, -⟩ | plain
  · cases all
  · cases all
  · exact plain

theorem read?_digits {digits : List Char} (all : digits.all isDigit = true) (filled : digits ≠ []) :
    read? digits = some ⟨natOfDigits digits, 0⟩ := by
  have each := fun c member => List.all_eq_true.mp all c member
  have taken : digits.takeWhile isDigit = digits := List.takeWhile_eq_self_iff.mpr each
  have left : digits.dropWhile isDigit = [] := List.dropWhile_eq_nil_iff.mpr each
  simp [read?, taken, left, filled, readExponent?]

theorem toBinary64_whole {n : Nat} (positive : 0 < n) (below : n < twoTo 64) :
    toBinary64 false ⟨n, 0⟩ = .ofNat n := by
  have short : (digitsOfNat n).length ≤ 20 := by
    have limit : twoTo 64 < 10 ^ 20 := by decide
    exact (Nat.length_toDigits_le_iff (b := 10) (by decide) (by decide)).mpr (by omega)
  simp only [toBinary64]
  rw [if_neg (by omega), if_neg (by omega), if_neg (by omega), if_pos (by omega)]
  exact congrArg (Binary64.ofRatio false · 1) (Nat.mul_one n)

end Decimal

namespace Binary64

theorem read?_digits {s : String} {digits : List Char}
    (sign : Decimal.splitSign s.toList = (false, digits))
    (all : digits.all Decimal.isDigit = true) (filled : digits ≠ []) :
    read? s = some (Decimal.toBinary64 false ⟨Decimal.natOfDigits digits, 0⟩) := by
  have same := Decimal.map_toLower_of_digits all
  have word : ∀ word : String, word.toList.all Decimal.isDigit = false →
      String.ofList digits ≠ word := by
    rintro word letters rfl
    rw [String.toList_ofList, all] at letters
    cases letters
  simp only [read?, sign, same]
  rw [if_neg, if_neg (word "nan" (by decide)), Decimal.read?_digits all filled]
  · rfl
  · simp only [Bool.or_eq_true, decide_eq_true_eq, not_or]
    exact ⟨word "inf" (by decide), word "infinity" (by decide)⟩

end Binary64

namespace Environment

variable {s : String} {n : Int}

theorem lowercase_of_spells (spells : Decimal.Spells s.toList n) : Text.lowercase s = s := by
  rw [Text.lowercase, Text.lowerFrom_of_small _ fun c member => Text.isSmall_of_lt
    (spells.below_letters c member),
    String.ofList_toList]

theorem ne_word_of_spells (spells : Decimal.Spells s.toList n) (word : String)
    (letter : ∃ c ∈ word.toList, 65 ≤ c.toNat) : Text.lowercase s ≠ word := by
  obtain ⟨c, member, above⟩ := letter
  intro equal
  rw [← equal, lowercase_of_spells spells] at member
  have below := spells.below_letters c member
  omega

theorem settingOf_spells (spells : Decimal.Spells s.toList n)
    (read : Decimal.readInt? s.toList = some n) :
    settingOf s = if fitsInt64 n then .int n else settingOf.numberOr s := by
  simp only [settingOf, if_neg (ne_word_of_spells spells "true" ⟨'t', by decide, by decide⟩),
    if_neg (ne_word_of_spells spells "false" ⟨'f', by decide, by decide⟩), read]

theorem renders_settingOf (spelled : Decimal.readInt? s.toList = some n) :
    (settingOf s).Renders n := by
  have spells := Decimal.spells_of_readInt? spelled
  refine ⟨fun fits => Or.inl (by rw [settingOf_spells spells spelled, if_pos fits]),
    fun above below => ?_⟩
  have unfit : ¬ fitsInt64 n = true := fun fits => by
    have bounds := bounds_of_fits fits
    omega
  have positive : 0 < twoTo 63 := twoTo_pos 63
  have reads : ∀ digits, Decimal.splitSign s.toList = (false, digits) →
    digits.all Decimal.isDigit = true →
      n = Decimal.natOfDigits digits → Binary64.read? s = some (.ofNat n.toNat) := by
    intro digits sign all same
    have filled : digits ≠ [] := by
      rintro rfl
      rw [same] at above
      exact absurd above (by decide)
    rw [Binary64.read?_digits sign all filled,
      Decimal.toBinary64_whole (by omega) (by omega), same, Int.toNat_natCast]
  have read : Binary64.read? s = some (.ofNat n.toNat) := by
    generalize s.toList = literal at spells reads
    cases spells with
    | minus all => omega
    | plus all => exact reads _ rfl all rfl
    | plain all => exact reads _ (Decimal.splitSign_digits all) all rfl
  rw [settingOf_spells spells spelled, if_neg unfit, settingOf.numberOr, read]

end Environment

namespace Value

variable {v : Value} {n : Int} {m : Nat}

theorem roundToUInt64_lt (x : Binary64) : x.roundToUInt64 < twoTo 64 := by
  have positive : 0 < twoTo 64 := twoTo_pos 64
  unfold Binary64.roundToUInt64
  split
  · exact positive
  · split
    · split <;> omega
    · omega

theorem toNat?_lt (read : v.toNat? = some m) : m < twoTo 64 := by
  have one : 1 < twoTo 64 := by decide
  cases v with
  | null | list | table => cases read
  | bool b => cases b <;> cases read <;> decide
  | int n =>
    simp only [toNat?, Option.ite_none_right_eq_some, Option.some.injEq] at read
    omega
  | float x =>
    cases read
    exact roundToUInt64_lt x
  | text s =>
    simp only [toNat?] at read
    split at read
    · cases read
      exact one
    · split at read
      · cases read
        omega
      · exact of_decide_eq_true (Option.filter_eq_some_iff.mp read).2

theorem Renders.toNat?_whole (renders : v.Renders n) (fits : fitsInt64 n = true)
    (read : v.toNat? = some m) : (m : Int) = n := by
  rcases renders.whole fits with rfl | ⟨rfl, rfl⟩
  · simp only [toNat?, Option.ite_none_right_eq_some, Option.some.injEq] at read
    omega
  · have zero : (Binary64.ofNat 0).neg.roundToUInt64 = 0 := by decide +kernel
    have same : (Binary64.ofNat 0).neg.roundToUInt64 = m := Option.some.inj read
    rw [← same, zero]
    rfl

theorem Renders.plain (renders : v.Renders n)
    (held : fitsInt64 n = true ∨ (twoTo 63 : Int) ≤ n ∧ n < twoTo 64) : v.IsPlain := by
  rcases held with fits | ⟨above, below⟩
  · rcases renders.whole fits with rfl | ⟨-, rfl⟩ <;> trivial
  · rw [renders.wide above below]
    trivial

end Value

end SeedTree
