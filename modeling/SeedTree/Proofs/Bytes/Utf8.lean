import SeedTree.Bytes.Utf8

/- Reading UTF-8 back: the bytes of a text hold exactly that text, so texts with the same bytes are
   the same, and only the NUL character has a zero byte. -/
namespace SeedTree

namespace Bytes

theorem char_code_bound (c : Char) :
    c.toNat < 0xD800 ∨ (0xDFFF < c.toNat ∧ c.toNat < 0x110000) := c.valid

theorem ofNat_of_code {c : Char} {n : Nat} (code : n = c.toNat) : Char.ofNat n = c := by
  rw [code, Char.ofNat_toNat]

theorem toNat_ofNat_small {n : Nat} (small : n < 256) : (UInt8.ofNat n).toNat = n := by
  simp [UInt8.toNat_ofNat', Nat.mod_eq_of_lt small]

theorem isTail_ofNat (n : Nat) : isTail (UInt8.ofNat (n % 64 + 128)) = true := by
  have byte := toNat_ofNat_small (show n % 64 + 128 < 256 by omega)
  simp only [isTail, UInt8.le_iff_toNat_le, byte, Bool.and_eq_true, decide_eq_true_eq]
  exact ⟨by simp, by simp; omega⟩

theorem lead_ascii {n : Nat} (small : n < 128) : lead (UInt8.ofNat n) = .ascii := by
  have byte := toNat_ofNat_small (show n < 256 by omega)
  simp [lead, UInt8.lt_iff_toNat_lt, byte, small]

theorem lead_two {n : Nat} (low : 0xC2 ≤ n) (high : n < 0xE0) : lead (UInt8.ofNat n) = .two := by
  have byte := toNat_ofNat_small (show n < 256 by omega)
  simp [lead, UInt8.lt_iff_toNat_lt, byte, show ¬ n < 128 by omega, show ¬ n < 194 by omega, high]

def secondOfThree (first : Nat) : UInt8 × UInt8 :=
  if first = 0xE0 then (0xA0, 0xBF) else if first = 0xED then (0x80, 0x9F) else (0x80, 0xBF)

theorem lead_three {n : Nat} (low : 0xE0 ≤ n) (high : n < 0xF0) :
    lead (UInt8.ofNat n) = .three (secondOfThree n).1 (secondOfThree n).2 := by
  have byte := toNat_ofNat_small (show n < 256 by omega)
  simp only [lead, secondOfThree, UInt8.lt_iff_toNat_lt, ← UInt8.toNat_inj, byte]
  grind

def secondOfFour (first : Nat) : UInt8 × UInt8 :=
  if first = 0xF0 then (0x90, 0xBF) else if first = 0xF4 then (0x80, 0x8F) else (0x80, 0xBF)

theorem lead_four {n : Nat} (low : 0xF0 ≤ n) (high : n ≤ 0xF4) :
    lead (UInt8.ofNat n) = .four (secondOfFour n).1 (secondOfFour n).2 := by
  have byte := toNat_ofNat_small (show n < 256 by omega)
  simp only [lead, secondOfFour, UInt8.lt_iff_toNat_lt, ← UInt8.toNat_inj, byte]
  grind

theorem ofNat_within (low high : Nat) {n : Nat} (fits : n < 256)
    (lower : low ≤ n) (upper : n ≤ high) (range : high < 256) :
    (UInt8.ofNat low ≤ UInt8.ofNat n && UInt8.ofNat n ≤ UInt8.ofNat high) = true := by
  simp only [UInt8.le_iff_toNat_le, toNat_ofNat_small fits, toNat_ofNat_small range,
    toNat_ofNat_small (show low < 256 by omega), Bool.and_eq_true, decide_eq_true_eq]
  exact ⟨lower, upper⟩

theorem nextChar_ascii (c : Char) (rest : Bytes) (small : c.toNat < 0x80) :
    nextChar (UInt8.ofNat c.toNat) rest = .ok (c, rest) := by
  have byte := toNat_ofNat_small (show c.toNat < 256 by omega)
  simp [nextChar, lead_ascii small, byte]

theorem nextChar_two (c : Char) (rest : Bytes) (low : 0x80 ≤ c.toNat) (high : c.toNat < 0x800) :
    nextChar (UInt8.ofNat (c.toNat / 64 % 32 + 192))
      (UInt8.ofNat (c.toNat % 64 + 128) :: rest) = .ok (c, rest) := by
  have first := lead_two (show 0xC2 ≤ c.toNat / 64 % 32 + 192 by omega) (by omega)
  have byte1 := toNat_ofNat_small (show c.toNat / 64 % 32 + 192 < 256 by omega)
  have byte2 := toNat_ofNat_small (show c.toNat % 64 + 128 < 256 by omega)
  simp only [nextChar, first, isTail_ofNat, if_true, byte1, byte2]
  rw [ofNat_of_code (c := c) (by omega)]

theorem nextChar_three (c : Char) (rest : Bytes) (low : 0x800 ≤ c.toNat)
    (high : c.toNat < 0x10000) :
    nextChar (UInt8.ofNat (c.toNat / 4096 % 16 + 224))
      (UInt8.ofNat (c.toNat / 64 % 64 + 128) :: UInt8.ofNat (c.toNat % 64 + 128) :: rest)
      = .ok (c, rest) := by
  have bound := char_code_bound c
  have first := lead_three (show 0xE0 ≤ c.toNat / 4096 % 16 + 224 by omega) (by omega)
  have byte1 := toNat_ofNat_small (show c.toNat / 4096 % 16 + 224 < 256 by omega)
  have byte2 := toNat_ofNat_small (show c.toNat / 64 % 64 + 128 < 256 by omega)
  have byte3 := toNat_ofNat_small (show c.toNat % 64 + 128 < 256 by omega)
  have second : ((secondOfThree (c.toNat / 4096 % 16 + 224)).1
      ≤ UInt8.ofNat (c.toNat / 64 % 64 + 128)
      && UInt8.ofNat (c.toNat / 64 % 64 + 128)
        ≤ (secondOfThree (c.toNat / 4096 % 16 + 224)).2) = true := by
    unfold secondOfThree
    split
    · exact ofNat_within 0xA0 0xBF (by omega) (by omega) (by omega) (by omega)
    · split
      · exact ofNat_within 0x80 0x9F (by omega) (by omega) (by omega) (by omega)
      · exact ofNat_within 0x80 0xBF (by omega) (by omega) (by omega) (by omega)
  simp only [nextChar, first, second, Bool.not_true, Bool.false_eq_true, if_false, isTail_ofNat,
    if_true, byte1, byte2, byte3]
  rw [ofNat_of_code (c := c) (by omega)]

theorem nextChar_four (c : Char) (rest : Bytes) (low : 0x10000 ≤ c.toNat) :
    nextChar (UInt8.ofNat (c.toNat / 262144 % 8 + 240))
      (UInt8.ofNat (c.toNat / 4096 % 64 + 128) :: UInt8.ofNat (c.toNat / 64 % 64 + 128)
        :: UInt8.ofNat (c.toNat % 64 + 128) :: rest) = .ok (c, rest) := by
  have bound := char_code_bound c
  have first := lead_four (show 0xF0 ≤ c.toNat / 262144 % 8 + 240 by omega) (by omega)
  have byte1 := toNat_ofNat_small (show c.toNat / 262144 % 8 + 240 < 256 by omega)
  have byte2 := toNat_ofNat_small (show c.toNat / 4096 % 64 + 128 < 256 by omega)
  have byte3 := toNat_ofNat_small (show c.toNat / 64 % 64 + 128 < 256 by omega)
  have byte4 := toNat_ofNat_small (show c.toNat % 64 + 128 < 256 by omega)
  have second : ((secondOfFour (c.toNat / 262144 % 8 + 240)).1
      ≤ UInt8.ofNat (c.toNat / 4096 % 64 + 128)
      && UInt8.ofNat (c.toNat / 4096 % 64 + 128)
        ≤ (secondOfFour (c.toNat / 262144 % 8 + 240)).2) = true := by
    unfold secondOfFour
    split
    · exact ofNat_within 0x90 0xBF (by omega) (by omega) (by omega) (by omega)
    · split
      · exact ofNat_within 0x80 0x8F (by omega) (by omega) (by omega) (by omega)
      · exact ofNat_within 0x80 0xBF (by omega) (by omega) (by omega) (by omega)
  simp only [nextChar, first, second, Bool.not_true, Bool.false_eq_true, if_false, isTail_ofNat,
    if_true, byte1, byte2, byte3, byte4]
  rw [ofNat_of_code (c := c) (by omega)]

theorem nextChar_utf8EncodeChar (c : Char) (rest : Bytes) :
    ∃ first tail, String.utf8EncodeChar c = first :: tail ∧
      nextChar first (tail ++ rest) = .ok (c, rest) := by
  have code : c.val.toNat = c.toNat := rfl
  unfold String.utf8EncodeChar
  simp only [code]
  split
  · exact ⟨_, _, rfl, nextChar_ascii c rest (by omega)⟩
  · split
    · exact ⟨_, _, rfl, nextChar_two c rest (by omega) (by omega)⟩
    · split
      · exact ⟨_, _, rfl, nextChar_three c rest (by omega) (by omega)⟩
      · exact ⟨_, _, rfl, nextChar_four c rest (by omega)⟩

theorem readChars_encoded (cs done : List Char) (fuel index : Nat)
    (enough : (cs.flatMap String.utf8EncodeChar).length ≤ fuel) :
    readChars fuel index (cs.flatMap String.utf8EncodeChar) done
      = .ok (done.reverse ++ cs) := by
  induction cs generalizing fuel index done with
  | nil => cases fuel <;> simp [readChars]
  | cons c cs ih =>
    obtain ⟨first, tail, encoded, read⟩ :=
      nextChar_utf8EncodeChar c (cs.flatMap String.utf8EncodeChar)
    simp only [List.flatMap_cons, encoded, List.cons_append, List.length_cons,
      List.length_append] at enough ⊢
    cases fuel with
    | zero => omega
    | succ fuel =>
      simp only [readChars, read]
      rw [ih (c :: done) fuel _ (by omega)]
      simp

theorem toText_utf8 (s : String) : toText (utf8 s) = .ok s := by
  have read := readChars_encoded s.toList [] _ 0 (Nat.le_refl _)
  simp only [toText, utf8, read]
  simp [Except.map]

theorem toText?_utf8 (s : String) : toText? (utf8 s) = some s := by
  simp [toText?, toText_utf8, Except.toOption]

end Bytes

theorem utf8_injective {a b : String} (same : utf8 a = utf8 b) : a = b := by
  have read := Bytes.toText_utf8 a
  rw [same, Bytes.toText_utf8 b] at read
  exact (Except.ok.inj read).symm

theorem utf8_append (a b : String) : utf8 (a ++ b) = utf8 a ++ utf8 b := by
  simp [utf8]

theorem length_utf8_le (s : String) : (utf8 s).length ≤ 4 * s.toList.length := by
  unfold utf8
  induction s.toList with
  | nil => simp
  | cons c cs ih =>
    have width := c.utf8Size_le_four
    rw [List.flatMap_cons, List.length_append, List.length_cons, String.length_utf8EncodeChar]
    omega

theorem zero_not_mem_utf8EncodeChar {c : Char} (positive : 0 < c.toNat) :
    (0 : UInt8) ∉ String.utf8EncodeChar c := by
  have bound := Bytes.char_code_bound c
  have code : c.val.toNat = c.toNat := rfl
  have nonzero : ∀ n : Nat, 0 < n → n < 256 → (0 : UInt8) ≠ UInt8.ofNat n := by
    intro n positive small same
    have value := congrArg UInt8.toNat same
    rw [Bytes.toNat_ofNat_small small] at value
    exact absurd value (by simp; omega)
  unfold String.utf8EncodeChar
  simp only [code]
  split
  · simp only [List.mem_singleton]
    exact nonzero _ positive (by omega)
  · split
    · simp only [List.mem_cons, List.not_mem_nil, or_false, not_or]
      exact ⟨nonzero _ (by omega) (by omega), nonzero _ (by omega) (by omega)⟩
    · split
      · simp only [List.mem_cons, List.not_mem_nil, or_false, not_or]
        exact ⟨nonzero _ (by omega) (by omega), nonzero _ (by omega) (by omega),
          nonzero _ (by omega) (by omega)⟩
      · simp only [List.mem_cons, List.not_mem_nil, or_false, not_or]
        exact ⟨nonzero _ (by omega) (by omega), nonzero _ (by omega) (by omega),
          nonzero _ (by omega) (by omega), nonzero _ (by omega) (by omega)⟩

theorem zero_not_mem_utf8 {s : String} (plain : '\x00' ∉ s.toList) : (0 : UInt8) ∉ utf8 s := by
  intro zero
  obtain ⟨c, member, byte⟩ := List.mem_flatMap.mp zero
  have nonzero : 0 < c.toNat := by
    rcases Nat.eq_zero_or_pos c.toNat with nul | positive
    · rw [← Char.ofNat_toNat c, nul] at member
      exact absurd member plain
    · exact positive
  exact zero_not_mem_utf8EncodeChar nonzero byte

end SeedTree
