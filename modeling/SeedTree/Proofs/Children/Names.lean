import Mathlib.Algebra.Group.Nat.Defs
import Mathlib.Data.List.Nodup
import Mathlib.Data.Nat.Init
import SeedTree.Proofs.Stream.Rejection

/- The names that generated entries can have. A base name has 65537 forms: itself, and one with each
   suffix of four hexadecimal digits. -/
namespace SeedTree

namespace Children

open Draw

def padded (width n : Nat) : List Char :=
  List.replicate (width - (Nat.toDigits 16 n).length) '0' ++ Nat.toDigits 16 n

def quad (n : Nat) : String := String.ofList (padded 4 n)

def IsQuad (s : String) : Prop :=
  s.toList.length = 4 ∧ ∀ c ∈ s.toList, c ∈ "0123456789abcdef".toList

section Digits

variable {width n m : Nat}

theorem length_padded (small : n < 16 ^ width) (some : 0 < width) :
    (padded width n).length = width := by
  have short := (Nat.length_toDigits_le_iff (b := 16) (by decide) some).mpr small
  rw [padded, List.length_append, List.length_replicate]
  omega

theorem padded_one (small : n < 16) : padded 1 n = [Nat.digitChar n] := by
  rw [padded, Nat.toDigits_eq_if (by decide), if_pos small]
  rfl

theorem padded_succ (some : 0 < width) (n : Nat) :
    padded (width + 1) n = padded width (n / 16) ++ [Nat.digitChar (n % 16)] := by
  rw [padded, Nat.toDigits_eq_if (b := 16) (n := n) (by decide)]
  split
  · rename_i small
    have none : n / 16 = 0 := Nat.div_eq_of_lt small
    have zero : padded width 0 = List.replicate width '0' := by
      obtain ⟨w, rfl⟩ : ∃ w, width = w + 1 := ⟨width - 1, by omega⟩
      exact (List.replicate_succ' (n := w) (a := '0')).symm
    rw [none, zero, Nat.mod_eq_of_lt small]
    rfl
  · rw [padded, List.append_assoc, List.length_append, List.length_singleton, Nat.add_sub_add_right]

theorem padded_injective (some : 0 < width) (small : n < 16 ^ width) (small' : m < 16 ^ width)
    (same : padded width n = padded width m) : n = m := by
  have digits : ∀ a < 16, ∀ b < 16, Nat.digitChar a = Nat.digitChar b → a = b := by decide
  induction width, some using Nat.le_induction generalizing n m with
  | base =>
    rw [Nat.pow_one] at small small'
    rw [padded_one small, padded_one small'] at same
    exact digits n small m small' (List.singleton_inj.mp same)
  | succ width some ih =>
    have some : 0 < width := some
    rw [padded_succ some, padded_succ some] at same
    obtain ⟨left, right⟩ := List.append_inj' same rfl
    have high :=
      ih (by rw [Nat.pow_succ] at small; omega) (by rw [Nat.pow_succ] at small'; omega) left
    have low := digits (n % 16) (by omega) (m % 16) (by omega) (List.singleton_inj.mp right)
    omega

theorem mem_padded (some : 0 < width) (small : n < 16 ^ width) {c : Char}
    (member : c ∈ padded width n) : c ∈ "0123456789abcdef".toList := by
  have digits : ∀ a < 16, Nat.digitChar a ∈ "0123456789abcdef".toList := by decide
  induction width, some using Nat.le_induction generalizing n with
  | base =>
    rw [Nat.pow_one] at small
    rw [padded_one small, List.mem_singleton] at member
    exact member ▸ digits n small
  | succ width some ih =>
    have some : 0 < width := some
    rw [padded_succ some, List.mem_append, List.mem_singleton] at member
    rcases member with early | rfl
    · exact ih (by rw [Nat.pow_succ] at small; omega) early
    · exact digits (n % 16) (by omega)

theorem isQuad_quad (small : n < 16 ^ 4) : IsQuad (quad n) := by
  rw [IsQuad, quad, String.toList_ofList]
  exact ⟨length_padded small (by decide), fun _ => mem_padded (by decide) small⟩

theorem quad_injective (small : n < 16 ^ 4) (small' : m < 16 ^ 4)
    (same : quad n = quad m) : n = m :=
  padded_injective (by decide) small small' (String.ofList_injective same)

end Digits

theorem withSuffix_of_plain {base : String} (plain : '.' ∉ base.toList) (s : String) :
    withSuffix base s = base ++ "-" ++ s := by
  rw [withSuffix]
  split
  · rename_i stem extension split
    rw [Text.eq_of_splitLast? split] at plain
    simp at plain
  · rfl

theorem withSuffix_of_extension {stem extension : String}
    (plain : '.' ∉ extension.toList) (s : String) :
    withSuffix (stem ++ "." ++ extension) s = stem ++ "-" ++ s ++ "." ++ extension := by
  have chars : (stem ++ "." ++ extension).toList = stem.toList ++ '.' :: extension.toList := by simp
  rw [withSuffix, chars, Text.splitLast?_append plain]
  simp only [String.ofList_toList]

theorem withSuffix_injective {base s t : String}
    (same : withSuffix base s = withSuffix base t) : s = t := by
  have chars := congrArg String.toList same
  rw [withSuffix, withSuffix] at chars
  split at chars <;> simpa [String.toList_inj] using chars

theorem length_withSuffix (base s : String) :
    base.toList.length < (withSuffix base s).toList.length := by
  rw [withSuffix]
  split
  · rename_i stem extension split
    rw [Text.eq_of_splitLast? split]
    have dash : "-".toList.length = 1 := rfl
    have dot : ".".toList.length = 1 := rfl
    simp only [String.toList_append, List.length_append, List.length_cons,
      String.toList_ofList, dash, dot]
    omega
  · simp

/-- A base name and what it becomes with each suffix. -/
def forms (base : String) : List String :=
  base :: (List.range (16 ^ 4)).map fun n => withSuffix base (quad n)

theorem length_forms (base : String) : (forms base).length = 65537 := by
  simp [forms]

theorem mem_forms_iff {base name : String} :
    name ∈ forms base ↔ name = base ∨ ∃ n < 16 ^ 4, name = withSuffix base (quad n) := by
  rw [forms, List.mem_cons, List.mem_map]
  simp only [List.mem_range, eq_comm]

theorem mem_forms_self (base : String) : base ∈ forms base := mem_forms_iff.mpr (Or.inl rfl)

theorem nodup_forms (base : String) : (forms base).Nodup := by
  refine List.nodup_cons.mpr ⟨fun member => ?_, ?_⟩
  · obtain ⟨n, _, same⟩ := List.mem_map.mp member
    have longer := length_withSuffix base (quad n)
    rw [same] at longer
    exact Nat.lt_irrefl _ longer
  · refine List.Nodup.map_on (fun n inside m inside' same => ?_) List.nodup_range
    exact quad_injective (List.mem_range.mp inside) (List.mem_range.mp inside')
      (withSuffix_injective same)

def folderBases : List String :=
  words.flatMap fun first => words.map fun second => first ++ "_" ++ second

def fileBases : List String :=
  words.flatMap fun stem => extensions.map fun extension => stem ++ "." ++ extension

theorem length_folderBases : folderBases.length = 1024 := by decide +kernel

theorem length_fileBases : fileBases.length = 192 := by decide +kernel

theorem always_folderBase_mem (fuel : Nat) : Always (folderBase fuel) (· ∈ folderBases) := by
  refine always_bind (always_pick (by decide) fun _ member => member) fun first left => ?_
  refine always_bind (always_pick (by decide) fun _ member => member) fun second right =>
    always_pure ?_
  exact List.mem_flatMap.mpr ⟨first, left, List.mem_map.mpr ⟨second, right, rfl⟩⟩

theorem always_fileBase_mem (fuel : Nat) : Always (fileBase fuel) (· ∈ fileBases) := by
  refine always_bind (always_pick (by decide) fun _ member => member) fun stem left => ?_
  refine always_bind (always_pick (by decide) fun _ member => member) fun extension right =>
    always_pure ?_
  exact List.mem_flatMap.mpr ⟨stem, left, List.mem_map.mpr ⟨extension, right, rfl⟩⟩

/-- Two words with an underscore between them, and at most one suffix. -/
def FolderName (name : String) : Prop :=
  ∃ first ∈ words, ∃ second ∈ words, name = first ++ "_" ++ second ∨
    ∃ s, IsQuad s ∧ name = first ++ "_" ++ second ++ "-" ++ s

/-- A word and an extension, and at most one suffix before the extension. -/
def FileName (name : String) : Prop :=
  ∃ stem ∈ words, ∃ extension ∈ extensions, name = stem ++ "." ++ extension ∨
    ∃ s, IsQuad s ∧ name = stem ++ "-" ++ s ++ "." ++ extension

theorem words_plain : ∀ word ∈ words, '.' ∉ word.toList := by decide +kernel

theorem extensions_plain : ∀ extension ∈ extensions, '.' ∉ extension.toList := by decide +kernel

theorem folderName_of_form {base name : String} (pooled : base ∈ folderBases)
    (form : name ∈ forms base) : FolderName name := by
  obtain ⟨first, left, inner⟩ := List.mem_flatMap.mp pooled
  obtain ⟨second, right, rfl⟩ := List.mem_map.mp inner
  have plain : '.' ∉ (first ++ "_" ++ second).toList := by
    simp [words_plain first left, words_plain second right]
  refine ⟨first, left, second, right, (mem_forms_iff.mp form).imp_right ?_⟩
  rintro ⟨n, small, rfl⟩
  exact ⟨quad n, isQuad_quad small, withSuffix_of_plain plain _⟩

theorem fileName_of_form {base name : String} (pooled : base ∈ fileBases)
    (form : name ∈ forms base) : FileName name := by
  obtain ⟨stem, left, inner⟩ := List.mem_flatMap.mp pooled
  obtain ⟨extension, right, rfl⟩ := List.mem_map.mp inner
  refine ⟨stem, left, extension, right, (mem_forms_iff.mp form).imp_right ?_⟩
  rintro ⟨n, small, rfl⟩
  exact ⟨quad n, isQuad_quad small, withSuffix_of_extension (extensions_plain extension right) _⟩

theorem FolderName.plain {name : String} (folder : FolderName name) : '.' ∉ name.toList := by
  obtain ⟨first, left, second, right, shape⟩ := folder
  have before := words_plain first left
  have after := words_plain second right
  rcases shape with rfl | ⟨s, quad, rfl⟩
  · simp [before, after]
  · have digits : '.' ∉ s.toList := fun dot => absurd (quad.2 '.' dot) (by decide)
    simp [before, after, digits]

theorem FileName.dotted {name : String} (file : FileName name) : '.' ∈ name.toList := by
  obtain ⟨stem, _, extension, _, rfl | ⟨s, _, rfl⟩⟩ := file <;> simp

end Children

end SeedTree
