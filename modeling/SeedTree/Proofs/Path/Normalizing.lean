import SeedTree.Proofs.Path

/- What normalizing makes of any text, told by cutting the text at its slashes, and the
   correspondence of normalized paths with lists of names. -/
namespace SeedTree

namespace Text

variable {separator : Char}

theorem splitOn_intercalate {pieces : List (List Char)} (some : pieces ≠ [])
    (plain : ∀ piece ∈ pieces, separator ∉ piece) :
    splitOn separator ([separator].intercalate pieces) = pieces := by
  induction pieces with
  | nil => exact absurd rfl some
  | cons piece more ih =>
    have first := plain piece (by simp)
    cases more with
    | nil => rw [List.intercalate_singleton, splitOn_plain first]
    | cons next more =>
      rw [List.intercalate_cons_cons, List.append_assoc,
        List.singleton_append, splitOn_append first,
        ih (by simp) fun other member => plain other (List.mem_cons_of_mem _ member)]

theorem splitOn_cons_of_ne {c : Char} (apart : c ≠ separator) (cs : List Char) :
    ∃ piece more, splitOn separator cs = piece :: more ∧
      splitOn separator (c :: cs) = (c :: piece) :: more := by
  obtain ⟨piece, more, pieces⟩ := List.exists_cons_of_ne_nil (splitOn_ne_nil separator cs)
  refine ⟨piece, more, pieces, ?_⟩
  rw [splitOn, if_neg apart, pieces]

theorem intercalate_splitOn (cs : List Char) :
    [separator].intercalate (splitOn separator cs) = cs := by
  induction cs with
  | nil => rfl
  | cons c cs ih =>
    by_cases same : c = separator
    · obtain ⟨piece, more, pieces⟩ := List.exists_cons_of_ne_nil (splitOn_ne_nil separator cs)
      rw [splitOn, if_pos same, pieces, List.intercalate_cons_cons, ← pieces, ih, same]
      rfl
    · obtain ⟨piece, more, pieces, longer⟩ := splitOn_cons_of_ne same cs
      rw [pieces] at ih
      rw [longer]
      cases more with
      | nil =>
        rw [List.intercalate_singleton] at ih ⊢
        rw [ih]
      | cons next more =>
        rw [List.intercalate_cons_cons] at ih ⊢
        rw [← ih]
        rfl

theorem mem_splitOn {cs piece : List Char} (member : piece ∈ splitOn separator cs) :
    separator ∉ piece := by
  induction cs generalizing piece with
  | nil =>
    rw [splitOn, List.mem_singleton] at member
    rw [member]
    exact List.not_mem_nil
  | cons c cs ih =>
    by_cases same : c = separator
    · rw [splitOn, if_pos same] at member
      rcases List.mem_cons.mp member with rfl | later
      · exact List.not_mem_nil
      · exact ih later
    · obtain ⟨first, more, pieces, longer⟩ := splitOn_cons_of_ne same cs
      rw [pieces] at ih
      rw [longer] at member
      rcases List.mem_cons.mp member with rfl | later
      · rw [List.mem_cons, not_or]
        exact ⟨Ne.symm same, ih List.mem_cons_self⟩
      · exact ih (List.mem_cons_of_mem _ later)

theorem mem_iff_splitOn {c : Char} (apart : c ≠ separator) (cs : List Char) :
    c ∈ cs ↔ ∃ piece ∈ splitOn separator cs, c ∈ piece := by
  induction cs with
  | nil => simp [splitOn]
  | cons d cs ih =>
    by_cases same : d = separator
    · have other : c ≠ d := fun equal => apart (equal.trans same)
      rw [splitOn, if_pos same, List.mem_cons, or_iff_right other, ih]
      simp
    · obtain ⟨first, more, pieces, longer⟩ := splitOn_cons_of_ne same cs
      rw [longer, List.mem_cons, ih, pieces]
      simp [or_assoc]

end Text

namespace Path

structure Cut (input : String) (pieces : List String) : Prop where
  some : pieces ≠ []
  plain : ∀ piece ∈ pieces, '/' ∉ piece.toList
  whole : "/".intercalate pieces = input

def Normalized (path : String) : Prop := ∃ input, normalize input = .ok path

theorem normalized_iff {path : String} : Normalized path ↔ IsNormal path :=
  ⟨fun ⟨_, ok⟩ => normalize_isNormal ok, fun normal => ⟨path, normal⟩⟩

theorem cut_segments (input : String) : Cut input (segments input) where
  some := by simpa [segments] using Text.splitOn_ne_nil '/' input.toList
  plain piece member := by
    obtain ⟨chars, among, rfl⟩ := List.mem_map.mp member
    rw [String.toList_ofList]
    exact Text.mem_splitOn among
  whole := by
    have spelled : (segments input).map String.toList = Text.splitOn '/' input.toList := by
      simp [segments, Function.comp_def]
    apply String.toList_inj.mp
    rw [String.toList_intercalate, spelled]
    exact Text.intercalate_splitOn input.toList

theorem Cut.eq_segments {input : String} {pieces : List String} (cut : Cut input pieces) :
    pieces = segments input := by
  have chars : input.toList = ['/'].intercalate (pieces.map String.toList) := by
    rw [← cut.whole, String.toList_intercalate]
    rfl
  rw [segments, chars, Text.splitOn_intercalate (by simpa using cut.some)
    (by simpa using cut.plain)]
  simp [Function.comp_def]

theorem nul_iff_segments (input : String) :
    '\x00' ∈ input.toList ↔ ∃ segment ∈ segments input, '\x00' ∈ segment.toList := by
  rw [Text.mem_iff_splitOn (by decide : '\x00' ≠ '/')]
  simp [segments]

theorem named_isName_iff (input : String) :
    (∀ name ∈ named input, IsName name) ↔ ".." ∉ segments input ∧ '\x00' ∉ input.toList := by
  rw [nul_iff_segments]
  constructor
  · intro valid
    refine ⟨fun dots => ?_, fun ⟨segment, among, nul⟩ => ?_⟩
    · have kept : ".." ∈ named input := List.mem_filter.mpr ⟨dots, by decide⟩
      exact ((isName_iff _).mp (valid _ kept)).2.2.1 rfl
    · have usable : segment ≠ "" ∧ segment ≠ "." := by
        constructor <;> rintro rfl <;> exact absurd nul (by decide)
      have kept : segment ∈ named input := List.mem_filter.mpr ⟨among, by simpa using usable⟩
      exact (valid _ kept).nul nul
  · rintro ⟨dots, nul⟩ name member
    obtain ⟨among, kept⟩ := List.mem_filter.mp member
    simp only [ne_eq, Bool.and_eq_true, decide_eq_true_eq] at kept
    refine (isName_iff name).mpr ⟨kept.1, kept.2, ?_, (cut_segments input).plain name among, ?_⟩
    · rintro rfl
      exact dots among
    · intro inside
      exact nul ⟨name, among, inside⟩

theorem chars_eq_intercalate {names : List String} (some : names ≠ []) :
    chars names = '/' :: ['/'].intercalate (names.map String.toList) := by
  induction names with
  | nil => exact absurd rfl some
  | cons name more ih =>
    cases more with
    | nil => simp [chars]
    | cons next more =>
      have later := ih (by simp)
      rw [List.map_cons] at later ⊢
      rw [List.map_cons, List.intercalate_cons_cons, List.append_assoc,
        List.singleton_append, ← later]
      rfl

theorem ofNames_eq_intercalate (names : List String) :
    ofNames names = "/" ++ "/".intercalate names := by
  by_cases empty : names = []
  · rw [empty]
    decide +kernel
  · apply String.toList_inj.mp
    rw [ofNames_of_ne_nil empty, String.toList_ofList,
      chars_eq_intercalate empty, String.toList_append,
      String.toList_intercalate]
    rfl

theorem IsNormal.join_above {path : String} (normal : IsNormal path) (inner : path ≠ root) :
    ∃ folder, parent? path = some folder ∧ IsNormal folder ∧ IsName (fileName path) ∧
      join folder (fileName path) = path := by
  obtain top | ⟨folder, name, above, named, rfl⟩ := normal.root_or_join
  · exact absurd top inner
  · rw [parent?_join above named, fileName_join above named]
    exact ⟨folder, rfl, above, named, rfl⟩

/-- Normalizing succeeds unless a segment is `..` or a NUL stands in the text, and then yields its
other segments; what it yields are the lists of names, taken apart into names and joined from them,
one by one, without loss. -/
theorem normalized_as_names {input : String} {pieces : List String} (cut : Cut input pieces) :
    ((∃ path, normalize input = .ok path) ↔ ".." ∉ pieces ∧ '\x00' ∉ input.toList) ∧
      (∀ path, normalize input = .ok path →
        path = "/" ++ "/".intercalate (pieces.filter fun piece => piece ≠ "" ∧ piece ≠ ".") ∧
          normalize path = .ok path) ∧
      (∀ path, Normalized path →
        (∀ name ∈ components path, checkName name = .ok ()) ∧
          (components path).foldl join root = path) ∧
      (∀ names, (∀ name ∈ names, checkName name = .ok ()) →
        Normalized (names.foldl join root) ∧ components (names.foldl join root) = names) ∧
      (∀ path name, Normalized path → checkName name = .ok () →
        Normalized (join path name) ∧ parent? (join path name) = some path ∧
          fileName (join path name) = name ∧ components (join path name) =
            components path ++ [name]) ∧
      (∀ path, Normalized path → path ≠ root →
        ∃ folder, parent? path = some folder ∧ Normalized folder ∧
          checkName (fileName path) = .ok () ∧
          join folder (fileName path) = path) ∧
      ∀ path path' name name', Normalized path → Normalized path' → checkName name = .ok () →
        checkName name' = .ok () → join path name = join path' name' →
          path = path' ∧ name = name' := by
  have shown : (pieces.filter fun piece => piece ≠ "" ∧ piece ≠ ".") = named input := by
    rw [cut.eq_segments, named]
    congr 1
    funext segment
    exact Bool.decide_and _ _
  simp only [normalized_iff]
  refine ⟨?_, ?_, ?_, ?_, ?_, ?_, ?_⟩
  · rw [cut.eq_segments, ← named_isName_iff]
    constructor
    · rintro ⟨path, ok⟩
      exact (normalize_ok_iff.mp ok).1
    · intro valid
      exact ⟨_, normalize_ok_iff.mpr ⟨valid, rfl⟩⟩
  · intro path ok
    rw [shown, ← ofNames_eq_intercalate]
    exact ⟨(normalize_ok_iff.mp ok).2, normalize_isNormal ok⟩
  · intro path normal
    exact ⟨normal.components.1, normal.foldl_join⟩
  · intro names valid
    have made : names.foldl join root = ofNames names := by
      rw [← ofNames_nil, foldl_join_ofNames valid, List.nil_append]
    rw [made]
    exact ⟨isNormal_ofNames valid, components_ofNames valid⟩
  · intro path name normal valid
    exact ⟨isNormal_join normal valid, parent?_join normal valid, fileName_join normal valid,
      components_join normal valid⟩
  · intro path normal inner
    exact normal.join_above inner
  · intro path path' name name' normal normal' valid valid' same
    exact join_injective normal normal' valid valid' same

theorem dotted_as_names : normalize "//a/./b" = .ok "/a/b" ∧
    ((components "/a/b").foldl join root = "/a/b" ∧ parent? (join "/a/b" "c") = some "/a/b") := by
  have cut : Cut "//a/./b" ["", "", "a", ".", "b"] := ⟨by decide, by decide, by decide +kernel⟩
  obtain ⟨succeeds, yields, apart, _, extended, _⟩ := normalized_as_names cut
  obtain ⟨path, ok⟩ := succeeds.mpr ⟨by decide, by decide +kernel⟩
  have spelled : path = "/a/b" := (yields path ok).1.trans (by decide +kernel)
  subst spelled
  exact ⟨ok, (apart _ ⟨_, ok⟩).2, (extended "/a/b" "c" ⟨_, ok⟩ (by decide +kernel)).2.1⟩

end Path

end SeedTree
