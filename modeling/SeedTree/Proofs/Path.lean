import Mathlib.Data.List.Induction
import SeedTree.Path
import SeedTree.Proofs.Bytes.Utf8

/- Normalized paths are lists of names: a path is made from its names, taken apart into them,
   extended by one and cut by one, and none of this loses anything. -/
namespace SeedTree

namespace Text

theorem splitOn_plain {separator : Char} {cs : List Char} (plain : separator ∉ cs) :
    splitOn separator cs = [cs] := by
  induction cs with
  | nil => rfl
  | cons c cs ih =>
    simp only [List.mem_cons, not_or] at plain
    obtain ⟨first, rest⟩ := plain
    simp [splitOn, Ne.symm first, ih rest]

theorem splitOn_append {separator : Char} {before : List Char} (plain : separator ∉ before)
    (after : List Char) :
    splitOn separator (before ++ separator :: after) = before :: splitOn separator after := by
  induction before with
  | nil => simp [splitOn]
  | cons c cs ih =>
    simp only [List.mem_cons, not_or] at plain
    obtain ⟨first, rest⟩ := plain
    simp [splitOn, Ne.symm first, ih rest]

theorem splitOn_ne_nil (separator : Char) (cs : List Char) : splitOn separator cs ≠ [] := by
  cases cs with
  | nil => simp [splitOn]
  | cons c cs =>
    rw [splitOn]
    split
    · exact List.cons_ne_nil _ _
    · split <;> exact List.cons_ne_nil _ _

theorem splitOn_append_separator (separator : Char) (before after : List Char) :
    splitOn separator (before ++ separator :: after) = splitOn separator before ++
      splitOn separator after := by
  induction before with
  | nil => simp [splitOn]
  | cons c cs ih =>
    rw [List.cons_append, splitOn, splitOn, ih]
    split
    · rfl
    · cases pieces : splitOn separator cs with
      | nil => exact absurd pieces (splitOn_ne_nil separator cs)
      | cons piece more => rfl

theorem splitFirst?_append {separator : Char} {before : List Char} (plain : separator ∉ before)
    (after : List Char) :
    splitFirst? separator (before ++ separator :: after) = some (before, after) := by
  induction before with
  | nil => simp [splitFirst?]
  | cons c cs ih =>
    simp only [List.mem_cons, not_or] at plain
    obtain ⟨first, rest⟩ := plain
    simp [splitFirst?, Ne.symm first, ih rest]

theorem splitLast?_append {separator : Char} {after : List Char} (plain : separator ∉ after)
    (before : List Char) :
    splitLast? separator (before ++ separator :: after) = some (before, after) := by
  have reversed : (before ++ separator :: after).reverse
      = after.reverse ++ separator :: before.reverse := by simp
  rw [splitLast?, reversed, splitFirst?_append (by simpa using plain)]
  simp

end Text

namespace Path

def IsName (name : String) : Prop := checkName name = .ok ()

instance (name : String) : Decidable (IsName name) :=
  decidable_of_iff ((checkName name).toBool = true) (by
    unfold IsName
    cases checkName name with
    | ok u => simp [Except.toBool]
    | error fault => simp [Except.toBool])

theorem isName_iff (name : String) : IsName name ↔
    name ≠ "" ∧ name ≠ "." ∧ name ≠ ".." ∧ '/' ∉ name.toList ∧ '\x00' ∉ name.toList := by
  unfold IsName checkName
  split
  · rename_i unusable
    constructor
    · intro ok
      cases ok
    · rintro ⟨empty, dot, dots, _⟩
      simp [empty, dot, dots] at unusable
  · rename_i usable
    simp only [not_or] at usable
    split
    · rename_i separated
      constructor
      · intro ok
        cases ok
      · rintro ⟨_, _, _, slash, nul⟩
        obtain ⟨c, member, bad⟩ := List.any_eq_true.mp separated
        simp only [Bool.or_eq_true, decide_eq_true_eq] at bad
        rcases bad with rfl | rfl
        · exact absurd member slash
        · exact absurd member nul
    · rename_i plain
      simp only [List.any_eq_true, Bool.or_eq_true, decide_eq_true_eq, not_exists, not_and,
        not_or] at plain
      refine ⟨fun _ => ⟨usable.1, usable.2.1, usable.2.2, ?_, ?_⟩, fun _ => rfl⟩
      · intro slash
        exact (plain _ slash).1 rfl
      · intro nul
        exact (plain _ nul).2 rfl

theorem IsName.ne_empty {name : String} (valid : IsName name) : name ≠ "" :=
  ((isName_iff name).mp valid).1

theorem IsName.slash {name : String} (valid : IsName name) : '/' ∉ name.toList :=
  ((isName_iff name).mp valid).2.2.2.1

theorem IsName.nul {name : String} (valid : IsName name) : '\x00' ∉ name.toList :=
  ((isName_iff name).mp valid).2.2.2.2

def chars (names : List String) : List Char := names.flatMap fun name => '/' :: name.toList

theorem ofNames_nil : ofNames [] = root := rfl

theorem ofNames_of_ne_nil {names : List String} (some : names ≠ []) :
    ofNames names = String.ofList (chars names) := by
  simp [ofNames, chars, some]

theorem splitOn_chars {names : List String} (valid : ∀ name ∈ names, IsName name) :
    Text.splitOn '/' (chars names) = [] :: names.map String.toList := by
  induction names with
  | nil => rfl
  | cons name names ih =>
    have first := (valid name (by simp)).slash
    have rest := ih fun other member => valid other (by simp [member])
    have split : Text.splitOn '/' (chars (name :: names))
        = [] :: Text.splitOn '/' (name.toList ++ chars names) := by
      simp [chars, Text.splitOn]
    rw [split]
    cases names with
    | nil => simp [chars, Text.splitOn_plain first]
    | cons next more =>
      have front : chars (next :: more) = '/' :: (next.toList ++ chars more) := by simp [chars]
      have tail : Text.splitOn '/' (next.toList ++ chars more)
          = (next :: more).map String.toList := by
        have all := rest
        rw [front] at all
        simpa [Text.splitOn] using all
      rw [front, Text.splitOn_append first, tail]
      rfl

theorem components_ofNames {names : List String} (valid : ∀ name ∈ names, IsName name) :
    components (ofNames names) = names := by
  have kept : names.filter (· ≠ "") = names :=
    List.filter_eq_self.mpr fun name member => by simpa using (valid name member).ne_empty
  cases names with
  | nil => decide +kernel
  | cons name more =>
    rw [components, segments, ofNames_of_ne_nil (by simp),
      String.toList_ofList, splitOn_chars valid]
    simpa using kept

theorem ofNames_injective {names others : List String} (valid : ∀ name ∈ names, IsName name)
    (valid' : ∀ name ∈ others, IsName name) (same : ofNames names = ofNames others) :
    names = others := by
  rw [← components_ofNames valid, same, components_ofNames valid']

theorem isRoot_ofNames {names : List String} (valid : ∀ name ∈ names, IsName name) :
    isRoot (ofNames names) = names.isEmpty := by
  cases names with
  | nil => rfl
  | cons name more =>
    have apart : ofNames (name :: more) ≠ root := by
      intro same
      have impossible : name :: more = [] := ofNames_injective valid (by simp) same
      cases impossible
    simp [isRoot, apart]

theorem toList_ofNames_append (names : List String) (name : String) :
    (ofNames (names ++ [name])).toList = chars names ++ '/' :: name.toList := by
  rw [ofNames_of_ne_nil (by simp)]
  simp [chars]

theorem join_ofNames {names : List String} (valid : ∀ name ∈ names, IsName name) (name : String) :
    join (ofNames names) name = ofNames (names ++ [name]) := by
  apply String.toList_inj.mp
  rw [join, isRoot_ofNames valid, toList_ofNames_append]
  cases names with
  | nil => simp [chars]
  | cons first more => simp [ofNames_of_ne_nil]

theorem foldl_join_ofNames {names more : List String}
    (valid : ∀ name ∈ names ++ more, IsName name) :
    more.foldl join (ofNames names) = ofNames (names ++ more) := by
  induction more generalizing names with
  | nil => rw [List.foldl_nil, List.append_nil]
  | cons name more ih =>
    have start : ∀ other ∈ names, IsName other := fun other member =>
      valid other (List.mem_append_left _ member)
    have whole : names ++ name :: more = (names ++ [name]) ++ more := by simp
    rw [whole] at valid ⊢
    rw [List.foldl_cons, join_ofNames start, ih valid]

theorem splitLast?_ofNames {names : List String} {name : String} (valid : IsName name) :
    Text.splitLast? '/' (ofNames (names ++ [name])).toList = some (chars names, name.toList) := by
  rw [toList_ofNames_append, Text.splitLast?_append valid.slash]

theorem parent?_ofNames {names : List String} {name : String}
    (valid : ∀ other ∈ names ++ [name], IsName other) :
    parent? (ofNames (names ++ [name])) = some (ofNames names) := by
  have last : IsName name := valid name (by simp)
  have inner : isRoot (ofNames (names ++ [name])) = false := by simp [isRoot_ofNames valid]
  rw [parent?, inner, splitLast?_ofNames last]
  cases names with
  | nil => rfl
  | cons first more => simp [chars, ofNames_of_ne_nil]

theorem fileName_ofNames {names : List String} {name : String} (valid : IsName name) :
    fileName (ofNames (names ++ [name])) = name := by
  simp [fileName, splitLast?_ofNames valid]

theorem forM_ok_iff {α ε : Type} {check : α → Except ε Unit} {l : List α} :
    l.forM check = .ok () ↔ ∀ a ∈ l, check a = .ok () := by
  induction l with
  | nil => simp [pure, Except.pure]
  | cons a l ih =>
    have step : (a :: l).forM check = (check a).bind fun _ => l.forM check := rfl
    simp only [step, List.mem_cons, forall_eq_or_imp, ← ih]
    cases checked : check a with
    | ok u => simp [Except.bind]
    | error fault => simp [Except.bind]

theorem checkSegment_ok_iff {input segment : String} :
    checkSegment input segment = .ok () ↔ IsName segment := by
  unfold checkSegment
  split
  · rename_i dots
    constructor
    · intro ok
      cases ok
    · intro valid
      exact absurd dots ((isName_iff segment).mp valid).2.2.1
  · rfl

def named (input : String) : List String :=
  (segments input).filter fun segment => segment ≠ "" && segment ≠ "."

theorem normalize_ok_iff {input path : String} : normalize input = .ok path ↔
    (∀ name ∈ named input, IsName name) ∧ path = ofNames (named input) := by
  have shape : normalize input
      = ((named input).forM (checkSegment input)).bind fun _ => .ok (ofNames (named input)) := rfl
  rw [shape]
  cases checked : (named input).forM (checkSegment input) with
  | ok u =>
    have valid := forM_ok_iff.mp checked
    simp only [Except.bind, Except.ok.injEq]
    constructor
    · rintro rfl
      exact ⟨fun name member => checkSegment_ok_iff.mp (valid name member), rfl⟩
    · rintro ⟨_, rfl⟩
      rfl
  | error fault =>
    simp only [Except.bind, reduceCtorEq, false_iff, not_and]
    intro valid
    have ok : (named input).forM (checkSegment input) = .ok () := forM_ok_iff.mpr
      fun name member => checkSegment_ok_iff.mpr (valid name member)
    rw [checked] at ok
    cases ok

def IsNormal (path : String) : Prop := normalize path = .ok path

theorem named_ofNames {names : List String} (valid : ∀ name ∈ names, IsName name) :
    named (ofNames names) = names := by
  have nameless : named (ofNames names)
      = (components (ofNames names)).filter fun name => name ≠ "." := by
    simp [named, components, List.filter_filter, Bool.and_comm]
  rw [nameless, components_ofNames valid]
  exact List.filter_eq_self.mpr fun name member => by
    simpa using ((isName_iff name).mp (valid name member)).2.1

theorem named_join {input name : String} (valid : IsName name) :
    named (join input name) = named input ++ [name] := by
  have own : [name].filter (fun segment => segment ≠ "" && segment ≠ ".") = [name] := by
    simpa using ⟨valid.ne_empty, ((isName_iff name).mp valid).2.1⟩
  have pieces : ∀ before, segments (before ++ "/" ++ name) = segments before ++ [name] := by
    intro before
    unfold segments
    rw [String.toList_append, String.toList_append]
    have slash : "/".toList = ['/'] := rfl
    rw [slash, List.append_assoc, List.singleton_append, Text.splitOn_append_separator,
      Text.splitOn_plain valid.slash,
      List.map_append, List.map_singleton, String.ofList_toList]
  unfold join
  split
  · rename_i top
    have same : input = root := of_decide_eq_true top
    have spelled : "/" ++ name = "" ++ "/" ++ name := by rw [String.empty_append]
    rw [spelled, named, pieces, List.filter_append, own, same]
    rfl
  · rw [named, pieces, List.filter_append, own]
    rfl

theorem normalize_join {input path name : String}
    (normalized : normalize input = .ok path) (valid : IsName name) :
    normalize (join input name) = .ok (join path name) := by
  obtain ⟨names, rfl⟩ := normalize_ok_iff.mp normalized
  rw [normalize_ok_iff, named_join valid, join_ofNames names]
  refine ⟨fun other member => ?_, rfl⟩
  rcases List.mem_append.mp member with early | last
  · exact names other early
  · rw [List.mem_singleton.mp last]
    exact valid

theorem isNormal_ofNames {names : List String} (valid : ∀ name ∈ names, IsName name) :
    IsNormal (ofNames names) := by
  refine normalize_ok_iff.mpr ?_
  rw [named_ofNames valid]
  exact ⟨valid, rfl⟩

theorem isNormal_iff {path : String} :
    IsNormal path ↔ ∃ names, (∀ name ∈ names, IsName name) ∧ path = ofNames names := by
  constructor
  · intro normal
    exact ⟨named path, normalize_ok_iff.mp normal⟩
  · rintro ⟨names, valid, rfl⟩
    exact isNormal_ofNames valid

theorem normalize_isNormal {input path : String} (ok : normalize input = .ok path) :
    IsNormal path :=
  isNormal_iff.mpr ⟨named input, normalize_ok_iff.mp ok⟩

theorem IsNormal.components {path : String} (normal : IsNormal path) :
    (∀ name ∈ components path, IsName name) ∧ path = ofNames (Path.components path) := by
  obtain ⟨names, valid, rfl⟩ := isNormal_iff.mp normal
  rw [components_ofNames valid]
  exact ⟨valid, rfl⟩

theorem IsNormal.foldl_join {path : String} (normal : IsNormal path) :
    (Path.components path).foldl join root = path := by
  obtain ⟨valid, whole⟩ := normal.components
  rw [← ofNames_nil, foldl_join_ofNames valid]
  exact whole.symm

theorem isNormal_root : IsNormal root := isNormal_ofNames (by simp : ∀ name ∈ [], IsName name)

theorem components_root : components root = [] :=
    components_ofNames (by simp : ∀ name ∈ [], IsName name)

theorem parent?_root : parent? root = none := rfl

theorem fileName_root : fileName root = "" := by decide +kernel

section Join

variable {folder name : String} (normal : IsNormal folder) (valid : IsName name)

include normal valid

theorem join_names : ∃ names, folder = ofNames names ∧
    (∀ other ∈ names, IsName other) ∧ (∀ other ∈ names ++ [name], IsName other) ∧
    join folder name = ofNames (names ++ [name]) := by
  obtain ⟨names, all, rfl⟩ := isNormal_iff.mp normal
  refine ⟨names, rfl, all, ?_, join_ofNames all name⟩
  intro other member
  rcases List.mem_append.mp member with early | last
  · exact all other early
  · rw [List.mem_singleton.mp last]
    exact valid

theorem isNormal_join : IsNormal (join folder name) := by
  obtain ⟨names, _, _, whole, joined⟩ := join_names normal valid
  rw [joined]
  exact isNormal_ofNames whole

theorem parent?_join : parent? (join folder name) = some folder := by
  obtain ⟨names, rfl, _, whole, joined⟩ := join_names normal valid
  rw [joined, parent?_ofNames whole]

theorem fileName_join : fileName (join folder name) = name := by
  obtain ⟨names, _, _, _, joined⟩ := join_names normal valid
  rw [joined, fileName_ofNames valid]

theorem components_join : components (join folder name) = components folder ++ [name] := by
  obtain ⟨names, rfl, all, whole, joined⟩ := join_names normal valid
  rw [joined, components_ofNames whole, components_ofNames all]

theorem join_ne : join folder name ≠ folder := by
  intro same
  have longer := congrArg List.length (components_join normal valid)
  rw [same] at longer
  simp at longer

end Join

theorem IsNormal.root_or_join {path : String} (normal : IsNormal path) :
    path = root ∨ ∃ folder name, IsNormal folder ∧ IsName name ∧ path = join folder name := by
  obtain ⟨names, all, rfl⟩ := isNormal_iff.mp normal
  rcases List.eq_nil_or_concat names with rfl | ⟨front, last, rfl⟩
  · exact Or.inl rfl
  · simp only [List.concat_eq_append, List.mem_append, List.mem_singleton] at all
    have front_valid : ∀ other ∈ front, IsName other :=
      fun other member => all other (Or.inl member)
    refine Or.inr ⟨ofNames front, last, isNormal_ofNames front_valid, all last (Or.inr rfl), ?_⟩
    rw [List.concat_eq_append, join_ofNames front_valid]

/-- What holds of the root and of every name in a folder of which it holds, holds of all normalized
paths. -/
@[elab_as_elim]
theorem IsNormal.induct {motive : (path : String) → IsNormal path → Prop}
    (top : motive root isNormal_root)
    (below : ∀ folder name (normal : IsNormal folder) (named : IsName name), motive folder normal →
      motive (join folder name) (isNormal_join normal named))
    {path : String} (normal : IsNormal path) : motive path normal := by
  obtain ⟨names, all, rfl⟩ := isNormal_iff.mp normal
  induction names using List.reverseRecOn with
  | nil => exact top
  | append_singleton names name ih =>
    have front : ∀ other ∈ names, IsName other := fun other member =>
      all other (List.mem_append_left _ member)
    have whole := below _ name (isNormal_ofNames front) (all name (by simp))
      (ih front (isNormal_ofNames front))
    simpa only [join_ofNames front] using whole

theorem join_injective {folder folder' name name' : String} (normal : IsNormal folder)
    (normal' : IsNormal folder') (valid : IsName name) (valid' : IsName name')
    (same : join folder name = join folder' name') : folder = folder' ∧ name = name' := by
  have above := parent?_join normal valid
  have last := fileName_join normal valid
  rw [same, parent?_join normal' valid'] at above
  rw [same, fileName_join normal' valid'] at last
  exact ⟨(Option.some.inj above).symm, last.symm⟩

def Within (top path : String) : Prop := components top <+: components path

instance (top path : String) : Decidable (Within top path) :=
  inferInstanceAs (Decidable (components top <+: components path))

theorem within_refl (top : String) : Within top top := List.prefix_refl _

theorem IsNormal.eq_of_components {path other : String} (normal : IsNormal path)
    (normal' : IsNormal other) (same : Path.components path = Path.components other) :
    path = other := by
  rw [normal.components.2, normal'.components.2, same]

theorem within_join_iff {top folder name : String} (top_normal : IsNormal top)
    (normal : IsNormal folder) (valid : IsName name) :
    Within top (join folder name) ↔ Within top folder ∨ join folder name = top := by
  rw [Within, Within, components_join normal valid, List.prefix_concat_iff, or_comm]
  refine or_congr_right ⟨fun same => ?_, fun same => ?_⟩
  · refine (isNormal_join normal valid).eq_of_components top_normal ?_
    rw [components_join normal valid, same]
  · rw [← same, components_join normal valid]

theorem not_within_root {top : String} (normal : IsNormal top) (inner : top ≠ root) :
    ¬ Within top root := by
  intro within
  rw [Within, components_root, List.prefix_nil] at within
  exact inner (normal.eq_of_components isNormal_root (by rw [within, components_root]))

theorem IsNormal.nul {path : String} (normal : IsNormal path) : '\x00' ∉ path.toList := by
  obtain ⟨names, all, rfl⟩ := isNormal_iff.mp normal
  cases names with
  | nil => decide +kernel
  | cons name more =>
    rw [ofNames_of_ne_nil (by simp), String.toList_ofList]
    intro member
    obtain ⟨other, among, inside⟩ := List.mem_flatMap.mp member
    rcases List.mem_cons.mp inside with slash | inside
    · cases slash
    · exact (all other among).nul inside

theorem length_utf8_join_le (folder name : String) :
    (utf8 (join folder name)).length ≤ (utf8 folder).length + 1 + (utf8 name).length := by
  have slash : (utf8 "/").length = 1 := by decide +kernel
  unfold join
  split
  · rw [utf8_append, List.length_append, slash]
    omega
  · refine Nat.le_of_eq ?_
    rw [utf8_append, utf8_append, List.length_append, List.length_append, slash]

theorem length_utf8_join_ge (folder name : String) :
    (utf8 folder).length ≤ (utf8 (join folder name)).length ∧
      (utf8 name).length ≤ (utf8 (join folder name)).length := by
  have slash : (utf8 "/").length = 1 := by decide +kernel
  unfold join
  split
  · rename_i top
    have same : folder = "/" := of_decide_eq_true top
    rw [same, utf8_append, List.length_append, slash]
    omega
  · rw [utf8_append, utf8_append, List.length_append, List.length_append, slash]
    omega

end Path

end SeedTree
