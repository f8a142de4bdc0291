import SeedTree.Config.Reading
import SeedTree.Proofs.Config.Layers
import SeedTree.Proofs.Maps
import SeedTree.Proofs.Text.Lowercase

/- Names put back: what is left of the worlds of all layers once every name that a document writes
   has taken the place of its lower case, one name after the other in dictionary order. -/
namespace SeedTree

namespace Value

variable {α : Type} {read : Value → Option α} {entries : List (String × Value)}
  {pairs : List (String × α)}

theorem readable_of_mapEntries?
    (mapped : mapEntries? read entries = some pairs) {entry : String × Value}
    (member : entry ∈ entries) : ∃ a, read entry.2 = some a := by
  induction entries generalizing pairs with
  | nil => exact absurd member List.not_mem_nil
  | cons first more ih =>
    simp only [mapEntries?, Option.bind_eq_bind, Option.bind_eq_some_iff] at mapped
    obtain ⟨a, here, rest, later, -⟩ := mapped
    rcases List.mem_cons.mp member with same | among
    · exact ⟨a, by rw [same]; exact here⟩
    · exact ih later among

theorem getElem?_ofList_mapEntries?
    (mapped : mapEntries? read entries = some pairs) (name : String) :
    (NameMap.ofList pairs)[name]? = (find? name entries).bind read := by
  suffices general : ∀ m : NameMap α,
    (pairs.foldl (fun m entry => m.insert entry.1 entry.2) m)[name]?
      = ((find? name entries).bind read).or m[name]? by
    have alone := general ∅
    rwa [Std.ExtTreeMap.getElem?_empty, Option.or_none] at alone
  induction entries generalizing pairs with
  | nil =>
    intro m
    cases mapped
    rfl
  | cons first more ih =>
    intro m
    have whole := mapped
    simp only [mapEntries?, Option.bind_eq_bind, Option.bind_eq_some_iff] at mapped
    obtain ⟨a, here, rest, later, same⟩ := mapped
    cases same
    rw [List.foldl_cons, ih later, getElem?_insert_ite, find?]
    cases found : find? name more with
    | some v =>
      obtain ⟨b, reads⟩ := readable_of_mapEntries? later (mem_of_find? found)
      simp only [Option.bind_some, reads, Option.some_or]
    | none =>
      simp only [Option.bind_none, Option.none_or]
      split
      · rw [Option.bind_some, here, Option.some_or]
      · rw [Option.bind_none, Option.none_or]

end Value

namespace Config

variable {written merged : NameMap Binary64} {name other : String} {p : Binary64}
  {entry : String × Binary64} {entries before after : List (String × Binary64)}

def restoreName (worlds : NameMap Binary64) (entry : String × Binary64) : NameMap Binary64 :=
  (worlds.erase (Text.lowercase entry.1)).insert entry.1
    ((worlds[Text.lowercase entry.1]?).getD entry.2)

theorem restoreNames_eq (written merged : NameMap Binary64) :
    restoreNames written merged = written.toList.foldl restoreName merged := rfl

theorem getElem?_restoreName_self (worlds : NameMap Binary64) (entry : String × Binary64) :
    (restoreName worlds entry)[entry.1]? = some ((worlds[Text.lowercase entry.1]?).getD entry.2) :=
  Std.ExtTreeMap.getElem?_insert_self

theorem getElem?_restoreName_of_ne (worlds : NameMap Binary64) (apart : entry.1 ≠ name) :
    (restoreName worlds entry)[name]? = if Text.lowercase entry.1 =
      name then none else worlds[name]? := by
  rw [restoreName, getElem?_insert_ite, if_neg apart, getElem?_erase_ite]

theorem getElem?_foldl_restoreName (fresh : ∀ entry ∈ entries, entry.1 ≠ name)
    (worlds : NameMap Binary64) : (entries.foldl restoreName worlds)[name]?
      = if ∃ entry ∈ entries, Text.lowercase entry.1 = name then none else worlds[name]? := by
  induction entries generalizing worlds with
  | nil => simp
  | cons entry more ih =>
    obtain ⟨first, rest⟩ := List.forall_mem_cons.mp fresh
    rw [List.foldl_cons, ih rest, getElem?_restoreName_of_ne _ first]
    simp only [List.exists_mem_cons_iff]
    split
    · rename_i later
      rw [if_pos (Or.inr later)]
    · rename_i later
      simp only [later, or_false]

theorem exists_order (own : written[name]? = some p) :
    ∃ before after, written.toList = before ++ (name, p) :: after ∧
    (∀ entry ∈ before, Text.order entry.1 name = .lt) ∧
      ∀ entry ∈ after, Text.order name entry.1 = .lt := by
  obtain ⟨before, after, same⟩ :=
    List.append_of_mem (Std.ExtTreeMap.mem_toList_iff_getElem?_eq_some.mpr own)
  have ordered := written.ordered_keys_toList
  rw [same, List.pairwise_append] at ordered
  obtain ⟨-, later, between⟩ := ordered
  exact ⟨before, after, same, fun entry member => between entry member _ List.mem_cons_self,
    (List.pairwise_cons.mp later).1⟩

theorem ne_of_order (order : Text.order name other = .lt) : name ≠ other := by
  rintro rfl
  have same : Text.order name name = .eq := Std.ReflCmp.compare_self
  rw [order] at same
  cases same

/-- A written name keeps its place unless it is the lower case of a name that comes after it. -/
theorem getElem?_restoreNames (same : written.toList = before ++ (name, p) :: after)
    (later : ∀ entry ∈ after, Text.order name entry.1 = .lt) :
    (restoreNames written merged)[name]? =
      if ∃ entry ∈ after, Text.lowercase entry.1 = name then none
      else some (((before.foldl restoreName merged)[Text.lowercase name]?).getD p) := by
  rw [restoreNames_eq, same, List.foldl_append, List.foldl_cons,
    getElem?_foldl_restoreName fun entry member => (ne_of_order (later entry member)).symm,
    getElem?_restoreName_self]

theorem restoreNames_alone (own : written[name]? = some p)
    (alone : ∀ other ∈ written, Text.lowercase other = Text.lowercase name → other = name) :
    (restoreNames written merged)[name]? = some ((merged[Text.lowercase name]?).getD p) := by
  obtain ⟨before, after, same, earlier, later⟩ := exists_order own
  have among : ∀ entry ∈ before ++ (name, p) :: after, entry.1 ∈ written := fun entry member =>
    (NameMap.mem_iff_mem_toList _ _).mpr ⟨entry.2, by rw [same]; exact member⟩
  -- Neither the names put back before this one nor those after it touch its lower case or the name
  -- itself.
  have first : ∀ entry ∈ before, Text.lowercase entry.1 ≠ Text.lowercase name :=
    fun entry member equal =>
      ne_of_order (earlier entry member)
        (alone _ (among entry (List.mem_append_left _ member)) equal)
  have last : ∀ entry ∈ after, Text.lowercase entry.1 ≠ name := fun entry member equal =>
    ne_of_order (later entry member)
      (alone _ (among entry (List.mem_append_right _ (List.mem_cons_of_mem _ member)))
      (by rw [← equal, Text.lowercase_lowercase])).symm
  have untouched : (before.foldl restoreName merged)[Text.lowercase name]? =
      merged[Text.lowercase name]? := by
    rw [getElem?_foldl_restoreName fun entry member equal =>
        first entry member (by rw [equal, Text.lowercase_lowercase]),
      if_neg fun ⟨entry, member, equal⟩ => first entry member equal]
  rw [getElem?_restoreNames same later,
    if_neg fun ⟨entry, member, equal⟩ => last entry member equal, untouched]

/-- A written name is lost exactly if it is the lower case of a written name after it. -/
theorem restoreNames_lost (own : written[name]? = some p) :
    name ∉ restoreNames written merged ↔
      ∃ other ∈ written, Text.order name other = .lt ∧ Text.lowercase other = name := by
  obtain ⟨before, after, same, earlier, later⟩ := exists_order own
  have lost : name ∉ restoreNames written merged ↔
      ∃ entry ∈ after, Text.lowercase entry.1 = name := by
    rw [mem_iff_getElem?_some, getElem?_restoreNames same later]
    split
    · rename_i shared
      exact ⟨fun _ => shared, fun _ ⟨a, stands⟩ => nomatch stands⟩
    · rename_i alone
      exact ⟨fun absent => absurd ⟨_, rfl⟩ absent, fun shared => absurd shared alone⟩
  rw [lost]
  constructor
  · rintro ⟨entry, member, equal⟩
    have among : entry ∈ written.toList := by
      rw [same]
      exact List.mem_append_right _ (List.mem_cons_of_mem _ member)
    exact ⟨entry.1, (NameMap.mem_iff_mem_toList _ _).mpr ⟨entry.2, among⟩,
      later entry member, equal⟩
  · rintro ⟨other, member, order, equal⟩
    obtain ⟨q, among⟩ := (NameMap.mem_iff_mem_toList _ _).mp member
    rw [same, List.mem_append, List.mem_cons] at among
    rcases among with first | here | last
    · exact absurd rfl (ne_of_order (Std.TransCmp.lt_trans order (earlier _ first)))
    · cases here
      exact absurd rfl (ne_of_order order)
    · exact ⟨(other, q), last, equal⟩

theorem restoreNames_gone (fresh : name ∉ written) (member : other ∈ written)
    (lower : Text.lowercase other = name) : name ∉ restoreNames written merged := by
  have apart : ∀ entry ∈ written.toList, entry.1 ≠ name := fun entry member same =>
    fresh ((NameMap.mem_iff_mem_toList _ _).mpr ⟨entry.2, by rw [← same]; exact member⟩)
  obtain ⟨q, among⟩ := (NameMap.mem_iff_mem_toList _ _).mp member
  rw [mem_iff_getElem?_some, restoreNames_eq, getElem?_foldl_restoreName apart,
    if_pos ⟨_, among, lower⟩]
  exact fun ⟨a, stands⟩ => nomatch stands

theorem restoreNames_kept (fresh : name ∉ written)
    (free : ∀ other ∈ written, Text.lowercase other ≠ name) :
    (restoreNames written merged)[name]? = merged[name]? := by
  have apart : ∀ entry ∈ written.toList, entry.1 ≠ name := fun entry member same =>
    fresh ((NameMap.mem_iff_mem_toList _ _).mpr ⟨entry.2, by rw [← same]; exact member⟩)
  rw [restoreNames_eq, getElem?_foldl_restoreName apart, if_neg]
  rintro ⟨entry, among, lower⟩
  exact free entry.1 ((NameMap.mem_iff_mem_toList _ _).mpr ⟨entry.2, among⟩) lower

end Config

end SeedTree
