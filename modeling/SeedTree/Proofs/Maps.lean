import SeedTree.Bytes
import SeedTree.Text

/- Ordered maps as functions from their keys: what an insertion and a removal change, and a map made
   from the entries of another. -/
namespace SeedTree

section Keyed

variable {κ α : Type} {cmp : κ → κ → Ordering} [Std.TransCmp cmp] [Std.LawfulEqCmp cmp]
  [DecidableEq κ]

theorem getElem?_insert_ite (m : Std.ExtTreeMap κ α cmp) (key other : κ) (a : α) :
    (m.insert key a)[other]? = if key = other then some a else m[other]? := by
  simp [Std.ExtTreeMap.getElem?_insert]

theorem getElem?_erase_ite (m : Std.ExtTreeMap κ α cmp) (key other : κ) :
    (m.erase key)[other]? = if key = other then none else m[other]? := by
  simp [Std.ExtTreeMap.getElem?_erase]

omit [Std.LawfulEqCmp cmp] [DecidableEq κ] in
theorem mem_iff_getElem?_some (m : Std.ExtTreeMap κ α cmp) (key : κ) :
    key ∈ m ↔ ∃ a, m[key]? = some a := by
  rw [← Option.isSome_iff_exists, ← Std.ExtTreeMap.mem_iff_isSome_getElem?]

omit [DecidableEq κ] in
theorem size_le_of_keys_subset (m : Std.ExtTreeMap κ α cmp) (keys : List κ)
    (within : ∀ key, key ∈ m → key ∈ keys) : m.size ≤ keys.length := by
  have distinct : (m.toList.map Prod.fst).Nodup := by
    refine List.pairwise_map.mpr (m.distinct_keys_toList.imp ?_)
    intro a b apart same
    exact apart (by rw [same]; exact Std.ReflCmp.compare_self)
  have included : m.toList.map Prod.fst ⊆ keys := by
    intro key member
    obtain ⟨⟨k, a⟩, entry, rfl⟩ := List.mem_map.mp member
    have found := Std.ExtTreeMap.mem_toList_iff_getElem?_eq_some.mp entry
    exact within k ((mem_iff_getElem?_some m k).mpr ⟨a, found⟩)
  have bound := distinct.length_le_of_subset included
  simpa using bound

end Keyed

namespace NameMap

variable {α β : Type}

theorem getElem?_foldl_insert (entries : List (String × α)) (m : NameMap α) (name : String)
    (distinct : entries.Pairwise fun a b => a.1 ≠ b.1) :
    (entries.foldl (fun m entry => m.insert entry.1 entry.2) m)[name]?
      = ((entries.find? (·.1 = name)).map Prod.snd).or m[name]? := by
  induction entries generalizing m with
  | nil => simp
  | cons entry entries ih =>
    obtain ⟨apart, rest⟩ := List.pairwise_cons.mp distinct
    rw [List.foldl_cons, ih _ rest, getElem?_insert_ite]
    by_cases same : entry.1 = name
    · have absent : entries.find? (·.1 = name) = none := by
        rw [List.find?_eq_none]
        intro other member
        have ne := apart other member
        rw [same] at ne
        simp [ne.symm]
      simp [same, absent]
    · simp [same]

theorem distinct_names (m : NameMap α) : m.toList.Pairwise fun a b => a.1 ≠ b.1 := by
  refine m.distinct_keys_toList.imp ?_
  intro a b apart same
  exact apart (by rw [same]; exact Std.ReflCmp.compare_self)

theorem find?_toList (m : NameMap α) (name : String) :
    (m.toList.find? (·.1 = name)).map Prod.snd = m[name]? := by
  cases found : m[name]? with
  | none =>
    rw [Option.map_eq_none_iff, List.find?_eq_none]
    intro entry member same
    have value := Std.ExtTreeMap.mem_toList_iff_getElem?_eq_some.mp member
    rw [of_decide_eq_true same, found] at value
    cases value
  | some a =>
    have member := Std.ExtTreeMap.mem_toList_iff_getElem?_eq_some.mpr found
    cases first : m.toList.find? (·.1 = name) with
    | none =>
      have none := List.find?_eq_none.mp first _ member
      simp at none
    | some entry =>
      have same : entry.1 = name := by simpa using List.find?_some first
      have value :=
        Std.ExtTreeMap.mem_toList_iff_getElem?_eq_some.mp (List.mem_of_find?_eq_some first)
      rw [same, found] at value
      simpa using value.symm

theorem mem_iff_mem_toList (m : NameMap α) (name : String) :
    name ∈ m ↔ ∃ a, (name, a) ∈ m.toList := by
  simp only [mem_iff_getElem?_some, Std.ExtTreeMap.mem_toList_iff_getElem?_eq_some]

theorem ofList_toList (m : NameMap α) : ofList m.toList = m := by
  refine Std.ExtTreeMap.ext_getElem? fun name => ?_
  rw [ofList, getElem?_foldl_insert _ _ _ (distinct_names m), find?_toList]
  simp

theorem getElem?_map (f : String → α → β) (m : NameMap α) (name : String) :
    (m.map f)[name]? = (m[name]?).map (f name) := by
  have distinct : (m.toList.map fun entry => (entry.1, f entry.1 entry.2)).Pairwise
      fun a b => a.1 ≠ b.1 := List.pairwise_map.mpr (distinct_names m)
  have named : ((fun entry : String × β => decide (entry.1 = name)) ∘
      fun entry : String × α => (entry.1, f entry.1 entry.2))
        = fun entry => decide (entry.1 = name) := rfl
  rw [map, ofList, getElem?_foldl_insert _ _ _ distinct, List.find?_map, named,
    ← find?_toList m name]
  cases first : m.toList.find? (·.1 = name) with
  | none => simp
  | some entry =>
    have same : entry.1 = name := by simpa using List.find?_some first
    simp [same]

end NameMap

end SeedTree
