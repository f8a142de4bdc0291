import Mathlib.Data.List.Nodup
import SeedTree.Config.Layers

/- Layers put over one another, key by key: what a change at a path does to the values under the
   keys at the top and one level below, and what is left of a document's section once the layer of a
   document is put over another. -/
namespace SeedTree

namespace Value

variable {key other top : String} {v w into : Value}
  {entries more : List (String × Value)} {change : Value → Value}

def Keyed (entries : List (String × Value)) : Prop := (entries.map Prod.fst).Nodup

theorem mem_of_find? (found : find? key entries = some v) : (key, v) ∈ entries := by
  induction entries with
  | nil => cases found
  | cons entry more ih =>
    rw [find?] at found
    split at found
    · rename_i later there
      cases found
      exact List.mem_cons_of_mem _ (ih there)
    · split at found
      · rename_i same
        cases found
        rw [← same]
        exact List.mem_cons_self
      · cases found

theorem find?_eq_none_iff : find? key entries = none ↔ ∀ entry ∈ entries, entry.1 ≠ key := by
  induction entries with
  | nil => exact ⟨fun _ _ member => absurd member List.not_mem_nil, fun _ => rfl⟩
  | cons entry more ih =>
    rw [List.forall_mem_cons, ← ih, find?]
    cases find? key more <;> simp

theorem find?_cons_of_ne (apart : other ≠ key) :
    find? key ((other, v) :: entries) = find? key entries := by
  rw [find?, if_neg apart]
  cases find? key entries <;> rfl

theorem find?_cons_self (fresh : ∀ entry ∈ entries, entry.1 ≠ key) :
    find? key ((key, v) :: entries) = some v := by
  rw [find?, find?_eq_none_iff.mpr fresh, if_pos rfl]

theorem Keyed.find?_of_mem (keyed : Keyed entries) (member : (key, v) ∈ entries) :
    find? key entries = some v := by
  induction entries with
  | nil => exact absurd member List.not_mem_nil
  | cons entry more ih =>
    obtain ⟨fresh, rest⟩ := List.nodup_cons.mp keyed
    rw [find?]
    rcases List.mem_cons.mp member with here | later
    · have gone : find? key more = none := find?_eq_none_iff.mpr fun other among same =>
        fresh (List.mem_map.mpr ⟨other, among, by rw [same, ← here]⟩)
      rw [gone, ← here]
      exact if_pos rfl
    · rw [ih rest later]

theorem find?_put_ne (apart : other ≠ key) :
    find? other (put key v entries) = find? other entries := by
  induction entries with
  | nil => exact find?_cons_of_ne (Ne.symm apart)
  | cons entry more ih =>
    rw [put]
    split
    · rename_i same
      rw [find?_cons_of_ne (by rw [same]; exact Ne.symm apart),
        find?_cons_of_ne (by rw [same]; exact Ne.symm apart)]
    · rw [find?, find?, ih]

theorem mem_put {entry : String × Value} (member : entry ∈ put key v entries) :
    entry = (key, v) ∨ entry ∈ entries := by
  induction entries with
  | nil => exact Or.inl (List.mem_singleton.mp member)
  | cons first more ih =>
    rw [put] at member
    split at member
    · rename_i same
      rcases List.mem_cons.mp member with here | later
      · exact Or.inl (by rw [here, same])
      · exact Or.inr (List.mem_cons_of_mem _ later)
    · rcases List.mem_cons.mp member with here | later
      · exact Or.inr (by rw [here]; exact List.mem_cons_self)
      · exact (ih later).imp id (List.mem_cons_of_mem _)

theorem Keyed.put (keyed : Keyed entries) (key : String) (v : Value) :
    Keyed (Value.put key v entries) := by
  induction entries with
  | nil => exact List.nodup_singleton key
  | cons entry more ih =>
    obtain ⟨fresh, rest⟩ := List.nodup_cons.mp keyed
    rw [Value.put]
    split
    · exact keyed
    · rename_i apart
      refine List.nodup_cons.mpr ⟨fun member => ?_, ih rest⟩
      obtain ⟨other, among, same⟩ := List.mem_map.mp member
      rcases mem_put among with rfl | old
      · exact apart same.symm
      · exact fresh (List.mem_map.mpr ⟨other, old, same⟩)

theorem find?_put_self (keyed : Keyed entries) : find? key (put key v entries) = some v := by
  induction entries with
  | nil => exact find?_cons_self (fun _ member => absurd member List.not_mem_nil)
  | cons entry more ih =>
    obtain ⟨fresh, rest⟩ := List.nodup_cons.mp keyed
    rw [put]
    split
    · rename_i same
      rw [same]
      exact find?_cons_self fun other among equal =>
        fresh (List.mem_map.mpr ⟨other, among, equal.trans same.symm⟩)
    · rename_i apart
      rw [find?_cons_of_ne apart]
      exact ih rest

theorem find?_alter_self (keyed : Keyed v.entries) :
    find? (Text.lowercase key) (v.alter key change).entries
    = some (change ((find? (Text.lowercase key) v.entries).getD null)) := find?_put_self keyed

theorem find?_alter_ne (apart : other ≠ Text.lowercase key) :
    find? other (v.alter key change).entries = find? other v.entries := find?_put_ne apart

theorem Keyed.alter (keyed : Keyed v.entries) (key : String) (change : Value → Value) :
    Keyed (v.alter key change).entries := keyed.put _ _

theorem keyed_nil : Keyed [] := List.nodup_nil

end Value

namespace KeyPath

/-- The key at the top of a layer that a path starts from. -/
def top : KeyPath → String
  | .name key => key
  | .child parent _ => parent.top
  | .item parent _ => parent.top

def under : KeyPath → (Value → Value) → Value → Value
  | .name _, change => change
  | .child parent key, change => parent.under (Value.alter key change)
  | .item parent position, change => parent.under (Value.alterItem position change)

/-- What holds of a change, of changing the value under a key by what it holds of, and of changing
an item likewise holds of the change at a path. -/
theorem under_induction {motive : (Value → Value) → Prop}
    (named : ∀ key change, motive change → motive (Value.alter key change))
    (placed : ∀ position change, motive change → motive (Value.alterItem position change))
    (path : KeyPath) {change : Value → Value} (holds : motive change) :
    motive (path.under change) := by
  induction path generalizing change with
  | name key => exact holds
  | child parent key ih => exact ih (named key change holds)
  | item parent position ih => exact ih (placed position change holds)

/-- A path leads neither into a key of a part nor to the part as a whole. -/
def Spares (part key : String) : KeyPath → Prop
  | .name top => Text.lowercase top ≠ part
  | .child (.name top) other => Text.lowercase top = part → Text.lowercase other ≠ key
  | .item (.name top) _ => Text.lowercase top ≠ part
  | .child parent _ => parent.Spares part key
  | .item parent _ => parent.Spares part key

end KeyPath

namespace Value

variable {key other top : String} {v w into : Value}
  {entries more : List (String × Value)} {change : Value → Value} {path : KeyPath}

def part (v : Value) (key : String) : Value := (find? key v.entries).getD null

def at? (v : Value) (top key : String) : Option Value := find? key (v.part top).entries

theorem alterAt_eq_alter (path : KeyPath) (change : Value → Value) (v : Value) :
    v.alterAt path change = v.alter path.top (path.under change) := by
  induction path generalizing change with
  | name key => rfl
  | child parent key ih => exact ih _
  | item parent position ih => exact ih _

/-- What is neither a table nor a list nor null. -/
def IsPlain : Value → Prop
  | table _ | list _ | null => False
  | _ => True

theorem merge_plain (plain : v.IsPlain) : merge key into v = into.alter key fun _ => v := by
  cases v <;> first | rfl | exact plain.elim

theorem merge_eq_put (key : String) (into v : Value) :
    ∃ w, merge key into v = table (put (Text.lowercase key) w into.entries) := by
  cases v <;> exact ⟨_, by rw [merge]⟩

theorem mergeAt_eq_put (into : Value) (path : KeyPath) (v : Value) :
    ∃ w, into.mergeAt path v = table (put (Text.lowercase path.top) w into.entries) := by
  cases path with
  | name key => exact merge_eq_put key into v
  | child parent key =>
    rw [mergeAt, alterAt_eq_alter]
    exact ⟨_, rfl⟩
  | item parent position =>
    rw [mergeAt, alterAt_eq_alter]
    exact ⟨_, rfl⟩

theorem mergeAt_plain (plain : v.IsPlain) :
    into.mergeAt path v = into.alter path.top (path.under fun _ => v) := by
  have merges : ∀ key, (fun there => merge key there v) = alter key fun _ => v :=
    fun key => funext fun there => merge_plain plain
  cases path with
  | name key => exact merge_plain plain
  | child parent key =>
    rw [mergeAt, alterAt_eq_alter, merges]
    rfl
  | item parent position =>
    rw [mergeAt, alterAt_eq_alter]
    rfl

theorem find?_mergeAt_ne (apart : other ≠ Text.lowercase path.top) :
    find? other (into.mergeAt path v).entries = find? other into.entries := by
  obtain ⟨w, same⟩ := mergeAt_eq_put into path v
  rw [same]
  exact find?_put_ne apart

theorem Keyed.mergeAt (keyed : Keyed into.entries) (path : KeyPath) (v : Value) :
    Keyed (into.mergeAt path v).entries := by
  obtain ⟨w, same⟩ := mergeAt_eq_put into path v
  rw [same]
  exact keyed.put _ _

theorem part_mergeAt_ne (apart : other ≠ Text.lowercase path.top) :
    (into.mergeAt path v).part other = into.part other := by rw [part, part, find?_mergeAt_ne apart]

theorem part_mergeAt (keyed : Keyed into.entries) (plain : v.IsPlain)
    (here : Text.lowercase path.top = key) :
    (into.mergeAt path v).part key = path.under (fun _ => v) (into.part key) := by
  rw [mergeAt_plain plain, ← here, part, find?_alter_self keyed, Option.getD_some, part]

section Merging

theorem holds_mergeAll {holds : List (String × Value) → Prop}
    (puts : ∀ key v entries, holds entries → holds (put (Text.lowercase key) v entries))
    (start : holds into.entries)
    (entries : List (String × Value)) : holds (mergeAll into entries).entries := by
  induction entries generalizing into with
  | nil => exact start
  | cons entry more ih =>
    obtain ⟨w, same⟩ := merge_eq_put entry.1 into entry.2
    rw [mergeAll, same]
    exact ih (puts entry.1 w into.entries start)

theorem Keyed.mergeAll (keyed : Keyed into.entries) (entries : List (String × Value)) :
    Keyed (Value.mergeAll into entries).entries :=
  holds_mergeAll (fun _ v _ before => before.put _ v) keyed entries

theorem find?_mergeAll_ne (apart : ∀ entry ∈ entries, Text.lowercase entry.1 ≠ key) :
    find? key (mergeAll into entries).entries = find? key into.entries := by
  induction entries generalizing into with
  | nil => rfl
  | cons entry more ih =>
    obtain ⟨first, rest⟩ := List.forall_mem_cons.mp apart
    rw [mergeAll, ih rest]
    obtain ⟨w, same⟩ := merge_eq_put entry.1 into entry.2
    rw [same]
    exact find?_put_ne (Ne.symm first)

theorem find?_mergeAll (keyed : Keyed into.entries)
    (member : (other, v) ∈ entries) (plain : v.IsPlain) (lower : Text.lowercase other = key)
    (only : ∀ entry ∈ entries, Text.lowercase entry.1 = key → entry = (other, v)) :
    find? key (mergeAll into entries).entries = some v := by
  induction entries generalizing into with
  | nil => exact absurd member List.not_mem_nil
  | cons entry more ih =>
    obtain ⟨first, rest⟩ := List.forall_mem_cons.mp only
    have keyed' : Keyed (merge entry.1 into entry.2).entries := keyed.mergeAll [entry]
    rw [mergeAll]
    by_cases later : (other, v) ∈ more
    · exact ih keyed' later rest
    · have here : entry = (other, v) := ((List.mem_cons.mp member).resolve_right later).symm
      rw [find?_mergeAll_ne, here, merge_plain plain, ← lower]
      · exact find?_alter_self keyed
      · intro next among same
        rw [rest next among same] at among
        exact later among

end Merging

section Overlaying

theorem Keyed.overlay (keyed : Keyed v.entries) (layer : List (String × Value)) :
    Keyed (v.overlay layer).entries := by
  induction layer generalizing v with
  | nil => exact keyed
  | cons entry more ih => exact ih (keyed.mergeAt _ _)

theorem overlay_append (v : Value) (first second : List (String × Value)) :
    v.overlay (first ++ second) = (v.overlay first).overlay second := List.foldl_append

theorem overlay_cons (v : Value) (entry : String × Value) (more : List (String × Value)) :
    v.overlay (entry :: more) = (v.mergeAt (KeyPath.ofText entry.1) entry.2).overlay more := rfl

theorem find?_overlay_ne
    (apart : ∀ entry ∈ entries, Text.lowercase (KeyPath.ofText entry.1).top ≠ key) :
    find? key (v.overlay entries).entries = find? key v.entries := by
  induction entries generalizing v with
  | nil => rfl
  | cons entry more ih =>
    obtain ⟨first, rest⟩ := List.forall_mem_cons.mp apart
    rw [overlay_cons, ih rest]
    exact find?_mergeAt_ne (Ne.symm first)

structure IsSection (key : String) : Prop where
  path : KeyPath.ofText key = .name key
  lower : Text.lowercase key = key

/-- The section of a layer is merged into the section below it, if no other entry is about it. -/
theorem find?_overlay_section (own : IsSection key) (keyed : Keyed v.entries) (once : Keyed entries)
    (found : find? key entries = some (table more))
    (alone : ∀ entry ∈ entries, Text.lowercase (KeyPath.ofText entry.1).top = key → entry.1 = key) :
    find? key (v.overlay entries).entries
      = some (mergeAll ((find? key v.entries).getD (table [])) more) := by
  induction entries generalizing v with
  | nil => cases found
  | cons entry rest ih =>
    obtain ⟨name, x⟩ := entry
    obtain ⟨fresh, once'⟩ := List.nodup_cons.mp once
    obtain ⟨first, others⟩ := List.forall_mem_cons.mp alone
    rw [overlay_cons]
    by_cases here : name = key
    · subst here
      have gone : ∀ entry ∈ rest, entry.1 ≠ name := by
        intro entry member same
        exact fresh (List.mem_map.mpr ⟨entry, member, same⟩)
      rw [find?_cons_self gone] at found
      cases found
      rw [find?_overlay_ne fun entry member same => gone entry member
        (others entry member same), own.path]
      have merged : v.mergeAt (.name name) (table more)
          = table (put (Text.lowercase name)
            (mergeAll ((find? (Text.lowercase name) v.entries).getD (table [])) more)
            v.entries) := by rw [mergeAt, merge]
      rw [merged, own.lower]
      exact find?_put_self keyed
    · rw [find?_cons_of_ne here] at found
      rw [ih (keyed.mergeAt _ _) once' found others,
        find?_mergeAt_ne fun same => here (first same.symm)]

end Overlaying

section Keeping

variable {holds : List (String × Value) → Prop} (empty : holds [])
  (puts : ∀ key v entries, holds entries → holds (put (Text.lowercase key) v entries))
include empty puts

theorem holds_under (path : KeyPath) {change : Value → Value}
    (step : ∀ v : Value, holds v.entries → holds (change v).entries) (start : holds v.entries) :
    holds (path.under change v).entries := by
  refine path.under_induction
    (motive := fun change => ∀ v : Value, holds v.entries → holds (change v).entries)
    (fun key change _ v before => puts key _ v.entries before)
      (fun position change _ v before => ?_) step v start
  rw [alterItem]
  cases place? v.items.length position with
  | none => exact before
  | some i => exact empty

theorem holds_mergeAt (keyed : Keyed into.entries)
    (start : holds (into.part key).entries) (path : KeyPath)
    (v : Value) : holds ((into.mergeAt path v).part key).entries := by
  by_cases here : key = Text.lowercase path.top
  · subst here
    cases path with
    | name top =>
      have found : ∀ w, find? (Text.lowercase top)
          (put (Text.lowercase top) w into.entries) = some w :=
        fun w => find?_put_self keyed
      cases v with
      | table incoming =>
        have target :
            holds ((find? (Text.lowercase top) into.entries).getD (table [])).entries := by
          rw [part, KeyPath.top] at start
          cases there : find? (Text.lowercase top) into.entries with
          | none => exact empty
          | some x =>
            rw [there] at start
            exact start
        rw [mergeAt, merge, part, KeyPath.top, entries, found]
        exact holds_mergeAll puts target incoming
      | _ =>
        rw [mergeAt, merge, part, KeyPath.top, entries, found]
        exact empty
    | child parent key =>
      rw [mergeAt, alterAt_eq_alter, part, KeyPath.top, find?_alter_self keyed]
      refine holds_under empty puts parent (fun there before => ?_) start
      obtain ⟨w, same⟩ := merge_eq_put key there v
      rw [same]
      exact puts key w there.entries before
    | item parent position =>
      rw [mergeAt, alterAt_eq_alter, part, KeyPath.top, find?_alter_self keyed]
      refine holds_under empty puts parent (fun there before => ?_) start
      rw [alterItem]
      cases place? there.items.length position with
      | none => exact before
      | some i => exact empty
  · rw [part_mergeAt_ne here]
    exact start

theorem holds_overlay (keyed : Keyed v.entries) (start : holds (v.part key).entries)
    (layer : List (String × Value)) : holds ((v.overlay layer).part key).entries := by
  induction layer generalizing v with
  | nil => exact start
  | cons entry more ih =>
    rw [overlay_cons]
    exact ih (keyed.mergeAt _ _) (holds_mergeAt empty puts keyed start _ _)

end Keeping

section Sparing

theorem find?_under_of_spares (path : KeyPath) (spares : path.Spares top key)
    (here : Text.lowercase path.top = top)
    (change : Value → Value) (v : Value) :
    find? key (path.under change v).entries = find? key v.entries := by
  induction path generalizing change with
  | name name => exact absurd here spares
  | child parent other ih =>
    cases parent with
    | name name => exact find?_alter_ne (Ne.symm (spares here))
    | child | item => exact ih spares here _
  | item parent position ih =>
    cases parent with
    | name name => exact absurd here spares
    | child | item => exact ih spares here _

theorem at?_mergeAt_of_spares (keyed : Keyed into.entries) (plain : v.IsPlain)
    (spares : path.Spares top key) : (into.mergeAt path v).at? top key = into.at? top key := by
  by_cases here : Text.lowercase path.top = top
  · rw [at?, part_mergeAt keyed plain here, find?_under_of_spares path spares here, at?]
  · rw [at?, part_mergeAt_ne (Ne.symm here), at?]

theorem at?_overlay_of_spares (keyed : Keyed v.entries) (plain : ∀ entry ∈ entries, entry.2.IsPlain)
    (spares : ∀ entry ∈ entries, (KeyPath.ofText entry.1).Spares top key) :
    (v.overlay entries).at? top key = v.at? top key := by
  induction entries generalizing v with
  | nil => rfl
  | cons entry rest ih =>
    obtain ⟨first, others⟩ := List.forall_mem_cons.mp spares
    obtain ⟨value, values⟩ := List.forall_mem_cons.mp plain
    rw [overlay_cons, ih (keyed.mergeAt _ _) values others, at?_mergeAt_of_spares keyed value first]

theorem at?_mergeAt_child (keyed : Keyed into.entries)
    (tidy : Keyed (into.part top).entries) (plain : v.IsPlain)
    (here : Text.lowercase other = top) (lower : Text.lowercase key = key) :
    (into.mergeAt (.child (.name other) key) v).at? top key = some v := by
  have changed : (into.mergeAt (.child (.name other) key) v).part top =
      (into.part top).alter key fun _ => v :=
    part_mergeAt keyed plain here
  have found : find? (Text.lowercase key) ((into.part top).alter key fun _ => v).entries = some v :=
    find?_alter_self tidy
  rw [at?, changed, ← found, lower]

end Sparing

section Settling

theorem find?_settleEntries (key : String) (entries : List (String × Value)) :
    find? key (settleEntries entries) = (find? key entries).map settle := by
  induction entries with
  | nil => rfl
  | cons entry more ih =>
    obtain ⟨name, v⟩ := entry
    rw [settleEntries]
    split
    · rename_i repeated
      by_cases here : name = key
      · subst here
        obtain ⟨again, member, same⟩ := List.any_eq_true.mp repeated
        cases later : find? name more with
        | none =>
          rw [later] at ih
          exact absurd (of_decide_eq_true same) (find?_eq_none_iff.mp ih again member)
        | some w => rw [ih, find?, later]
      · rw [ih, find?_cons_of_ne here]
    · rw [find?, find?, ih]
      cases find? key more with
      | some w => rfl
      | none =>
        simp only [Option.map_none]
        split <;> rfl

theorem mem_settleEntries {entry : String × Value} (member : entry ∈ settleEntries entries) :
    ∃ earlier ∈ entries, entry = (earlier.1, settle earlier.2) := by
  induction entries with
  | nil => exact absurd member List.not_mem_nil
  | cons first more ih =>
    rw [settleEntries] at member
    split at member
    · obtain ⟨earlier, among, same⟩ := ih member
      exact ⟨earlier, List.mem_cons_of_mem _ among, same⟩
    · rcases List.mem_cons.mp member with here | later
      · exact ⟨first, List.mem_cons_self, here⟩
      · obtain ⟨earlier, among, same⟩ := ih later
        exact ⟨earlier, List.mem_cons_of_mem _ among, same⟩

theorem keyed_settleEntries (entries : List (String × Value)) : Keyed (settleEntries entries) := by
  induction entries with
  | nil => exact keyed_nil
  | cons entry more ih =>
    rw [settleEntries]
    split
    · exact ih
    · rename_i fresh
      refine List.nodup_cons.mpr ⟨fun member => ?_, ih⟩
      obtain ⟨other, among, same⟩ := List.mem_map.mp member
      exact fresh (List.any_eq_true.mpr ⟨other, among, decide_eq_true same⟩)

theorem IsPlain.settle (plain : v.IsPlain) : v.settle = v := by
  cases v with
  | list | table => exact plain.elim
  | _ => rfl

theorem find?_mergeAll_settled (keyed : Keyed into.entries)
    (own : find? other entries = some v) (plain : v.IsPlain)
    (alone : ∀ name w, find? name entries = some w →
      Text.lowercase name = Text.lowercase other → name = other) :
    find? (Text.lowercase other) (mergeAll into (settleEntries entries)).entries = some v := by
  have settled : find? other (settleEntries entries) = some v := by
    rw [find?_settleEntries, own, Option.map_some, plain.settle]
  refine find?_mergeAll keyed (mem_of_find? settled) plain rfl fun entry member same => ?_
  have here := (keyed_settleEntries entries).find?_of_mem member
  have there := here
  rw [find?_settleEntries] at there
  obtain ⟨w, found, -⟩ := Option.map_eq_some_iff.mp there
  have named := alone entry.1 w found same
  rw [named, settled] at here
  cases here
  rw [← named]

theorem find?_mergeAll_settled_ne
    (free : ∀ name w, find? name entries = some w → Text.lowercase name ≠ key) :
    find? key (mergeAll into (settleEntries entries)).entries = find? key into.entries := by
  refine find?_mergeAll_ne fun entry member same => ?_
  have here := (keyed_settleEntries entries).find?_of_mem member
  rw [find?_settleEntries] at here
  obtain ⟨w, found, -⟩ := Option.map_eq_some_iff.mp here
  exact free entry.1 w found same

end Settling

end Value

end SeedTree
