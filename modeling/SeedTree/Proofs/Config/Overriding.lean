import SeedTree.Proofs.Config.Loading
import SeedTree.Proofs.Text.Lowercase

/- Settings put over a table of numbers. What they make of the table is what they make of nothing,
   with the numbers left wherever nothing came out. -/
namespace SeedTree

namespace Value

variable {numbers entries upper : List (String × Value)} {key : String}
  {v w d : Value} {change : Value → Value}

inductive IsNumber : Value → Prop where
  | int (n : Int) : IsNumber (int n)
  | float (x : Binary64) : IsNumber (float x)

theorem IsNumber.plain (number : d.IsNumber) : d.IsPlain := by cases number <;> trivial

theorem IsNumber.entries_nil (number : d.IsNumber) : d.entries = [] := by cases number <;> rfl

theorem IsNumber.items_nil (number : d.IsNumber) : d.items = [] := by cases number <;> rfl

theorem IsNumber.toFloat? (number : d.IsNumber) : d.toFloat? = Config.numberOnly? d := by
    cases number <;> rfl

theorem isNumber_of_numberOnly? {p : Binary64} (read : Config.numberOnly? v = some p) :
    v.IsNumber := by
  unfold Config.numberOnly? at read
  split at read
  · exact .int _
  · exact .float _
  · cases read

/-- One table over the numbers of a section and one over nothing, after the same settings: they are
the same, or agree wherever the second holds something. -/
inductive Overlaid (numbers : List (String × Value)) : Value → Value → Prop where
  | same (v : Value) : Overlaid numbers v v
  | atop {v w : Value} (keyed : Keyed v.entries) (keyed' : Keyed w.entries) (items : v.items = [])
      (items' : w.items = [])
      (each : ∀ key, find? key v.entries = find? key w.entries ∨
        (find? key w.entries).getD null = null ∧ find? key v.entries = find? key numbers) :
          Overlaid numbers v w

theorem Overlaid.found (overlaid : Overlaid numbers v w) (key : String) :
    find? key v.entries = find? key w.entries ∨
    (find? key w.entries).getD null = null ∧ find? key v.entries = find? key numbers := by
  cases overlaid with
  | same => exact Or.inl rfl
  | atop keyed keyed' items items' each => exact each key

/-- A change that makes of a number what it makes of nothing, or that leaves both as they are. -/
def IsBlind (change : Value → Value) : Prop :=
  ∀ d, IsNumber d → change d = change null ∨ change d = d ∧ change null = null

theorem isBlind_alter (key : String) (change : Value → Value) : IsBlind (alter key change) := by
  intro d number
  rw [alter, alter, number.entries_nil]
  exact Or.inl rfl

theorem isBlind_alterItem (position : Int) (change : Value → Value) :
    IsBlind (alterItem position change) := by
  intro d number
  have empty : (null : Value).items = [] := rfl
  rw [alterItem, alterItem, number.items_nil, empty]
  cases place? ([] : List Value).length position with
  | none => exact Or.inr ⟨rfl, rfl⟩
  | some i => exact Or.inl rfl

section Overlaying

variable (whole : ∀ entry ∈ numbers, IsNumber entry.2)
include whole

theorem Overlaid.alter (overlaid : Overlaid numbers v w) (blind : IsBlind change) (key : String) :
    Overlaid numbers (v.alter key change) (w.alter key change) := by
  cases overlaid with
  | same => exact .same _
  | atop keyed keyed' items items' each =>
    refine .atop (keyed.alter key change) (keyed'.alter key change) rfl rfl fun other => ?_
    by_cases here : other = Text.lowercase key
    · rw [here, find?_alter_self keyed, find?_alter_self keyed', Option.getD_some]
      rcases each (Text.lowercase key) with agree | ⟨blank, kept⟩
      · exact Or.inl (by rw [agree])
      · rw [blank, kept]
        cases found : find? (Text.lowercase key) numbers with
        | none => exact Or.inl rfl
        | some d =>
          rcases blind d (whole _ (mem_of_find? found)) with equal | ⟨left, nothing⟩
          · exact Or.inl (congrArg some equal)
          · exact Or.inr ⟨nothing, congrArg some left⟩
    · rw [find?_alter_ne here, find?_alter_ne here]
      exact each other

omit whole in
theorem Overlaid.alterItem (overlaid : Overlaid numbers v w) (position : Int)
    (change : Value → Value) :
    Overlaid numbers (v.alterItem position change) (w.alterItem position change) := by
  cases overlaid with
  | same => exact .same _
  | atop keyed keyed' items items' each =>
    rw [Value.alterItem, Value.alterItem, items, items']
    cases place? ([] : List Value).length position with
    | none => exact .atop keyed keyed' items items' each
    | some i => exact .same _

theorem Overlaid.under (overlaid : Overlaid numbers v w) (path : KeyPath) (value : Value) :
    Overlaid numbers (path.under (fun _ => value) v) (path.under (fun _ => value) w) := by
  have both := path.under_induction
    (motive := fun change => IsBlind change ∧ ∀ v w, Overlaid numbers v w →
      Overlaid numbers (change v) (change w))
    (fun key change holds =>
      ⟨isBlind_alter key change, fun v w overlaid => overlaid.alter whole holds.1 key⟩)
    (fun position change holds =>
      ⟨isBlind_alterItem position change, fun v w overlaid => overlaid.alterItem position change⟩)
    (show _ ∧ _ from ⟨fun d number => Or.inl rfl, fun v w _ => .same value⟩)
  exact both.2 v w overlaid

theorem Overlaid.overlay (keyed : Keyed v.entries) (keyed' : Keyed w.entries)
    (plain : ∀ entry ∈ upper, entry.2.IsPlain)
    (overlaid : Overlaid numbers (v.part key) (w.part key)) :
    Overlaid numbers ((v.overlay upper).part key) ((w.overlay upper).part key) := by
  induction upper generalizing v w with
  | nil => exact overlaid
  | cons entry more ih =>
    obtain ⟨first, rest⟩ := List.forall_mem_cons.mp plain
    rw [overlay_cons, overlay_cons]
    refine ih (keyed.mergeAt _ _) (keyed'.mergeAt _ _) rest ?_
    by_cases here : Text.lowercase (KeyPath.ofText entry.1).top = key
    · rw [part_mergeAt keyed first here, part_mergeAt keyed' first here]
      exact overlaid.under whole _ _
    · rw [part_mergeAt_ne (Ne.symm here), part_mergeAt_ne (Ne.symm here)]
      exact overlaid

end Overlaying

section Gathering

def gathered (written : List (String × Value)) : Value :=
  mergeAll (table []) (settleEntries written)

variable {written : List (String × Value)} {name : String}

theorem keyed_gathered (written : List (String × Value)) : Keyed (gathered written).entries := by
  have nothing : Keyed (table []).entries := keyed_nil
  exact nothing.mergeAll _

theorem mergeAll_table (under entries : List (String × Value)) :
    ∃ made, mergeAll (table under) entries = table made := by
  induction entries generalizing under with
  | nil => exact ⟨under, rfl⟩
  | cons entry more ih =>
    obtain ⟨v, same⟩ := merge_eq_put entry.1 (table under) entry.2
    rw [mergeAll, same]
    exact ih _

theorem items_gathered (written : List (String × Value)) : (gathered written).items = [] := by
  obtain ⟨made, same⟩ := mergeAll_table [] (settleEntries written)
  rw [gathered, same]
  rfl

theorem isNumber_settleEntries (whole : ∀ entry ∈ written, IsNumber entry.2) :
    ∀ entry ∈ settleEntries written, IsNumber entry.2 := by
  intro entry member
  obtain ⟨earlier, among, rfl⟩ := mem_settleEntries member
  rw [(whole earlier among).plain.settle]
  exact whole earlier among

theorem isNumber_gathered (whole : ∀ entry ∈ written, IsNumber entry.2) :
    ∀ entry ∈ (gathered written).entries, IsNumber entry.2 := by
  have kept : ∀ entries into, (∀ entry ∈ entries, IsNumber entry.2) →
      (∀ entry ∈ into.entries, IsNumber entry.2) →
        ∀ entry ∈ (mergeAll into entries).entries, IsNumber entry.2 := by
    intro entries
    induction entries with
    | nil => exact fun into _ before => before
    | cons first more ih =>
      intro into numbers before
      obtain ⟨number, rest⟩ := List.forall_mem_cons.mp numbers
      rw [mergeAll, merge_plain number.plain]
      refine ih _ rest fun entry member => ?_
      rcases mem_put member with rfl | old
      · exact number
      · exact before entry old
  exact kept _ _ (isNumber_settleEntries whole) fun entry member => absurd member List.not_mem_nil

theorem find?_gathered (own : find? name written = some d) (number : d.IsNumber)
    (alone : ∀ other v, find? other written = some v →
      Text.lowercase other = Text.lowercase name → other = name) :
    find? (Text.lowercase name) (gathered written).entries = some d :=
  find?_mergeAll_settled keyed_nil own number.plain alone

theorem find?_gathered_ne
    (free : ∀ name v, find? name written = some v → Text.lowercase name ≠ key) :
    find? key (gathered written).entries = none := find?_mergeAll_settled_ne free

end Gathering

section Lowering

def Lowered (entries : List (String × Value)) : Prop :=
  ∀ entry ∈ entries, Text.lowercase entry.1 = entry.1

theorem lowered_nil : Lowered [] := fun _ member => absurd member List.not_mem_nil

theorem Lowered.put (lowered : Lowered entries) (key : String) (v : Value) :
    Lowered (Value.put (Text.lowercase key) v entries) := by
  intro entry member
  rcases mem_put member with rfl | old
  · exact Text.lowercase_lowercase key
  · exact lowered entry old

theorem lowercase_of_at?_overlay {top : String}
    (given : ((table []).overlay upper).at? top key = some v) : Text.lowercase key = key := by
  have blank : Keyed (table []).entries := keyed_nil
  have nothing : Lowered ((table []).part top).entries := lowered_nil
  have lowered :=
    holds_overlay lowered_nil (fun key v entries before => before.put key v) blank nothing upper
  exact lowered (key, v) (mem_of_find? given)

end Lowering

end Value

end SeedTree
