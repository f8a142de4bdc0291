import SeedTree.Proofs.Config.Overriding
import SeedTree.Proofs.Config.Restoring

/- The worlds of a loaded document: each name as it is written, with the probability it is written
   with or the one that overrides it, unless two names are one in lower case. -/
namespace SeedTree

namespace Config

open Value

variable {form : DocumentForm} {content name : String}
  {document written upper : List (String × Value)}
  {overrides : String → Option Binary64} {merged : NameMap Binary64} {p : Binary64} {c : Config}

def Writes (written : List (String × Value)) (name : String) : Prop :=
  ∃ v, find? name written = some v

def probability? (written : List (String × Value)) (name : String) : Option Binary64 :=
  (find? name written).bind numberOnly?

/-- The probability that settings put over a document give a world, by its name in lower case: what
they make of an empty section. -/
def overriding? (upper : List (String × Value)) (name : String) : Option Binary64 :=
  (((table []).overlay upper).at? worldsKey name).bind toFloat?

theorem overriding?_nil (name : String) : overriding? [] name = none := rfl

/-- No two names of a section are the same in lower case. -/
def Apart (written : List (String × Value)) : Prop :=
  ∀ name other, Writes written name → Writes written other →
  Text.lowercase name = Text.lowercase other → name = other

/-- The worlds of a configuration beside those of a document's section, where some probabilities are
overridden. -/
structure AsWritten (written : List (String × Value)) (overrides : String → Option Binary64)
    (c : Config) : Prop where
  /-- A name whose lower case no other one shares has its own probability, or the one given for its
  lower case. -/
  own : ∀ name p, probability? written name = some p →
    (∀ other, Writes written other → Text.lowercase other = Text.lowercase name → other = name) →
      c.worlds[name]? = some ((overrides (Text.lowercase name)).getD p)
  /-- A name is lost exactly if it is the lower case of a written name that comes after it. -/
  lost : ∀ name, Writes written name → (name ∉ c.worlds ↔
    ∃ other, Writes written other ∧ Text.order name other = .lt ∧ Text.lowercase other = name)
  /-- The lower case of a written name is no name of its own, unless it is written too. -/
  folded : ∀ name other, ¬ Writes written name → Writes written other →
    Text.lowercase other = name → name ∉ c.worlds
  /-- Any other name is there only if settings give it, and those are in lower case. -/
  added : ∀ name, ¬ Writes written name →
    (∀ other, Writes written other → Text.lowercase other ≠ name) →
    c.worlds[name]? = overrides name
  lower : ∀ name p, overrides name = some p → Text.lowercase name = name
  /-- With nothing over it and no two names the same in lower case, the section is loaded as it
  is. -/
  whole : (∀ name, overrides name = none) → Apart written →
    ∀ name, c.worlds[name]? = probability? written name

theorem isSection_worldsKey : IsSection worldsKey := ⟨by decide +kernel, by decide +kernel⟩

theorem getElem?_worlds {v : Value} {key : String}
    (read : readOr ∅ (toMap? toFloat?) (find? key v.entries) = some merged) (name : String) :
    merged[name]? = (find? name (v.part key).entries).bind toFloat? := by
  rw [part]
  cases found : find? key v.entries with
  | none =>
    rw [found] at read
    cases read
    exact Std.ExtTreeMap.getElem?_empty
  | some x =>
    rw [found] at read
    cases x with
    | table entries =>
      obtain ⟨pairs, mapped, same⟩ := Option.map_eq_some_iff.mp read
      rw [← same]
      exact getElem?_ofList_mapEntries? mapped name
    | _ => cases read

theorem worlds_defaultLayer : find? worldsKey defaultLayer.entries = none :=
    find?_cons_of_ne (by decide)

theorem merged_worlds (holds : find? worldsKey document = some (.table written))
    (single : Single worldsKey document)
    (whole : ∀ entry ∈ written, IsNumber entry.2) (plain : ∀ entry ∈ upper, entry.2.IsPlain)
    (read : readOr ∅ (toMap? toFloat?)
      (find? worldsKey (layered document upper).entries) = some merged)
    (name : String) : merged[name]? = overriding? upper name ∨
      overriding? upper name = none ∧
        merged[name]? = (find? name (gathered written).entries).bind toFloat? := by
  have blank : Keyed (table []).entries := keyed_nil
  have placed : (defaultLayer.overlay (settleEntries document)).part worldsKey =
      gathered written := by
    rw [part_document isSection_worldsKey holds single, worlds_defaultLayer]
    rfl
  have start : Overlaid (gathered written).entries
    ((defaultLayer.overlay (settleEntries document)).part worldsKey)
      ((table []).part worldsKey) := by
    rw [placed]
    exact .atop (keyed_gathered written) keyed_nil (items_gathered written) rfl fun key =>
      Or.inr ⟨rfl, rfl⟩
  have overlaid :=
    start.overlay (isNumber_gathered whole) (keyed_defaultLayer.overlay _) blank plain
  rw [getElem?_worlds read name]
  rcases overlaid.found name with agree | ⟨nothing, kept⟩
  · exact Or.inl (by rw [overriding?, at?, ← agree, layered])
  · refine Or.inr ⟨?_, by rw [← kept, layered]⟩
    rw [overriding?, at?]
    cases found : find? name (((table []).overlay upper).part worldsKey).entries with
    | none => rfl
    | some v =>
      rw [found] at nothing
      cases nothing
      rfl

theorem lowercase_of_overriding? (given : overriding? upper name = some p) :
    Text.lowercase name = name := by
  obtain ⟨v, found, -⟩ := Option.bind_eq_some_iff.mp given
  exact lowercase_of_at?_overlay found

section Restoring

variable {pairs : List (String × Binary64)} (numbers : mapEntries? numberOnly? written = some pairs)
include numbers

theorem isNumber_of_mapEntries? : ∀ entry ∈ written, IsNumber entry.2 := fun entry member => by
  obtain ⟨p, number⟩ := readable_of_mapEntries? numbers member
  exact isNumber_of_numberOnly? number

theorem getElem?_written (name : String) :
    (NameMap.ofList pairs)[name]? = probability? written name :=
  getElem?_ofList_mapEntries? numbers name

theorem writes_iff_probability? :
    Writes written name ↔ ∃ p, probability? written name = some p := by
  constructor
  · rintro ⟨v, found⟩
    obtain ⟨p, number⟩ := readable_of_mapEntries? numbers (mem_of_find? found)
    exact ⟨p, by rw [probability?, found]; exact number⟩
  · rintro ⟨p, told⟩
    obtain ⟨v, found, -⟩ := Option.bind_eq_some_iff.mp told
    exact ⟨v, found⟩

theorem mem_written_iff : name ∈ NameMap.ofList pairs ↔ Writes written name := by
  rw [mem_iff_getElem?_some, getElem?_written numbers, writes_iff_probability? numbers]

theorem asWritten_restoreNames
    (merges : ∀ name, merged[name]? = overrides name ∨
      overrides name = none ∧ merged[name]? = (find? name (gathered written).entries).bind toFloat?)
    (lower : ∀ name p, overrides name = some p → Text.lowercase name = name)
    (restored : c.worlds = restoreNames (NameMap.ofList pairs) merged) :
    AsWritten written overrides c := by
  have unwritten : ∀ name, ¬ Writes written name → name ∉ NameMap.ofList pairs :=
    fun name fresh member =>
      fresh ((mem_written_iff numbers).mp member)
  have own : ∀ name p, probability? written name = some p →
      (∀ other, Writes written other → Text.lowercase other = Text.lowercase name → other = name) →
        c.worlds[name]? = some ((overrides (Text.lowercase name)).getD p) := by
    intro name p told alone
    rw [restored, restoreNames_alone ((getElem?_written numbers name).trans told)
      fun other member => alone other ((mem_written_iff numbers).mp member)]
    rcases merges (Text.lowercase name) with given | ⟨free, gathers⟩
    · rw [given]
    · obtain ⟨v, found, number⟩ := Option.bind_eq_some_iff.mp told
      have numeric := isNumber_of_numberOnly? number
      rw [gathers, find?_gathered found numeric fun other w there => alone other ⟨w, there⟩,
        Option.bind_some,
        numeric.toFloat?, number, free]
      rfl
  have folded : ∀ name other, ¬ Writes written name → Writes written other →
    Text.lowercase other = name →
      name ∉ c.worlds := by
    intro name other fresh writes low
    rw [restored]
    exact restoreNames_gone (unwritten name fresh) ((mem_written_iff numbers).mpr writes) low
  have added : ∀ name, ¬ Writes written name →
    (∀ other, Writes written other → Text.lowercase other ≠ name) →
      c.worlds[name]? = overrides name := by
    intro name fresh free
    rw [restored, restoreNames_kept (unwritten name fresh)
      fun other member => free other ((mem_written_iff numbers).mp member)]
    rcases merges name with given | ⟨none, gathers⟩
    · exact given
    · rw [gathers, find?_gathered_ne fun other v found => free other ⟨v, found⟩, none]
      rfl
  refine ⟨own, fun name writes => ?_, folded, added, lower, fun nothing apart name => ?_⟩
  · obtain ⟨p, told⟩ := (writes_iff_probability? numbers).mp writes
    rw [restored, restoreNames_lost ((getElem?_written numbers name).trans told)]
    simp only [mem_written_iff numbers]
  · cases told : probability? written name with
    | some p =>
      have writes := (writes_iff_probability? numbers).mpr ⟨p, told⟩
      rw [own name p told fun other writes' same => apart other name writes' writes same, nothing]
      rfl
    | none =>
      have fresh : ¬ Writes written name := fun writes => by
        obtain ⟨p, there⟩ := (writes_iff_probability? numbers).mp writes
        rw [told] at there
        cases there
      by_cases low : ∃ other, Writes written other ∧ Text.lowercase other = name
      · obtain ⟨other, writes, same⟩ := low
        exact Std.ExtTreeMap.getElem?_eq_none (folded name other fresh writes same)
      · rw [added name fresh fun other writes same => low ⟨other, writes, same⟩, nothing]

end Restoring

/-- Whatever a document with names of worlds is loaded with, its worlds are as they are written;
with nothing over it, and no two names the same in lower case, they are exactly the written ones. -/
theorem worlds_as_written (read : form.read? content = some (.table document))
    (holds : find? worldsKey document = some (.table written))
    (single : Single worldsKey document)
    (loaded : FromDocument form content upper true c) : AsWritten written (overriding? upper) c ∧
      (upper = [] → Apart written → ∀ name, c.worlds[name]? = probability? written name) := by
  obtain ⟨entries, told, made⟩ := loaded.layers
  rw [read] at told
  cases told
  obtain ⟨merged, pairs, worlds, numbers, restored⟩ := ofLayers?_worlds made holds
  have merges :=
    merged_worlds holds single (isNumber_of_mapEntries? numbers) loaded.upper_plain worlds
  have kept :=
    asWritten_restoreNames numbers merges
      (fun name p given => lowercase_of_overriding? given) restored
  exact ⟨kept, fun alone => kept.whole (by rw [alone]; exact overriding?_nil)⟩

section MixedCase

def mixedCase : String := "\x7b\"secondary_tables\": \x7b\"Dim\": 0.5, \"Haze\": 0.25\x7d\x7d"

def mixedDisk : Disk :=
  { entries := (∅ : NameMap DiskEntry).insert "work/mixed.json" (.file (utf8 mixedCase)) }

def dimSettings : Environment :=
  { given := (∅ : NameMap String).insert "SPECTRA_SECONDARY_TABLES__DIM" "1" }

theorem read_mixedCase : ∃ document written, DocumentForm.json.read? mixedCase =
    some (.table document) ∧
    find? worldsKey document = some (.table written) ∧ (∀ entry ∈ document, entry.1 = worldsKey) ∧
    decide (probability? written "Dim" = some ⟨0x3FE0000000000000⟩ ∧
      probability? written "Haze" = some ⟨0x3FD0000000000000⟩) = true :=
  exists_section (by decide +kernel)

theorem mixedCase_as_written :
    ∃ written c, FromDocument .json mixedCase dimSettings.settings true c ∧
    (probability? written "Dim" = some ⟨0x3FE0000000000000⟩ ∧
      probability? written "Haze" = some ⟨0x3FD0000000000000⟩) ∧
    AsWritten written (overriding? dimSettings.settings) c ∧
      c.worlds["Dim"]? = some ⟨0x3FF0000000000000⟩ ∧
    c.worlds["Haze"]? = some ⟨0x3FD0000000000000⟩ := by
  obtain ⟨document, written, read, holds, only, probabilities⟩ := read_mixedCase
  have loads : (ofFile mixedDisk dimSettings "mixed.json").toOption.any (fun c =>
      c.worlds["Dim"]? = some ⟨0x3FF0000000000000⟩ ∧
        c.worlds["Haze"]? = some ⟨0x3FD0000000000000⟩) = true := by
    decide +kernel
  obtain ⟨c, loaded, worlds⟩ := exists_loaded loads
  have text : fileText? mixedDisk "mixed.json" = some (.json, mixedCase) := by decide +kernel
  have comes : FromDocument .json mixedCase dimSettings.settings true c := .file text loaded
  rw [decide_eq_true_eq] at worlds
  exact ⟨written, c, comes, of_decide_eq_true probabilities,
    (worlds_as_written read holds (fun entry member _ => only entry member) comes).1, worlds⟩

end MixedCase

end Config

end SeedTree
