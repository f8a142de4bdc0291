import SeedTree.Config.Loading
import SeedTree.Proofs.Config.Layers

/- Where a configuration comes from: a document, whose form tells whether the names of worlds are
   put back, and the layer of settings over it; and what its parameters and its worlds are read
   from. -/
namespace SeedTree

namespace Value

variable {entries upper : List (String × Value)} {v : Value}

theorem find?_of_filter {key : String} {entry : String × Value}
    (once : entries.filter (·.1 = key) = [entry]) : find? key entries = some entry.2 := by
  have alone : ∀ other ∈ entries, other.1 = key → other = entry := fun other member same => by
    have kept : other ∈ entries.filter (·.1 = key) :=
      List.mem_filter.mpr ⟨member, decide_eq_true same⟩
    rw [once] at kept
    exact List.mem_singleton.mp kept
  cases found : find? key entries with
  | some v => rw [← alone _ (mem_of_find? found) rfl]
  | none =>
    have member : entry ∈ entries.filter (·.1 = key) := by
      rw [once]
      exact List.mem_singleton_self entry
    obtain ⟨among, same⟩ := List.mem_filter.mp member
    exact absurd (of_decide_eq_true same) (find?_eq_none_iff.mp found entry among)

end Value

namespace Environment

theorem numberOr_plain (s : String) : (settingOf.numberOr s).IsPlain := by
  unfold settingOf.numberOr
  split <;> trivial

theorem settingOf_plain (s : String) : (settingOf s).IsPlain := by
  dsimp only [settingOf]
  by_cases yes : Text.lowercase s = "true"
  · rw [if_pos yes]
    trivial
  · by_cases no : Text.lowercase s = "false"
    · rw [if_neg yes, if_pos no]
      trivial
    · rw [if_neg yes, if_neg no]
      split
      · split
        · trivial
        · exact numberOr_plain s
      · exact numberOr_plain s

theorem settings_plain (env : Environment) : ∀ entry ∈ env.settings, entry.2.IsPlain := by
  intro entry member
  obtain ⟨⟨name, s⟩, -, told⟩ := List.mem_filterMap.mp member
  obtain ⟨key, -, same⟩ := Option.map_eq_some_iff.mp told
  rw [← same]
  exact settingOf_plain s

end Environment

namespace Config

open Value

variable {form : DocumentForm} {content : String}
  {document upper : List (String × Value)} {names : Bool} {v : Value} {c : Config}

theorem exists_loaded {result : Except ConfigFault Config} {good : Config → Bool}
    (passes : result.toOption.any good = true) : ∃ c, result = .ok c ∧ good c = true := by
  cases result with
  | ok c => exact ⟨c, rfl, passes⟩
  | error fault => cases passes

theorem exists_section {key : String} {good : List (String × Value) → Bool}
    (shape : (form.read? content).any (fun v => match find? key v.entries with
      | some (.table fields) => v.entries.all (·.1 = key) && good fields
      | _ => false) = true) : ∃ document fields, form.read? content = some (.table document) ∧
        find? key document = some (.table fields) ∧
          (∀ entry ∈ document, entry.1 = key) ∧ good fields = true := by
  cases read : form.read? content with
  | none =>
    rw [read] at shape
    cases shape
  | some v =>
    rw [read, Option.any_some] at shape
    split at shape
    · rename_i fields holds
      obtain ⟨only, kept⟩ := Bool.and_eq_true_iff.mp shape
      cases v with
      | table document => exact ⟨document, fields, rfl, holds,
          fun entry member => of_decide_eq_true (List.all_eq_true.mp only entry member), kept⟩
      | _ => cases holds
    · cases shape

/-- A configuration loaded from a document, with a layer over it; the names of its worlds are put
back if that is asked for. A folder's name stands for a file beside it, whose names are never put
back. -/
inductive FromDocument (form : DocumentForm) (content : String) :
    List (String × Value) → Bool → Config → Prop where
  | text {c : Config} (loaded : ofText form content = .ok c) :
    FromDocument form content [] form.keepsNames c
  | file {d : Disk} {env : Environment} {path : String} {c : Config}
    (read : fileText? d path = some (form, content))
      (loaded : ofFile d env path = .ok c) :
        FromDocument form content env.settings form.keepsNames c
  | beside {d : Disk} {env : Environment} {path file : String} {entry : DiskEntry}
    {more : List String} {c : Config}
      (there : d.look path = .ok entry) (folder : ∀ bytes, entry ≠ .file bytes)
      (beside : filesBeside d path = file :: more) (read : fileText? d file = some (form, content))
      (loaded : ofFile d env path = .ok c) : FromDocument form content env.settings false c

theorem look_of_fileText? {d : Disk} {path : String}
    (read : fileText? d path = some (form, content)) :
    ∃ bytes, d.look path = .ok (.file bytes) := by
  simp only [fileText?, Option.bind_eq_bind, Option.bind_eq_some_iff] at read
  obtain ⟨_, -, bytes, there, -⟩ := read
  unfold Disk.read at there
  cases look : d.look path with
  | error fault =>
    rw [look] at there
    cases there
  | ok entry =>
    rw [look] at there
    cases entry with
    | file bytes => exact ⟨bytes, rfl⟩
    | folder | store s => cases there

theorem ofDocument_ok (loaded : ofDocument form content upper = .ok c) :
    ∃ document, form.read? content = some (.table document) ∧
      ofLayers? document form.keepsNames upper = some c := by
  unfold ofDocument at loaded
  split at loaded
  · rename_i document read
    split at loaded
    · rename_i made layers
      cases loaded
      exact ⟨document, read, layers⟩
    · cases loaded
  · cases loaded

theorem FromDocument.layers (loaded : FromDocument form content upper names c) :
    ∃ document, form.read? content = some (.table document) ∧
      ofLayers? document names upper = some c := by
  cases loaded with
  | text loaded => exact ofDocument_ok loaded
  | @file d env path c read loaded =>
    obtain ⟨bytes, there⟩ := look_of_fileText? read
    unfold ofFile at loaded
    rw [there] at loaded
    simp only [read] at loaded
    exact ofDocument_ok loaded
  | @beside d env path file entry more c there folder beside read loaded =>
    cases entry with
    | file bytes => exact absurd rfl (folder bytes)
    | folder | store s =>
      simp only [ofFile, there, beside, read] at loaded
      split at loaded
      · cases loaded
      · rename_i found _
        cases found
        split at loaded
        · rename_i document entries
          split at loaded
          · rename_i made layers
            cases loaded
            exact ⟨document, entries, layers⟩
          · cases loaded
        · cases loaded
      · cases loaded

theorem FromDocument.upper_plain (loaded : FromDocument form content upper names c) :
    ∀ entry ∈ upper, entry.2.IsPlain := by
  cases loaded with
  | text => exact fun entry member => absurd member List.not_mem_nil
  | file | beside => exact Environment.settings_plain _

theorem exists_document {d : Disk} {env : Environment} {path : String}
    (loaded : ofFile d env path = .ok c) :
    ∃ form content names, FromDocument form content env.settings names c := by
  have whole := loaded
  unfold ofFile at loaded
  split at loaded
  · cases loaded
  · split at loaded
    · rename_i read
      exact ⟨_, _, _, .file read whole⟩
    · cases loaded
  · rename_i entry folder there
    split at loaded
    · rename_i beside
      split at loaded
      · cases loaded
      · rename_i read _
        exact ⟨_, _, _, .beside there folder beside read whole⟩
      · cases loaded
    · cases loaded

/-- A configuration that an environment had its say in: from the environment alone, or from a file
below it. -/
inductive FromEnvironment (env : Environment) : Config → Prop where
  | alone {c : Config} (loaded : ofEnvironment env = .ok c) : FromEnvironment env c
  | file {d : Disk} {path : String} {c : Config} (loaded : ofFile d env path = .ok c) :
    FromEnvironment env c

theorem FromEnvironment.layers {env : Environment} (loaded : FromEnvironment env c) :
    ∃ document names, ofLayers? document names env.settings = some c := by
  cases loaded with
  | alone loaded =>
    unfold ofEnvironment at loaded
    split at loaded
    · rename_i made layers
      cases loaded
      exact ⟨[], false, layers⟩
    · cases loaded
  | file loaded =>
    obtain ⟨form, content, names, comes⟩ := exists_document loaded
    obtain ⟨document, -, layers⟩ := comes.layers
    exact ⟨document, names, layers⟩

def layered (document upper : List (String × Value)) : Value :=
  (defaultLayer.overlay (settleEntries document)).overlay upper

theorem keyed_defaultLayer : Keyed defaultLayer.entries := List.nodup_singleton _

/-- Nothing in a document but the entry under its key is about a section. -/
def Single (key : String) (document : List (String × Value)) : Prop :=
  ∀ entry ∈ document, Text.lowercase (KeyPath.ofText entry.1).top = key → entry.1 = key

theorem part_document {key : String} {fields : List (String × Value)} (own : IsSection key)
    (holds : find? key document = some (.table fields)) (single : Single key document) :
    (defaultLayer.overlay (settleEntries document)).part key
      = mergeAll ((find? key defaultLayer.entries).getD (table [])) (settleEntries fields) := by
  have settled : find? key (settleEntries document) = some (table (settleEntries fields)) := by
    rw [find?_settleEntries, holds]
    rfl
  have alone : ∀ entry ∈ settleEntries document,
      Text.lowercase (KeyPath.ofText entry.1).top = key → entry.1 = key := by
    intro entry member same
    obtain ⟨earlier, among, rfl⟩ := mem_settleEntries member
    exact single earlier among same
  rw [part, find?_overlay_section own keyed_defaultLayer
    (keyed_settleEntries document) settled alone,
    Option.getD_some]

theorem ofValue?_parameters (made : ofValue? v = some c) :
    part? {} parameters? (find? "seed" v.entries) = some c.parameters := by
  simp only [ofValue?, Option.bind_eq_bind, Option.bind_eq_some_iff] at made
  obtain ⟨parameters, read, storePath, -, worlds, -, logging, -, same⟩ := made
  cases same
  exact read

theorem ofValue?_worlds (made : ofValue? v = some c) :
    readOr ∅ (toMap? toFloat?) (find? worldsKey v.entries) = some c.worlds := by
  simp only [ofValue?, Option.bind_eq_bind, Option.bind_eq_some_iff] at made
  obtain ⟨parameters, -, storePath, -, worlds, read, logging, -, same⟩ := made
  cases same
  exact read

theorem ofLayers?_parameters (made : ofLayers? document names upper = some c) :
    part? {} parameters? (find? "seed" (layered document upper).entries) = some c.parameters := by
  simp only [ofLayers?, Option.bind_eq_bind, Option.bind_eq_some_iff] at made
  obtain ⟨base, read, rest⟩ := made
  have parameters := ofValue?_parameters read
  split at rest
  · simp only [Option.bind_eq_some_iff] at rest
    obtain ⟨written, -, rest⟩ := rest
    split at rest <;> cases rest <;> exact parameters
  · cases rest
    exact parameters

theorem ofLayers?_worlds {worlds : List (String × Value)}
    (made : ofLayers? document true upper = some c)
    (written : find? worldsKey document = some (.table worlds)) :
    ∃ merged entries, readOr ∅ (toMap? toFloat?)
      (find? worldsKey (layered document upper).entries) = some merged ∧
      mapEntries? numberOnly? worlds = some entries ∧
      c.worlds = restoreNames (NameMap.ofList entries) merged := by
  simp only [ofLayers?, Option.bind_eq_bind, Option.bind_eq_some_iff] at made
  obtain ⟨base, read, rest⟩ := made
  simp only [if_true, Option.bind_eq_some_iff] at rest
  obtain ⟨names, told, rest⟩ := rest
  have merged := ofValue?_worlds read
  unfold writtenWorlds? at told
  split at told
  · rename_i none
    have absent := List.filter_eq_nil_iff.mp none _ (mem_of_find? written)
    exact absurd (decide_eq_true rfl) absent
  · rename_i once
    rw [find?_of_filter once] at written
    cases written
  · rename_i once
    rw [find?_of_filter once] at written
    cases written
    obtain ⟨table, read, same⟩ := Option.map_eq_some_iff.mp told
    obtain ⟨entries, numbers, made⟩ := Option.map_eq_some_iff.mp read
    subst same
    cases rest
    exact ⟨base.worlds, entries, merged, numbers, by rw [made]⟩
  · cases told

end Config

end SeedTree
