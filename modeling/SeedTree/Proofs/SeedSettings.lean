import SeedTree.Proofs.Config.Integers
import SeedTree.Proofs.Config.Loading
import SeedTree.Proofs.Maps

/- The integers of the seed section. An integer that a document or a variable writes is loaded as it
   is where 64 bits with a sign hold it, and as the nearest double above that. -/
namespace SeedTree

inductive SeedSetting where
  | maxDepth
  | minFolders
  | maxFolders
  | minFiles
  | maxFiles
  | seed
  | contentSeed
  deriving DecidableEq, Repr

namespace SeedSetting

def key : SeedSetting → String
  | maxDepth => "max_depth"
  | minFolders => "min_folders"
  | maxFolders => "max_folders"
  | minFiles => "min_files"
  | maxFiles => "max_files"
  | seed => "seed"
  | contentSeed => "file_binary_seed"

def value (p : Parameters) : SeedSetting → Nat
  | maxDepth => p.maxDepth.toNat
  | minFolders => p.minFolders.toNat
  | maxFolders => p.maxFolders.toNat
  | minFiles => p.minFiles.toNat
  | maxFiles => p.maxFiles.toNat
  | seed => p.seed.toNat
  | contentSeed => p.contentSeed.toNat

theorem lowercase_key (setting : SeedSetting) : Text.lowercase setting.key = setting.key := by
  cases setting <;> decide +kernel

end SeedSetting

namespace Value

variable {v : Value}

theorem toNat?_of_toUInt64? {n : UInt64} (read : v.toUInt64? = some n) :
    v.toNat? = some n.toNat := by
  obtain ⟨m, number, same⟩ := Option.map_eq_some_iff.mp read
  rw [number, ← same, UInt64.toNat_ofNat_of_lt' (toNat?_lt number)]

theorem toNat?_of_toUInt32? {n : UInt32} (read : v.toUInt32? = some n) :
    v.toNat? = some n.toNat := by
  obtain ⟨m, number, cut⟩ := Option.bind_eq_some_iff.mp read
  obtain ⟨fits, same⟩ := (Option.ite_none_right_eq_some).mp cut
  rw [number, ← Option.some.inj same, UInt32.toNat_ofNat_of_lt' fits]

end Value

namespace Config

open Value

variable {setting : SeedSetting} {n : Int} {v : Value}
  {fields document upper : List (String × Value)} {names : Bool} {p : Parameters} {c : Config}

def seedKey : String := "seed"

theorem isSection_seedKey : IsSection seedKey := ⟨by decide +kernel, by decide +kernel⟩

theorem toNat?_of_parameters? (read : parameters? (.table fields) = some p)
    (found : find? setting.key fields = some v) : v.toNat? = some (setting.value p) := by
  have reads : ∀ {α : Type} (default : α) (reader : Value → Option α) (place : Nat),
      readOr default reader ((table fields).setting? setting.key place) = reader v := by
    intro α default reader place
    rw [setting?, found]
    rfl
  simp only [parameters?, Option.bind_eq_bind, Option.bind_eq_some_iff] at read
  obtain ⟨maxDepth, depth, minFolders, low, maxFolders, high, minFiles, few, maxFiles,
    many, seed, own, contentSeed,
    content, same⟩ := read
  cases same
  cases setting with
  | maxDepth => exact toNat?_of_toUInt32? ((reads _ _ _).symm.trans depth)
  | minFolders => exact toNat?_of_toUInt32? ((reads _ _ _).symm.trans low)
  | maxFolders => exact toNat?_of_toUInt32? ((reads _ _ _).symm.trans high)
  | minFiles => exact toNat?_of_toUInt32? ((reads _ _ _).symm.trans few)
  | maxFiles => exact toNat?_of_toUInt32? ((reads _ _ _).symm.trans many)
  | seed => exact toNat?_of_toUInt64? ((reads _ _ _).symm.trans own)
  | contentSeed => exact toNat?_of_toUInt64? ((reads _ _ _).symm.trans content)

theorem toNat?_of_ofLayers? (made : ofLayers? document names upper = some c)
    (found : (layered document upper).at? seedKey setting.key = some v) :
    v.toNat? = some (setting.value c.parameters) := by
  have parameters := ofLayers?_parameters made
  rw [at?, part] at found
  cases there : find? seedKey (layered document upper).entries with
  | none =>
    rw [there] at found
    cases found
  | some x =>
    rw [there] at found
    change part? {} parameters? (find? seedKey (layered document upper).entries) = _ at parameters
    rw [there] at parameters
    cases x with
    | table fields => exact toNat?_of_parameters? parameters found
    | _ => cases found

theorem exists_defaults :
    ∃ defaults, find? seedKey defaultLayer.entries = some defaults ∧ Keyed defaults.entries := by
  refine ⟨_, find?_cons_self fun _ member => absurd member List.not_mem_nil, ?_⟩
  show List.Nodup (_ :: _)
  decide

theorem at?_document (holds : find? seedKey document = some (.table fields))
    (single : Single seedKey document) (own : find? setting.key fields = some v) (plain : v.IsPlain)
    (alone : ∀ name w, find? name fields = some w →
      Text.lowercase name = setting.key → name = setting.key) :
    (defaultLayer.overlay (settleEntries document)).at? seedKey setting.key = some v := by
  obtain ⟨defaults, there, keyed⟩ := exists_defaults
  have found := find?_mergeAll_settled keyed own plain fun name w there same =>
    alone name w there (same.trans setting.lowercase_key)
  rw [at?, part_document isSection_seedKey holds single, there, Option.getD_some,
    ← found, setting.lowercase_key]

def settingFor? (entry : String × String) : Option (String × Value) :=
  (Environment.settingKey? entry.1).map fun key => (key, Environment.settingOf entry.2)

theorem settings_eq (env : Environment) :
    env.settings = env.given.toList.filterMap settingFor? := rfl

theorem settings_split {env : Environment} {own text key : String}
    (given : env.given[own]? = some text)
    (named : Environment.settingKey? own = some key) : ∃ before after,
    env.settings = before ++ (key, Environment.settingOf text) :: after ∧ ∀ entry ∈ after,
      ∃ other ∈ env.given, other ≠ own ∧ Environment.settingKey? other = some entry.1 := by
  obtain ⟨before, after, order⟩ :=
    List.append_of_mem (Std.ExtTreeMap.mem_toList_iff_getElem?_eq_some.mpr given)
  have distinct := NameMap.distinct_names env.given
  rw [order, List.pairwise_append] at distinct
  have later := (List.pairwise_cons.mp distinct.2.1).1
  have here : settingFor? (own, text) = some (key, Environment.settingOf text) := by
    rw [settingFor?, named]
    rfl
  refine ⟨before.filterMap settingFor?, after.filterMap settingFor?, ?_, fun entry member => ?_⟩
  · rw [settings_eq, order, List.filterMap_append, List.filterMap_cons_some here]
  · obtain ⟨⟨other, s⟩, among, told⟩ := List.mem_filterMap.mp member
    obtain ⟨key, named', rfl⟩ := Option.map_eq_some_iff.mp told
    have stands : (other, s) ∈ env.given.toList := by
      rw [order]
      exact List.mem_append_right _ (List.mem_cons_of_mem _ among)
    exact ⟨other, (NameMap.mem_iff_mem_toList _ _).mpr ⟨s, stands⟩, (later _ among).symm, named'⟩

theorem at?_environment {env : Environment} {own text : String}
    (given : env.given[own]? = some text)
    (named : (Environment.settingKey? own).map KeyPath.ofText =
      some (.child (.name seedKey) setting.key))
    (spares : ∀ other ∈ env.given, other ≠ own → ∀ key, Environment.settingKey? other = some key →
      (KeyPath.ofText key).Spares seedKey setting.key) (document : List (String × Value)) :
    (layered document env.settings).at? seedKey setting.key =
      some (Environment.settingOf text) := by
  obtain ⟨key, keyed, path⟩ := Option.map_eq_some_iff.mp named
  obtain ⟨before, after, order, others⟩ := settings_split given keyed
  have plain := env.settings_plain
  rw [order] at plain
  obtain ⟨value, rest⟩ := List.forall_mem_cons.mp fun entry member =>
    plain entry (List.mem_append_right before member)
  -- Whatever the layers before it hold, the variable's value stands once it is put, and nothing
  -- after it moves it.
  have base := keyed_defaultLayer.overlay (settleEntries document ++ before)
  have tidy :
      Keyed (((defaultLayer.overlay (settleEntries document ++ before)).part seedKey).entries) := by
    obtain ⟨defaults, found, start⟩ := exists_defaults
    refine holds_overlay keyed_nil
      (fun key v entries before => before.put _ _) keyed_defaultLayer ?_ _
    rw [part, found]
    exact start
  rw [layered, order, ← overlay_append, ← List.append_assoc, overlay_append, overlay_cons, path,
    at?_overlay_of_spares (base.mergeAt _ _) rest fun entry member => ?_,
    at?_mergeAt_child base tidy value isSection_seedKey.lower setting.lowercase_key]
  obtain ⟨other, there, apart, told⟩ := others entry member
  exact spares other there apart entry.1 told

/-- An integer is written for a setting of a loaded configuration, and nothing else that the
configuration is loaded from is about that setting. -/
inductive WritesInteger (setting : SeedSetting) (n : Int) : Config → Prop where
  /-- A document writes it, as a literal. -/
  | document {content : String} {document fields upper : List (String × Value)}
    {literal : List Char} {v : Value}
      {names : Bool} {c : Config} (read : DocumentForm.json.read? content = some (.table document))
      (holds : find? seedKey document = some (.table fields))
      (single : Single seedKey document)
      (own : find? setting.key fields = some v)
      (alone : ∀ name w, find? name fields = some w →
        Text.lowercase name = setting.key → name = setting.key)
      (written : (Json.readNumber? literal).map Prod.fst = some v)
        (spelled : Decimal.readInt? literal = some n)
      (spares : ∀ entry ∈ upper, (KeyPath.ofText entry.1).Spares seedKey setting.key)
      (loaded : FromDocument .json content upper names c) : WritesInteger setting n c
  /-- A variable writes it, as its text. -/
  | environment {env : Environment} {own text : String} {c : Config}
    (given : env.given[own]? = some text)
      (named : (Environment.settingKey? own).map KeyPath.ofText =
        some (.child (.name seedKey) setting.key))
      (spelled : Decimal.readInt? text.toList = some n)
      (spares : ∀ other ∈ env.given, other ≠ own → ∀ key, Environment.settingKey? other = some key →
        (KeyPath.ofText key).Spares seedKey setting.key)
      (loaded : FromEnvironment env c) : WritesInteger setting n c

theorem WritesInteger.value_read (writes : WritesInteger setting n c) : ∃ v : Value, v.Renders n ∧
    (v.IsPlain → v.toNat? = some (setting.value c.parameters)) := by
  cases writes with
  | document read holds single own alone written spelled spares loaded =>
    obtain ⟨⟨_, rest⟩, literals, rfl⟩ := Option.map_eq_some_iff.mp written
    refine ⟨_, Json.renders_of_readNumber? spelled literals, fun plain => ?_⟩
    obtain ⟨entries, told, made⟩ := loaded.layers
    rw [read] at told
    cases told
    refine toNat?_of_ofLayers? made ?_
    rw [layered, at?_overlay_of_spares (keyed_defaultLayer.overlay _) loaded.upper_plain spares]
    exact at?_document holds single own plain alone
  | @environment env own text _ given named spelled spares loaded =>
    refine ⟨Environment.settingOf text, Environment.renders_settingOf spelled, fun _ => ?_⟩
    obtain ⟨document, names, made⟩ := loaded.layers
    exact toNat?_of_ofLayers? made (at?_environment given named spares document)

theorem WritesInteger.value_of_fits (writes : WritesInteger setting n c)
    (fits : fitsInt64 n = true) : (setting.value c.parameters : Int) = n := by
  obtain ⟨v, renders, read⟩ := writes.value_read
  exact renders.toNat?_whole fits (read (renders.plain (Or.inl fits)))

/-- Integers that 64 bits with a sign hold are loaded as they are written, so different ones are
loaded as different ones; those above that, as long as 64 bits hold them, are loaded as the nearest
double. -/
theorem integers_as_written (writes : WritesInteger setting n c) :
    (fitsInt64 n = true → (setting.value c.parameters : Int) = n) ∧
      ((twoTo 63 : Int) ≤ n → n < twoTo 64 →
        setting.value c.parameters = (Binary64.ofNat n.toNat).roundToUInt64) ∧
      ∀ other c', WritesInteger setting other c' → fitsInt64 n = true →
        fitsInt64 other = true → n ≠ other →
        setting.value c.parameters ≠ setting.value c'.parameters := by
  refine ⟨writes.value_of_fits, fun above below => ?_,
    fun other c' writes' fits fits' apart same => ?_⟩
  · obtain ⟨v, renders, read⟩ := writes.value_read
    have number := read (renders.plain (Or.inr ⟨above, below⟩))
    rw [renders.wide above below] at number
    exact (Option.some.inj number).symm
  · have first := writes.value_of_fits fits
    have second := writes'.value_of_fits fits'
    omega

section LargeSeed

def largeSeed : String := "\x7b\"seed\": \x7b\"seed\": 10000000000000000001\x7d\x7d"

theorem float_of_any {found : Option Value} {y : Binary64}
    (shape : (found.any fun v => match v with | .float x => x = y | _ => false) = true) :
    found = some (.float y) := by
  cases found with
  | none => cases shape
  | some v =>
    rw [Option.any_some] at shape
    split at shape
    · rw [of_decide_eq_true shape]
    · cases shape

theorem read_largeSeed : ∃ document fields, DocumentForm.json.read? largeSeed =
    some (.table document) ∧
    find? seedKey document = some (.table fields) ∧ (∀ entry ∈ document, entry.1 = seedKey) ∧
    (fields.all (·.1 = "seed") && (find? "seed" fields).any fun v => match v with
      | .float x => x = .ofNat 10000000000000000001
      | _ => false) = true := exists_section (by decide +kernel)

theorem largeSeed_writes : ∃ c, WritesInteger .seed 10000000000000000001 c := by
  obtain ⟨document, fields, read, holds, only, shape⟩ := read_largeSeed
  obtain ⟨single, float⟩ := Bool.and_eq_true_iff.mp shape
  have literal : (Json.readNumber? "10000000000000000001".toList).map Prod.fst
      = some (.float (.ofNat 10000000000000000001)) := float_of_any (by decide +kernel)
  have spelled : Decimal.readInt? "10000000000000000001".toList = some 10000000000000000001 := by
    decide +kernel
  have loads : (ofText .json largeSeed).toOption.any (fun _ => true) = true := by decide +kernel
  obtain ⟨c, loaded, -⟩ := exists_loaded loads
  exact ⟨c, .document read holds (fun entry member _ => only entry member) (float_of_any float)
    (fun name w there _ => of_decide_eq_true
      (List.all_eq_true.mp single _ (mem_of_find? there))) literal spelled
    (fun entry member => absurd member List.not_mem_nil) (.text loaded)⟩

end LargeSeed

section Depth

def depthSettings : Environment :=
  { given := (∅ : NameMap String).insert "SPECTRA_SEED__MAX_DEPTH" "7" }

theorem depthSettings_write : ∃ c, WritesInteger .maxDepth 7 c := by
  have given : depthSettings.given["SPECTRA_SEED__MAX_DEPTH"]? = some "7" := by decide +kernel
  have named : (Environment.settingKey? "SPECTRA_SEED__MAX_DEPTH").map KeyPath.ofText
      = some (.child (.name seedKey) SeedSetting.maxDepth.key) := by decide +kernel
  have spelled : Decimal.readInt? "7".toList = some 7 := by decide +kernel
  have only : ∀ other ∈ depthSettings.given, other = "SPECTRA_SEED__MAX_DEPTH" := by
    intro other member
    obtain ⟨s, found⟩ := (mem_iff_getElem?_some _ _).mp member
    rw [depthSettings, getElem?_insert_ite] at found
    split at found
    · rename_i same
      exact same.symm
    · rw [Std.ExtTreeMap.getElem?_empty] at found
      cases found
  have loads : (ofEnvironment depthSettings).toOption.any (fun _ => true) = true := by
    decide +kernel
  obtain ⟨c, loaded, -⟩ := exists_loaded loads
  exact ⟨c, .environment given named spelled
    (fun other member apart => absurd (only other member) apart)
    (.alone loaded)⟩

end Depth

/-- A depth given by a variable is loaded as it is, and a seed that takes 64 bits only to the
nearest double. -/
theorem written_integers_loaded :
    ∃ c c', WritesInteger .maxDepth 7 c ∧ c.parameters.maxDepth.toNat = 7 ∧
    WritesInteger .seed 10000000000000000001 c' ∧
      c'.parameters.seed.toNat = 10000000000000000000 := by
  obtain ⟨c, writes⟩ := depthSettings_write
  obtain ⟨c', writes'⟩ := largeSeed_writes
  have whole := (integers_as_written writes).1 (by decide +kernel)
  have rounded := (integers_as_written writes').2.1 (by decide +kernel) (by decide +kernel)
  have double : (Binary64.ofNat 10000000000000000001).roundToUInt64 = 10000000000000000000 := by
    decide +kernel
  exact ⟨c, c', writes, Int.ofNat_inj.mp whole, writes', rounded.trans double⟩

end Config

end SeedTree
