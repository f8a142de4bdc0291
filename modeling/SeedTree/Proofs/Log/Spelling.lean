import Mathlib.Data.List.Forall2
import SeedTree.Environment
import SeedTree.Log.Logger
import SeedTree.Proofs.Log.Governing
import SeedTree.Proofs.Path
import SeedTree.Proofs.Text.Letters

/- How the names of levels are spelled. A directive reads the same in capitals and in small letters
   as long as its target stays as it is, and so does every level but one: `off` in small letters
   silences a process at once, while its other spellings are a level like others, over which single
   targets can still be let through. -/
namespace SeedTree

open Text

namespace Decimal

theorem readNat?_sameLetters {cs ds : List Char} (same : SameLetters cs ds) :
    readNat? cs = readNat? ds := by
  have digits {cs ds : List Char} (same : SameLetters cs ds) :
      (if cs.isEmpty || !cs.all isDigit then none else some (natOfDigits cs))
        = if ds.isEmpty || !ds.all isDigit then none else some (natOfDigits ds) := by
    rw [same.isEmpty_eq, same.all_eq isDigit_toLower]
    split
    · rfl
    · rename_i number
      simp only [Bool.or_eq_true, Bool.not_eq_true', not_or, Bool.not_eq_false] at number
      have right := map_toLower_of_digits number.2
      have left := map_toLower_of_digits ((same.all_eq isDigit_toLower).trans number.2)
      rw [← left, same, right]
  have plus : ∀ c : Char, c.toLower = '+' ↔ c = '+' := eq_toLower (by decide)
  cases cs with
  | nil =>
    obtain rfl : ds = [] := by simpa [SameLetters] using same.symm
    rfl
  | cons c cs =>
    cases ds with
    | nil => cases same
    | cons d ds =>
      obtain ⟨first, rest⟩ := List.cons.inj same
      have alike : c = '+' ↔ d = '+' := by rw [← plus c, ← plus d, first]
      unfold readNat?
      by_cases signed : c = '+'
      · obtain rfl := alike.mp signed
        subst signed
        exact digits rest
      · have unsigned : d ≠ '+' := fun sign => signed (alike.mpr sign)
        split
        · rename_i matched
          exact absurd (List.cons.inj matched).1 signed
        · split
          · rename_i matched
            exact absurd (List.cons.inj matched).1 unsigned
          · exact digits same

end Decimal

namespace Directive

variable {cs ds : List Char}

theorem limit?_sameLetters (same : SameLetters cs ds) :
    limit? (String.ofList cs) = limit? (String.ofList ds) := by
  unfold limit? lowerAscii
  simp only [String.toList_ofList]
  rw [Decimal.readNat?_sameLetters same, same]

theorem split_sameLetters (same : SameLetters cs ds) :
    Option.Rel (fun x y => SameLetters x.1 y.1 ∧ SameLetters x.2 y.2) (Text.splitFirst? '=' cs)
      (Text.splitFirst? '=' ds) :=
  same.splitFirst? (eq_toLower (by decide))

def targetPart? (cs : List Char) : Option (List Char) :=
  match splitFirst? '=' cs with
  | some (target, _) => some target
  | none => if (limit? (String.ofList cs)).isSome then none else some cs

/-- The same letters, and the same target as it is written: at most the name of the level is spelled
otherwise. -/
structure Respelled (cs ds : List Char) : Prop where
  letters : SameLetters cs ds
  target : targetPart? cs = targetPart? ds

theorem Respelled.symm (respelled : Respelled cs ds) : Respelled ds cs :=
  ⟨respelled.letters.symm, respelled.target.symm⟩

/-- Whether a text begins as a directive does, and holds nothing that no directive holds. -/
def admits (cs : List Char) : Bool :=
  ((cs.dropWhile isBlank).head?.map mayBegin).getD false && !(cs.contains ',' || cs.contains '[')

/-- The target and the limit of a text that is a directive as far as its letters go. -/
def parts? (cs : List Char) : Option Directive :=
  match Text.splitFirst? '=' cs with
  | none =>
    match limit? (String.ofList cs) with
    | some limit => some ⟨none, limit⟩
    | none => some ⟨some (String.ofList cs), most⟩
  | some (target, limit) =>
    if (cs.head?.map isBlank).getD false then none
    else if limit.isEmpty then some ⟨some (String.ofList target), most⟩
    else (limit? (String.ofList limit)).map fun limit => ⟨some (String.ofList target), limit⟩

theorem read?_eq (cs : List Char) : read? cs = if admits cs then parts? cs else none := by
  unfold read? admits
  cases cs.dropWhile isBlank with
  | nil => rfl
  | cons c _ =>
    have turned : (!mayBegin c || cs.contains ',' || cs.contains '[') = true ↔
        ¬ (mayBegin c && !(cs.contains ',' || cs.contains '[')) = true := by
          simp [imp_iff_not_or, or_assoc]
    simp only [turned, List.head?_cons, Option.map_some, Option.getD_some, ite_not]
    rfl

theorem admits_sameLetters (same : SameLetters cs ds) : admits cs = admits ds := by
  have opening :=
    (same.dropWhile (p := isBlank) (apply_toLower (by decide))).head?_eq (f := mayBegin)
      (apply_toLower (by decide))
  have held {sign : Char} (caseless : ∀ c : Char, (sign == c.toLower) = (sign == c)) :
      cs.contains sign = ds.contains sign := by
    rw [List.contains_eq_any_beq, List.contains_eq_any_beq]
    exact same.any_eq caseless
  have comma : cs.contains ',' = ds.contains ',' := held (apply_toLower (by decide))
  have bracket : cs.contains '[' = ds.contains '[' := held (apply_toLower (by decide))
  rw [admits, admits, opening, comma, bracket]

theorem parts?_respelled (respelled : Respelled cs ds) : parts? cs = parts? ds := by
  obtain ⟨letters, target⟩ := respelled
  have blank : cs.head?.map isBlank = ds.head?.map isBlank :=
    letters.head?_eq (apply_toLower (by decide))
  have parts := split_sameLetters letters
  unfold targetPart? at target
  unfold parts?
  generalize Text.splitFirst? '=' cs = before, Text.splitFirst? '=' ds = after at parts target ⊢
  cases parts with
  | none =>
    have limits := limit?_sameLetters letters
    dsimp only at target ⊢
    rw [limits] at target ⊢
    cases level : limit? (String.ofList ds) with
    | some limit => rfl
    | none =>
      rw [level] at target
      rw [Option.some.inj target]
  | some parts =>
    obtain ⟨_, limits⟩ := parts
    dsimp only at target ⊢
    rw [Option.some.inj target, blank, limits.isEmpty_eq, limit?_sameLetters limits]

theorem read?_respelled (respelled : Respelled cs ds) : read? cs = read? ds := by
  rw [read?_eq, read?_eq, admits_sameLetters respelled.letters, parts?_respelled respelled]

theorem targetPart?_word {word : String} (member : word ∈ limitWords)
    (same : SameLetters cs word.toList) : targetPart? cs = none := by
  have words : ∀ word ∈ limitWords, Text.splitFirst? '=' word.toList = none ∧
      (limit? (String.ofList word.toList)).isSome = true := by decide
  obtain ⟨plain, limit⟩ := words word member
  have parts := split_sameLetters same
  rw [plain] at parts
  unfold targetPart?
  generalize splitFirst? '=' cs = before at parts ⊢
  cases parts
  dsimp only
  rw [limit?_sameLetters same, if_pos limit]

theorem splitFirst?_fst (separator : Char) (before after : List Char) :
    (Text.splitFirst? separator (before ++ separator :: after)).map Prod.fst
      = some (before.takeWhile (· ≠ separator)) := by
  induction before with
  | nil => simp [Text.splitFirst?]
  | cons c before ih =>
    by_cases here : c = separator
    · simp [Text.splitFirst?, here]
    · rw [List.cons_append, Text.splitFirst?, if_neg here,
        List.takeWhile_cons_of_pos (by simpa using here)]
      generalize Text.splitFirst? separator (before ++ separator :: after) = parts at ih ⊢
      cases parts with
      | none => cases ih
      | some parts => exact congrArg (Option.map (c :: ·)) ih

def ofPair? (entry : List Char × List Char) : Option Directive := read? (entry.1 ++ '=' :: entry.2)

theorem targetPart?_pair (name limit : List Char) :
    targetPart? (name ++ '=' :: limit) = some (name.takeWhile (· ≠ '=')) := by
  have first := splitFirst?_fst '=' name limit
  unfold targetPart?
  generalize Text.splitFirst? '=' (name ++ '=' :: limit) = parts at first ⊢
  cases parts with
  | none => cases first
  | some parts => exact first

theorem ofPair?_sameLetters (name : List Char) (same : SameLetters cs ds) :
    ofPair? (name, cs) = ofPair? (name, ds) := by
  refine read?_respelled ⟨?_, ?_⟩
  · rw [SameLetters, List.map_append, List.map_append, List.map_cons, List.map_cons, same]
  · rw [targetPart?_pair, targetPart?_pair]

theorem ofPair?_target {entry : List Char × List Char} {d : Directive}
    (read : ofPair? entry = some d) : d.target ≠ none := by
  have first := splitFirst?_fst '=' entry.1 entry.2
  rw [ofPair?, read?_eq] at read
  split at read
  · unfold parts? at read
    generalize Text.splitFirst? '=' (entry.1 ++ '=' :: entry.2) = parts at first read
    cases parts with
    | none => cases first
    | some parts =>
      dsimp only at read
      split at read
      · cases read
      · split at read
        · cases read
          exact Option.some_ne_none _
        · obtain ⟨limit, _, rfl⟩ := Option.map_eq_some_iff.mp read
          exact Option.some_ne_none _
  · cases read

end Directive

namespace LogFilter

def Respelled (a b : String) : Prop :=
  List.Forall₂ Directive.Respelled (splitOn ',' a.toList) (splitOn ',' b.toList)

variable {a b : String}

theorem Respelled.symm (respelled : Respelled a b) : Respelled b a :=
  List.Forall₂.flip (respelled.imp fun _ _ => Directive.Respelled.symm)

theorem respelled_words (same : lowerAscii a = lowerAscii b)
    (word : lowerAscii a ∈ Directive.limitWords) : Respelled a b := by
  have twice : ∀ word ∈ Directive.limitWords, word.toList.map Char.toLower = word.toList := by
    decide
  have plain : ∀ word ∈ Directive.limitWords, ',' ∉ word.toList := by decide
  have comma : ∀ c : Char, c.toLower = ',' ↔ c = ',' := eq_toLower (by decide)
  have letters {s : String} (lower : lowerAscii s = lowerAscii a) :
      SameLetters s.toList (lowerAscii a).toList := by
    rw [SameLetters, twice _ word, ← lower, lowerAscii, String.toList_ofList]
  have single {s : String} (lower : lowerAscii s = lowerAscii a) :
      splitOn ',' s.toList = [s.toList] := by
    refine splitOn_plain fun member => plain _ word ?_
    rw [← twice _ word, ← letters lower, ← (comma ',').mpr rfl]
    exact List.mem_map_of_mem member
  rw [Respelled, single rfl, single same.symm]
  refine .cons ⟨?_, ?_⟩ .nil
  · exact (letters rfl).trans (letters same.symm).symm
  · rw [Directive.targetPart?_word word (letters rfl),
      Directive.targetPart?_word word (letters same.symm)]

theorem read_pieces (respelled : Respelled a b) :
    (pieces a).filterMap Directive.read? = (pieces b).filterMap Directive.read? := by
  unfold Respelled at respelled
  unfold pieces
  generalize splitOn ',' a.toList = before, splitOn ',' b.toList = after at respelled ⊢
  induction respelled with
  | nil => rfl
  | cons first _ ih =>
    rw [List.filter_cons, List.filter_cons, first.letters.isEmpty_eq]
    split
    · rw [List.filterMap_cons, List.filterMap_cons, Directive.read?_respelled first, ih]
    · exact ih

theorem ofText_respelled (respelled : Respelled a b) : ofText a = ofText b := by
  unfold ofText
  rw [read_pieces respelled]

theorem ofText_off : ofText "off" = ⟨[⟨none, 0⟩]⟩ := by decide

variable {entries entries' : List (List Char × List Char)} {f g base : LogFilter}

theorem addAll_eq (f : LogFilter) (entries : List (List Char × List Char)) :
    f.addAll entries = (entries.mapM Directive.ofPair?).map (·.foldl add f) := by
  induction entries generalizing f with
  | nil => rfl
  | cons entry entries ih =>
    rw [addAll, List.mapM_cons, Directive.ofPair?]
    cases read : Directive.read? (entry.1 ++ '=' :: entry.2) with
    | none => rfl
    | some d =>
      rw [Option.bind_eq_bind, Option.bind_some, ih]
      cases entries.mapM Directive.ofPair? <;> rfl

theorem addAll_append : f.addAll (entries ++ entries') =
    (f.addAll entries).bind (·.addAll entries') := by
  induction entries generalizing f with
  | nil => rfl
  | cons entry entries ih =>
    rw [List.cons_append, addAll, addAll]
    cases Directive.read? (entry.1 ++ '=' :: entry.2) with
    | none => rfl
    | some d => exact ih

theorem addAll_alike
    (alike : List.Forall₂ (fun x y => x.1 = y.1 ∧ SameLetters x.2 y.2) entries entries') :
    f.addAll entries = f.addAll entries' := by
  have read : entries.mapM Directive.ofPair? = entries'.mapM Directive.ofPair? := by
    induction alike with
    | nil => rfl
    | @cons x y _ _ first _ ih =>
      obtain ⟨name, limit⟩ := x
      obtain ⟨rfl, letters⟩ := first
      rw [List.mapM_cons, List.mapM_cons, Directive.ofPair?_sameLetters y.1 letters, ih]
  rw [addAll_eq, addAll_eq, read]

theorem targets_of_entries {ds : List Directive} (read : entries.mapM Directive.ofPair? = some ds) :
    ∀ d ∈ ds, d.target ≠ none := by
  induction entries generalizing ds with
  | nil =>
    cases read
    exact fun d member => absurd member List.not_mem_nil
  | cons entry entries ih =>
    rw [List.mapM_cons] at read
    obtain ⟨first, head, rest⟩ := Option.bind_eq_some_iff.mp read
    obtain ⟨more, tail, whole⟩ := Option.bind_eq_some_iff.mp rest
    cases whole
    intro d member
    rcases List.mem_cons.mp member with rfl | later
    · exact Directive.ofPair?_target head
    · exact ih tail d later

theorem addAll_silent_iff (distinct : base.Distinct)
    (shut : ∀ d ∈ base.directives, d.target = none ∧ d.limit = 0) :
    (∃ f, base.addAll entries = some f ∧ ∀ target level, f.lets target level = false) ↔
      ∃ f, silent.addAll entries = some f ∧ ∀ target level, f.lets target level = false := by
  rw [addAll_eq, addAll_eq]
  cases read : entries.mapM Directive.ofPair? with
  | none => simp
  | some ds =>
    have named := targets_of_entries read
    simp only [Option.map_some, Option.some.injEq, exists_eq_left']
    rw [lets_nothing_iff (distinct_foldl_add distinct ds),
      lets_nothing_iff (distinct_foldl_add distinct_silent ds)]
    · constructor
      · intro zero d member
        have within : ∀ d ∈ silent.directives, d ∈ base.directives ∨ False := by simp [silent]
        exact zero d ((mem_foldl_add within ds d member).resolve_right id)
      · intro zero d member
        have within : ∀ d ∈ base.directives, d ∈ silent.directives ∨ d.limit = 0 :=
          fun d member => Or.inr (shut d member).2
        exact (mem_foldl_add within ds d member).elim (zero d) id
    · intro d member all
      exact absurd all (named d ((mem_of_mem_foldl_add member).resolve_left (by simp [silent])))
    · intro d member all
      exact (mem_of_mem_foldl_add member).elim (fun first => (shut d first).2) fun later =>
        absurd all (named d later)

end LogFilter

namespace LogSettings

def levelFor (settings : LogSettings) (override : Option String) : String :=
  override.getD settings.level

def entries (settings : LogSettings) (env : Environment) : List (List Char × List Char) :=
  (settings.modules.toList.map fun (name, limit) => (name.toList, limit.toList))
    ++ LogFilter.modulesOf ((env.value? "SPECTRA_LOG_MODULES").getD "")

/-- Nothing is said about single targets that cannot be read or that lets anything through. -/
def Mute (settings : LogSettings) (env : Environment) : Prop :=
  ∃ f, LogFilter.silent.addAll (settings.entries env) = some f ∧
    ∀ target level, f.lets target level = false

structure Respelled (a b : LogSettings) : Prop where
  level : LogFilter.Respelled a.level b.level
  modules : List.Forall₂ (fun x y => x.1 = y.1 ∧ SameLetters x.2.toList y.2.toList)
    a.modules.toList b.modules.toList

variable {a b : LogSettings} {env : Environment}

theorem Respelled.read (respelled : a.Respelled b) :
    List.Forall₂ (fun x y => x.1 = y.1 ∧ SameLetters x.2 y.2)
    (a.modules.toList.map fun (name, limit) => (name.toList, limit.toList))
    (b.modules.toList.map fun (name, limit) => (name.toList, limit.toList)) := by
  rw [List.forall₂_map_left_iff, List.forall₂_map_right_iff]
  exact respelled.modules.imp fun _ _ alike => ⟨congrArg String.toList alike.1, alike.2⟩

theorem Respelled.mute_iff (respelled : a.Respelled b) : a.Mute env ↔ b.Mute env := by
  unfold Mute entries
  rw [LogFilter.addAll_append, LogFilter.addAll_append, LogFilter.addAll_alike respelled.read]

end LogSettings

namespace LogFilter

variable {a b : LogSettings} {override override' : Option String}
  {level level' : String} {env : Environment} {base : LogFilter}

theorem withModules_toOption : (withModules base a env).toOption = base.addAll (a.entries env) := by
  unfold withModules LogSettings.entries
  rw [addAll_append]
  cases base.addAll (a.modules.toList.map fun (name, limit) => (name.toList, limit.toList)) with
  | none => rfl
  | some f =>
    dsimp only [Option.bind_some]
    cases f.addAll (modulesOf ((env.value? "SPECTRA_LOG_MODULES").getD "")) <;> rfl

theorem withModules_respelled (respelled : a.Respelled b) :
    withModules base a env = withModules base b env := by
  unfold withModules
  rw [addAll_alike respelled.read]

theorem ofLevel_off : ofLevel "off" a env = .ok silent := if_pos rfl

/-- To write `off` otherwise leaves a process silent just if nothing is said about single targets
that counts. -/
theorem ofLevel_silent_iff (respelled : Respelled "off" level) (other : level ≠ "off") :
    (ofLevel level a env).map lets = .ok silent.lets ↔ a.Mute env := by
  rw [ofLevel, if_neg other, ← ofText_respelled respelled, ofText_off]
  have single : LogFilter.Distinct ⟨[⟨none, 0⟩]⟩ := List.pairwise_singleton ..
  refine Iff.trans ?_ (addAll_silent_iff single (by simp))
  rw [← withModules_toOption]
  cases withModules ⟨[⟨none, 0⟩]⟩ a env with
  | error fault => simp [Except.map, Except.toOption]
  | ok f => simp [Except.map, Except.toOption, funext_iff, silent, lets, governing?, heaviest?]

theorem ofLevel_respelled (respelled : Respelled level level')
    (settings : a.Respelled b) (left : level ≠ "off")
    (right : level' ≠ "off") : ofLevel level a env = ofLevel level' b env := by
  rw [ofLevel, ofLevel, if_neg left, if_neg right, ofText_respelled respelled,
    withModules_respelled settings]

theorem ofLevel_alike_iff (respelled : Respelled level level') (settings : a.Respelled b) :
    (ofLevel level a env).map lets = (ofLevel level' b env).map lets ↔
      (level = "off" ↔ level' = "off") ∨ a.Mute env := by
  by_cases left : level = "off" <;> by_cases right : level' = "off"
  · subst left right
    simp [ofLevel_off]
  · subst left
    rw [ofLevel_off, settings.mute_iff, ← ofLevel_silent_iff respelled right, eq_comm]
    simp [right, Except.map]
  · subst right
    rw [ofLevel_off, ← ofLevel_silent_iff respelled.symm left]
    simp [left, Except.map]
  · rw [ofLevel_respelled respelled settings left right]
    simp [left, right]

/-- A filter in the environment can be read, and the command line does not go before it. -/
def StandsAlone (override : Option String) (env : Environment) : Prop :=
  override = none ∧ ((env.value? "SPECTRA_LOG").bind read?).isSome = true

theorem choose_eq (apart : ¬ StandsAlone override env) :
    choose a override env = ofLevel (a.levelFor override) a env := by
  cases override with
  | some level => rfl
  | none =>
    unfold choose
    cases given : (env.value? "SPECTRA_LOG").bind read? with
    | none => rfl
    | some f => exact absurd ⟨rfl, by rw [given]; rfl⟩ apart

/-- Settings that differ in the case of the names of levels come to the same, unless one of them
asks for `off` in small letters, the other for `off` in other letters, and something is said about
single targets that counts. -/
theorem spellings_alike_iff (settings : a.Respelled b)
    (overrides : Option.Rel Respelled override override')
    (env : Environment) : (choose a override env).map lets = (choose b override' env).map lets ↔
      StandsAlone override env ∨ (a.levelFor override = "off" ↔ b.levelFor override' = "off") ∨
        a.Mute env := by
  have level : Respelled (a.levelFor override) (b.levelFor override') := by
    cases overrides with
    | none => exact settings.level
    | some alike => exact alike
  have both : StandsAlone override env ↔ StandsAlone override' env := by
    cases overrides <;> simp [StandsAlone]
  by_cases alone : StandsAlone override env
  · obtain ⟨rfl, given⟩ := alone
    obtain ⟨rfl, _⟩ := both.mp ⟨rfl, given⟩
    obtain ⟨f, found⟩ := Option.isSome_iff_exists.mp given
    simp [choose, found, StandsAlone]
  · rw [choose_eq alone, choose_eq (both.not.mp alone), ofLevel_alike_iff level settings]
    exact (or_iff_right alone).symm

def traced (level : String) : LogSettings :=
  { level := level, modules := NameMap.ofList [("spectra", "trace")] }

theorem off_in_capitals_not_silent :
    (traced "off").Respelled (traced "OFF") ∧ Option.Rel Respelled none none ∧
      (choose (traced "off") none {}).map lets ≠ (choose (traced "OFF") none {}).map lets := by
  have settings : (traced "off").Respelled (traced "OFF") :=
    ⟨respelled_words (by decide) (by decide),
      List.forall₂_same.mpr fun _ _ => ⟨rfl, SameLetters.refl _⟩⟩
  refine ⟨settings, .none, fun same => ?_⟩
  rcases (spellings_alike_iff settings .none {}).mp same with ⟨-, given⟩ | asked | ⟨f, read, still⟩
  · exact absurd given (by decide)
  · exact absurd (asked.mp rfl) (by decide)
  · have entries : (traced "off").entries {} = [("spectra".toList, "trace".toList)] := by decide
    have one : silent.addAll [("spectra".toList, "trace".toList)] =
      some ⟨[⟨some "spectra", 5⟩]⟩ := by decide
    rw [entries, one] at read
    obtain rfl := Option.some.inj read
    exact absurd (still "spectra" .trace) (by decide)

end LogFilter

end SeedTree
