import SeedTree.Children
import SeedTree.Proofs.Path

/- What the generator may answer: names that are names, short and pairwise different, and folders
   only above the greatest depth. -/
namespace SeedTree

namespace Draw

def Always {α : Type} (d : Draw α) (property : α → Prop) : Prop :=
  ∀ ws i a j, d ws i = some (a, j) → property a

theorem always_pure {α : Type} {property : α → Prop} {a : α} (holds : property a) :
    Always (pure a : Draw α) property := by
  intro ws i b j drawn
  cases drawn
  exact holds

theorem always_none {α : Type} {property : α → Prop} :
    Always (fun _ _ => none : Draw α) property := by
  intro ws i a j drawn
  cases drawn

theorem always_bind {α β : Type} {d : Draw α} {f : α → Draw β} {first : α → Prop}
    {property : β → Prop} (left : Always d first)
    (right : ∀ a, first a → Always (f a) property) : Always (d >>= f) property := by
  intro ws i b k drawn
  change Draw.bind d f ws i = some (b, k) at drawn
  unfold Draw.bind at drawn
  cases step : d ws i with
  | none => rw [step] at drawn; cases drawn
  | some pair =>
    rw [step] at drawn
    exact right pair.1 (left ws i pair.1 pair.2 step) ws pair.2 b k drawn

theorem always_any {α : Type} (d : Draw α) : Always d fun _ => True := fun _ _ _ _ _ => trivial

theorem always_mono {α : Type} {d : Draw α} {first second : α → Prop} (left : Always d first)
    (implies : ∀ a, first a → second a) : Always d second :=
  fun ws i a j drawn => implies a (left ws i a j drawn)

theorem always_untilSome {α : Type} {d : Draw (Option α)} {property : α → Prop}
    (accepted : Always d fun found => ∀ a, found = some a → property a) (fuel : Nat) :
    Always (untilSome d fuel) property := by
  induction fuel with
  | zero => exact always_none
  | succ fuel ih =>
    refine always_bind accepted fun found holds => ?_
    cases found with
    | none => exact ih
    | some a => exact always_pure (holds a rfl)

theorem always_index_lt {fuel length : Nat} (positive : 0 < length) :
    Always (index fuel length) (· < length) := by
  unfold index
  split
  · exact always_pure positive
  · refine always_untilSome (always_bind (always_any _) fun w _ => always_pure ?_) fuel
    intro n accepted
    simp only [accept?] at accepted
    split at accepted
    · cases accepted
      have bound : w.toNat < twoTo 64 := w.toNat_lt
      have room := Nat.mul_lt_mul_of_pos_right bound positive
      exact Nat.div_lt_of_lt_mul room
    · cases accepted

end Draw

namespace Text

theorem eq_of_splitFirst? {separator : Char} {cs before after : List Char}
    (split : splitFirst? separator cs = some (before, after)) :
    cs = before ++ separator :: after := by
  induction cs generalizing before with
  | nil => cases split
  | cons c cs ih =>
    unfold splitFirst? at split
    split at split
    · rename_i same
      cases split
      simp [same]
    · cases inner : splitFirst? separator cs with
      | none => rw [inner] at split; cases split
      | some pair =>
        rw [inner] at split
        cases split
        rw [ih inner]
        rfl

theorem eq_of_splitLast? {separator : Char} {cs before after : List Char}
    (split : splitLast? separator cs = some (before, after)) :
    cs = before ++ separator :: after := by
  obtain ⟨⟨x, y⟩, found, same⟩ := Option.map_eq_some_iff.mp split
  cases same
  have whole := congrArg List.reverse (eq_of_splitFirst? found)
  simpa using whole

end Text

namespace Children

open Draw

/-- Free of separators, too long for a dot name and short. -/
def Wordy (low high : Nat) (name : String) : Prop :=
  '/' ∉ name.toList ∧ '\x00' ∉ name.toList ∧ low ≤ name.toList.length ∧ name.toList.length ≤ high

instance (low high : Nat) (name : String) : Decidable (Wordy low high name) :=
  inferInstanceAs (Decidable (_ ∧ _ ∧ _ ∧ _))

theorem wordy_append {low high low' high' : Nat} {a b : String} (left : Wordy low high a)
    (right : Wordy low' high' b) : Wordy (low + low') (high + high') (a ++ b) := by
  obtain ⟨slash, nul, least, most⟩ := left
  obtain ⟨slash', nul', least', most'⟩ := right
  simp only [Wordy, String.toList_append, List.mem_append, List.length_append, not_or]
  exact ⟨⟨slash, slash'⟩, ⟨nul, nul'⟩, by omega, by omega⟩

theorem Wordy.weaken {low high low' high' : Nat} {name : String} (wordy : Wordy low high name)
    (less : low' ≤ low) (more : high ≤ high') : Wordy low' high' name :=
  ⟨wordy.1, wordy.2.1, Nat.le_trans less wordy.2.2.1, Nat.le_trans wordy.2.2.2 more⟩

theorem Wordy.isName {low high : Nat} {name : String} (wordy : Wordy low high name)
    (long : 3 ≤ low) : Path.IsName name := by
  obtain ⟨slash, nul, least, _⟩ := wordy
  have length : ∀ other : String, other.toList.length < 3 → name ≠ other := by
    rintro other short rfl
    omega
  exact (Path.isName_iff name).mpr ⟨length "" (by decide +kernel), length "." (by decide +kernel),
    length ".." (by decide +kernel), slash, nul⟩

theorem words_wordy : ∀ word ∈ words, Wordy 4 7 word := by decide +kernel

theorem extensions_wordy : ∀ extension ∈ extensions, Wordy 3 4 extension := by decide +kernel

theorem always_pick {fuel : Nat} {pool : List String} {property : String → Prop}
    (some : 0 < pool.length) (all : ∀ word ∈ pool, property word) :
    Always (pick fuel pool) property := by
  refine always_bind (always_index_lt some) fun i bound => always_pure ?_
  have value : pool.getD i "" = pool[i] := by simp [List.getD, bound]
  rw [value]
  exact all _ (List.getElem_mem bound)

theorem always_folderBase (fuel : Nat) : Always (folderBase fuel) (Wordy 9 15) := by
  refine always_bind (always_pick (by decide) words_wordy) fun first left => ?_
  refine always_bind (always_pick (by decide) words_wordy) fun second right => ?_
  have line : Wordy 1 1 "_" := by decide +kernel
  exact always_pure (wordy_append (wordy_append left line) right)

theorem always_fileBase (fuel : Nat) : Always (fileBase fuel) (Wordy 8 15) := by
  refine always_bind (always_pick (by decide) words_wordy) fun stem left => ?_
  refine always_bind (always_pick (by decide) extensions_wordy) fun extension right => ?_
  have dot : Wordy 1 1 "." := by decide +kernel
  exact always_pure ((wordy_append (wordy_append left dot) right).weaken (by omega) (by omega))

theorem hexDigits_plain (n : Nat) : '/' ∉ Nat.toDigits 16 n ∧ '\x00' ∉ Nat.toDigits 16 n := by
  have digit : ∀ d < 16, '/' ≠ Nat.digitChar d ∧ '\x00' ≠ Nat.digitChar d := by decide
  induction n using Nat.strongRecOn with
  | ind n ih =>
    rw [Nat.toDigits_eq_if (by decide : 1 < 16)]
    split
    · rename_i small
      simp [digit n small]
    · have smaller := ih (n / 16) (by omega)
      have last := digit (n % 16) (by omega)
      simp only [List.mem_append, List.mem_singleton, not_or]
      exact ⟨⟨smaller.1, last.1⟩, ⟨smaller.2, last.2⟩⟩

theorem always_suffix : Always suffix (Wordy 4 4) := by
  have drawn : Always Draw.upper16 (· < 16 ^ 4) := by
    refine always_bind (always_any _) fun w _ => always_pure ?_
    have bound := w.toNat_lt
    have power : twoTo 16 = 65536 := rfl
    rw [power]
    omega
  refine always_bind drawn fun n small => always_pure ?_
  have plain := hexDigits_plain n
  have length := (Nat.length_toDigits_le_iff (b := 16) (by decide) (by decide : 0 < 4)).mpr small
  simp only [Wordy, String.toList_ofList, List.mem_append, List.mem_replicate, not_or,
    List.length_append, List.length_replicate]
  refine ⟨⟨?_, plain.1⟩, ⟨?_, plain.2⟩, by omega, by omega⟩
  · rintro ⟨_, same⟩
    cases same
  · rintro ⟨_, same⟩
    cases same

theorem wordy_withSuffix {base s : String} (wordy : Wordy 8 15 base) (short : Wordy 4 4 s) :
    Wordy 8 20 (withSuffix base s) := by
  have dash : Wordy 1 1 "-" := by decide +kernel
  have dot : Wordy 1 1 "." := by decide +kernel
  unfold withSuffix
  split
  · rename_i stem extension split
    have whole := Text.eq_of_splitLast? split
    obtain ⟨slash, nul, least, most⟩ := wordy
    rw [whole] at slash nul least most
    simp only [List.mem_append, List.mem_cons, List.length_append, List.length_cons, not_or]
      at slash nul least most
    have left : Wordy stem.length stem.length (String.ofList stem) := by
      simp [Wordy, slash.1, nul.1]
    have right : Wordy extension.length extension.length (String.ofList extension) := by
      simp [Wordy, slash.2.2, nul.2.2]
    exact (wordy_append (wordy_append (wordy_append (wordy_append left dash) short) dot)
      right).weaken (by omega) (by omega)
  · exact (wordy_append (wordy_append wordy dash) short).weaken (by omega) (by omega)

theorem always_freeName {base : String} (wordy : Wordy 8 15 base) (done : List ChildSpec)
    (fuel : Nat) (candidate : String) (start : Wordy 8 20 candidate) :
    Always (freeName base done fuel candidate)
      fun name => Wordy 8 20 name ∧ isTaken done name = false := by
  induction fuel generalizing candidate with
  | zero => exact always_none
  | succ fuel ih =>
    unfold freeName
    split
    · exact always_bind always_suffix fun s short => ih _ (wordy_withSuffix wordy short)
    · rename_i free
      exact always_pure ⟨start, by simpa using free⟩

structure Orderly (entries : List ChildSpec) : Prop where
  wordy : ∀ entry ∈ entries, Wordy 8 20 entry.name
  distinct : entries.Pairwise fun a b => a.name ≠ b.name

theorem orderly_nil : Orderly [] := ⟨by simp, List.Pairwise.nil⟩

theorem always_drawEntries {base : Draw String} (wordy : Always base (Wordy 8 15)) (fuel : Nat)
    (kind : NodeKind) (count : Nat) (done : List ChildSpec) (orderly : Orderly done) :
    Always (drawEntries fuel base kind count done) fun entries =>
      Orderly entries ∧ ∀ entry ∈ entries, entry ∈ done ∨ (entry.kind = kind ∧ 0 < count) := by
  induction count generalizing done with
  | zero => exact always_pure ⟨orderly, fun entry member => Or.inl member⟩
  | succ count ih =>
    refine always_bind wordy fun b plain => ?_
    refine always_bind (always_freeName plain done fuel b (plain.weaken (by omega) (by omega)))
      fun name free => ?_
    have next : Orderly (⟨name, kind⟩ :: done) := by
      constructor
      · intro entry member
        rcases List.mem_cons.mp member with rfl | later
        · exact free.1
        · exact orderly.wordy entry later
      · refine List.Pairwise.cons ?_ orderly.distinct
        intro other member same
        have taken : isTaken done name = true :=
          List.any_eq_true.mpr ⟨other, member, by simpa using same.symm⟩
        rw [free.2] at taken
        cases taken
    refine always_mono (ih _ next) fun entries result => ⟨result.1, fun entry member => ?_⟩
    rcases result.2 entry member with found | new
    · rcases List.mem_cons.mp found with rfl | later
      · exact Or.inr ⟨rfl, by omega⟩
      · exact Or.inl later
    · exact Or.inr ⟨new.1, by omega⟩

theorem orderly_reverse {entries : List ChildSpec} (orderly : Orderly entries) :
    Orderly entries.reverse := by
  constructor
  · intro entry member
    exact orderly.wordy entry (List.mem_reverse.mp member)
  · exact List.pairwise_reverse.mpr (orderly.distinct.imp Ne.symm)

theorem always_drawCounts (fuel : Nat) (p : Parameters) (depth : UInt32) :
    Always (drawCounts fuel p depth) fun counts => p.maxDepth ≤ depth → counts.1 = 0 := by
  unfold drawCounts
  split
  · have none : Always (Pure.pure 0 : Draw UInt32) (· = 0) := always_pure rfl
    refine always_bind none fun n zero => ?_
    exact always_bind (always_any _) fun files _ => always_pure fun _ => zero
  · rename_i room
    refine always_bind (always_any _) fun n _ => always_bind (always_any _) fun files _ => ?_
    exact always_pure fun deep => absurd deep room

theorem always_draw (fuel : Nat) (p : Parameters) (depth : UInt32) :
    Always (draw fuel p depth) fun entries =>
      Orderly entries ∧ ∀ entry ∈ entries, entry.kind = .folder → ¬ p.maxDepth ≤ depth := by
  unfold draw
  refine always_bind (always_drawCounts fuel p depth) fun counts zero => ?_
  have base : Always (folderBase fuel) (Wordy 8 15) :=
    always_mono (always_folderBase fuel) fun name wordy => wordy.weaken (by omega) (by omega)
  refine always_bind (always_drawEntries base fuel .folder _ [] orderly_nil) fun done first => ?_
  refine always_bind (always_drawEntries (always_fileBase fuel) fuel .file _ done first.1)
    fun entries second => always_pure ⟨orderly_reverse second.1, ?_⟩
  intro entry member folder deep
  rcases second.2 entry (List.mem_reverse.mp member) with early | ⟨file, _⟩
  · rcases first.2 entry early with none | ⟨_, some⟩
    · cases none
    · simp [zero deep] at some
  · rw [folder] at file
    cases file

variable {fuel : Nat} {p : Parameters} {path : String} {depth : UInt32} {specs : List ChildSpec}

theorem generate?_orderly (drawn : generate? fuel p path depth = some specs) : Orderly specs := by
  obtain ⟨⟨entries, j⟩, found, rfl⟩ := Option.map_eq_some_iff.mp drawn
  exact (always_draw fuel p depth _ _ _ _ found).1

theorem generate?_folder_above (drawn : generate? fuel p path depth = some specs)
    {spec : ChildSpec} (member : spec ∈ specs) (folder : spec.kind = .folder) :
    depth < p.maxDepth := by
  obtain ⟨⟨entries, j⟩, found, rfl⟩ := Option.map_eq_some_iff.mp drawn
  exact UInt32.not_le.mp ((always_draw fuel p depth _ _ _ _ found).2 spec member folder)

theorem generate?_isName (drawn : generate? fuel p path depth = some specs) {spec : ChildSpec}
    (member : spec ∈ specs) : Path.IsName spec.name :=
  ((generate?_orderly drawn).wordy spec member).isName (by decide)

theorem generate?_short (drawn : generate? fuel p path depth = some specs) {spec : ChildSpec}
    (member : spec ∈ specs) : (utf8 spec.name).length ≤ 80 := by
  have count := ((generate?_orderly drawn).wordy spec member).2.2.2
  have bytes := length_utf8_le spec.name
  omega

end Children

end SeedTree
