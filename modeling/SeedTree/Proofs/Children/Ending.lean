import Mathlib.Data.List.Perm.Subperm
import SeedTree.Proofs.Children.Listing

/- Whether drawing a folder's entries ends. A name that is taken is drawn again with a suffix, and
   there are finitely many suffixes: on a sequence in which every word keeps coming drawing ends
   unless a base name is drawn when all its forms are taken, and it never ends where there must be
   more entries than names. -/
namespace SeedTree

namespace Children

open Draw

variable {ws : Words} {base : Nat → Draw String} {bases : List String}
  {kind : NodeKind} {fuel count i j k : Nat} {done new entries : List ChildSpec} {b name : String}

/-- Every form of a base name is taken. -/
def Spent (done : List ChildSpec) (base : String) : Prop :=
  ∀ name ∈ forms base, isTaken done name = true

/-- The drawing of so many entries comes to a base name that is spent. -/
inductive RunsOut (base : Nat → Draw String) (kind : NodeKind) (ws : Words) :
    Nat → List ChildSpec → Nat → Prop where
  | spent {count i j : Nat} {done : List ChildSpec} {b : String} (drawn : Reaches base ws i b j)
      (spent : Spent done b) : RunsOut base kind ws (count + 1) done i
  | later {count i j k : Nat} {done : List ChildSpec} {b name : String}
    (drawn : Reaches base ws i b j)
      (named : Reaches (fun fuel => freeName b done fuel b) ws j name k)
      (rest : RunsOut base kind ws count (⟨name, kind⟩ :: done) k) :
      RunsOut base kind ws (count + 1) done i

def Ends (p : Parameters) (depth : UInt32) (ws : Words) : Prop :=
  ∃ entries j, Reaches (fun fuel => draw fuel p depth) ws 0 entries j

/-- A base name is drawn, of a folder or of a file, when all its forms are taken. -/
def Exhausts (p : Parameters) (depth : UInt32) (ws : Words) : Prop :=
  ∃ counts j, Reaches (fun fuel => drawCounts fuel p depth) ws 0 counts j ∧
    (RunsOut folderBase .folder ws counts.1.toNat [] j ∨
      ∃ folders k, Reaches
        (fun fuel => drawEntries fuel (folderBase fuel) .folder counts.1.toNat []) ws j
        folders k ∧ RunsOut fileBase .file ws counts.2.toNat folders k)

section Fuel

theorem steady_pick (pool : List String) : Steady fun fuel => pick fuel pool :=
  steady_map (steady_index _) fun i => pool.getD i ""

theorem steady_folderBase : Steady folderBase :=
  steady_bind (steady_pick _) fun first =>
    steady_map (steady_pick _) fun second => first ++ "_" ++ second

theorem steady_fileBase : Steady fileBase :=
  steady_bind (steady_pick _) fun stem =>
    steady_map (steady_pick _) fun extension => stem ++ "." ++ extension

theorem steady_freeName (base : String) (done : List ChildSpec) (candidate : String) :
    Steady fun fuel => freeName base done fuel candidate := by
  intro fuel
  induction fuel generalizing candidate with
  | zero =>
    intro more ws i answer _ drawn
    cases drawn
  | succ fuel ih =>
    rintro more ws i ⟨name, k⟩ le drawn
    obtain ⟨more, rfl⟩ : ∃ n, more = n + 1 := ⟨more - 1, by omega⟩
    simp only [freeName] at drawn ⊢
    split
    · rename_i taken
      rw [if_pos taken] at drawn
      obtain ⟨s, j, first, rest⟩ := bind_eq_some.mp drawn
      exact bind_eq_some.mpr ⟨s, j, first, ih _ more ws j _ (by omega) rest⟩
    · rename_i free
      rw [if_neg free] at drawn
      exact drawn

theorem steady_drawEntries (steady : Steady base) (kind : NodeKind) (count : Nat)
    (done : List ChildSpec) : Steady fun fuel => drawEntries fuel (base fuel) kind count done := by
  induction count generalizing done with
  | zero => exact steady_free _
  | succ count ih =>
    exact steady_bind steady fun b => steady_bind (steady_freeName b done b) fun name => ih _

theorem steady_drawCounts (p : Parameters) (depth : UInt32) : Steady fun fuel =>
    drawCounts fuel p depth := by
  have files (n : UInt32) := steady_map (steady_range p.minFiles p.maxFiles) fun k => (n, k)
  unfold drawCounts
  exact steady_ite (steady_bind (steady_free _) files) (steady_bind (steady_range _ _) files)

end Fuel

section Naming

variable {candidate : String}

theorem freeName_of_free (free : isTaken done candidate = false) :
    freeName b done (fuel + 1) candidate ws i = some (candidate, i) := by
  rw [freeName.eq_def]
  simp only [free, Bool.false_eq_true, if_false]
  rfl

theorem freeName_of_taken (taken : isTaken done candidate = true) :
    freeName b done (fuel + 1) candidate ws i
      = freeName b done fuel (withSuffix b (quad ((ws i).toNat / twoTo 16))) ws (i + 1) := by
  rw [freeName.eq_def]
  simp only [taken, if_true]
  rfl

theorem always_freeName_free :
    Always (freeName b done fuel candidate) (isTaken done · = false) := by
  induction fuel generalizing candidate with
  | zero => exact always_none
  | succ fuel ih =>
    unfold freeName
    split
    · exact always_bind (always_any _) fun s _ => ih
    · rename_i free
      exact always_pure (by simpa using free)

theorem not_spent_of_freeName (named : Reaches (fun fuel => freeName b done fuel b) ws j name k) :
    ¬ Spent done b := by
  obtain ⟨fuel, drawn⟩ := named
  have form := always_freeName_form (mem_forms_self b) ws j name k drawn
  have free : isTaken done name = false := always_freeName_free ws j name k drawn
  intro spent
  rw [spent name form] at free
  cases free

theorem reaches_freeName_later (distance : Nat)
    (free : isTaken done (withSuffix b (quad ((ws (i + distance)).toNat / twoTo 16))) = false) :
    ∃ name k, Reaches (fun fuel => freeName b done fuel candidate) ws i name k := by
  cases taken : isTaken done candidate with
  | false => exact ⟨candidate, i, 1, freeName_of_free taken⟩
  | true =>
    induction distance generalizing i candidate with
    | zero => exact ⟨_, i + 1, 2, (freeName_of_taken taken).trans (freeName_of_free free)⟩
    | succ distance ih =>
      have onward : i + 1 + distance = i + (distance + 1) := by omega
      cases next : isTaken done (withSuffix b (quad ((ws i).toNat / twoTo 16))) with
      | false => exact ⟨_, i + 1, 2, (freeName_of_taken taken).trans (freeName_of_free next)⟩
      | true =>
        obtain ⟨name, k, fuel, drawn⟩ := ih (onward ▸ free) next
        exact ⟨name, k, fuel + 1, (freeName_of_taken taken).trans drawn⟩

theorem reaches_freeName (fair : Fair ws) (left : ¬ Spent done b) :
    ∃ name k, Reaches (fun fuel => freeName b done fuel b) ws i name k := by
  obtain ⟨name, form, free⟩ : ∃ name ∈ forms b, isTaken done name = false := by
    simpa [Spent] using left
  rcases mem_forms_iff.mp form with rfl | ⟨n, small, rfl⟩
  · exact ⟨name, i, 1, freeName_of_free free⟩
  · obtain ⟨k, coming⟩ := fair i (UInt32.ofNat (n * twoTo 16))
    have number : (UInt32.ofNat (n * twoTo 16)).toNat / twoTo 16 = n := by
      have power : twoTo 16 = 65536 := rfl
      have size : UInt32.size = 4294967296 := rfl
      rw [power, UInt32.toNat_ofNat_of_lt' (by omega)]
      omega
    refine reaches_freeName_later (2 * k) ?_
    rw [coming, number]
    exact free

end Naming

section Reaching

variable (steady : Steady base)

include steady

theorem reaches_drawEntries :
    Reaches (fun fuel => drawEntries fuel (base fuel) kind (count + 1) done) ws i entries k ↔
    ∃ b j name l, Reaches base ws i b j ∧ Reaches (fun fuel => freeName b done fuel b) ws j name l ∧
      Reaches (fun fuel => drawEntries fuel (base fuel) kind count (⟨name, kind⟩ :: done)) ws
        l entries k := by
  have inner (b : String) : Steady fun fuel => freeName b done fuel b >>= fun name =>
      drawEntries fuel (base fuel) kind count (⟨name, kind⟩ :: done) :=
    steady_bind (steady_freeName b done b) fun name => steady_drawEntries steady kind count _
  refine (reaches_bind steady inner).trans ⟨?_, ?_⟩
  · rintro ⟨b, j, drawn, rest⟩
    obtain ⟨name, l, named, rest⟩ := (reaches_bind (steady_freeName b done b) fun name =>
      steady_drawEntries steady kind count (⟨name, kind⟩ :: done)).mp rest
    exact ⟨b, j, name, l, drawn, named, rest⟩
  · rintro ⟨b, j, name, l, drawn, named, rest⟩
    exact ⟨b, j, drawn, (reaches_bind (steady_freeName b done b) fun name =>
      steady_drawEntries steady kind count (⟨name, kind⟩ :: done)).mpr ⟨name, l, named, rest⟩⟩

theorem RunsOut.not_reaches (out : RunsOut base kind ws count done i) :
    ¬ Reaches (fun fuel => drawEntries fuel (base fuel) kind count done) ws i entries k := by
  induction out generalizing entries k with
  | @spent _ _ _ done b drawn spent =>
    intro reaches
    obtain ⟨b', _, name, _, drawn', named, _⟩ := (reaches_drawEntries steady).mp reaches
    obtain ⟨rfl, rfl⟩ := drawn.unique steady drawn'
    exact not_spent_of_freeName named spent
  | @later _ _ _ _ done b name drawn named rest ih =>
    intro reaches
    obtain ⟨b', _, name', _, drawn', named', more⟩ := (reaches_drawEntries steady).mp reaches
    obtain ⟨rfl, rfl⟩ := drawn.unique steady drawn'
    obtain ⟨rfl, rfl⟩ := named.unique (steady_freeName b done b) named'
    exact ih more

theorem reaches_drawEntries_of_fair (fair : Fair ws) (based : ∀ i, ∃ b j, Reaches base ws i b j)
    (left : ¬ RunsOut base kind ws count done i) :
    ∃ entries k, Reaches (fun fuel => drawEntries fuel (base fuel) kind count done) ws
      i entries k := by
  induction count generalizing done i with
  | zero => exact ⟨done, i, reaches_free rfl⟩
  | succ count ih =>
    obtain ⟨b, j, drawn⟩ := based i
    obtain ⟨name, l, named⟩ := reaches_freeName (i := j) fair fun spent => left (.spent drawn spent)
    obtain ⟨entries, k, rest⟩ := ih fun out => left (.later drawn named out)
    exact ⟨entries, k, (reaches_drawEntries steady).mpr ⟨b, j, name, l, drawn, named, rest⟩⟩

end Reaching

section Counting

theorem not_runsOut_of_room (done new : List ChildSpec)
    (pooled : ∀ fuel, Always (base fuel) (· ∈ bases))
    (apart : ∀ entry ∈ done, ∀ b ∈ bases, entry.name ∉ forms b)
    (room : new.length + count ≤ 65537) : ¬ RunsOut base kind ws count (new ++ done) i := by
  induction count generalizing new i with
  | zero => rintro ⟨⟩
  | succ count ih =>
    intro out
    cases out with
    | @spent _ _ j _ b drawn spent =>
      obtain ⟨fuel, drawn⟩ := drawn
      have member := pooled fuel ws i b j drawn
      have used : forms b ⊆ new.map ChildSpec.name := by
        intro name form
        obtain ⟨entry, present, same⟩ := List.any_eq_true.mp (spent name form)
        have same : entry.name = name := by simpa using same
        rcases List.mem_append.mp present with recent | early
        · exact List.mem_map.mpr ⟨entry, recent, same⟩
        · exact absurd (same ▸ form) (apart entry early b member)
      have least := ((nodup_forms b).subperm used).length_le
      rw [length_forms, List.length_map] at least
      omega
    | later drawn named rest => exact ih (_ :: new) (by simp only [List.length_cons]; omega) rest

theorem length_le_of_drawn (drawn : Drawn kind bases entries)
    (distinct : entries.Pairwise fun a b => a.name ≠ b.name) :
    entries.length ≤ bases.length * 65537 := by
  have nodup : (entries.map ChildSpec.name).Nodup := List.pairwise_map.mpr distinct
  have within : entries.map ChildSpec.name ⊆ bases.flatMap forms := by
    intro name member
    obtain ⟨entry, present, rfl⟩ := List.mem_map.mp member
    obtain ⟨_, b, pooled, form⟩ := drawn entry present
    exact List.mem_flatMap.mpr ⟨b, pooled, form⟩
  have least := (nodup.subperm within).length_le
  have total : (bases.flatMap forms).length = bases.length * 65537 := by
    simp [List.length_flatMap, length_forms]
  rwa [List.length_map, total] at least

end Counting

section Folder

variable {p : Parameters} {depth : UInt32}

theorem reaches_pick (fair : Fair ws) (i : Nat) {pool : List String} (most : pool.length ≤ 32)
    (room : twoTo 37 ≤ zone 64 pool.length) :
    ∃ word j, Reaches (fun fuel => pick fuel pool) ws i word j := by
  obtain ⟨n, j, drawn⟩ := reaches_index fair i most room
  exact ⟨_, j, drawn.map fun n => pool.getD n ""⟩

theorem reaches_picks (fair : Fair ws) (i : Nat) (pool pool' : List String)
    (most : pool.length ≤ 32) (room : twoTo 37 ≤ zone 64 pool.length) (most' : pool'.length ≤ 32)
    (room' : twoTo 37 ≤ zone 64 pool'.length) (put : String → String → String) :
    ∃ b j, Reaches (fun fuel => do
      let first ← pick fuel pool
      let second ← pick fuel pool'
      return put first second) ws i b j := by
  obtain ⟨first, j, drawn⟩ := reaches_pick fair i most room
  obtain ⟨second, k, drawn'⟩ := reaches_pick fair j most' room'
  exact ⟨put first second, k,
    (reaches_bind (steady_pick pool) fun first => steady_map (steady_pick pool')
    (put first)).mpr ⟨first, j, drawn, drawn'.map (put first)⟩⟩

theorem reaches_folderBase (fair : Fair ws) (i : Nat) : ∃ b j, Reaches folderBase ws i b j :=
  reaches_picks fair i words words (by decide) (by decide) (by decide) (by decide)
    fun first second => first ++ "_" ++ second

theorem reaches_fileBase (fair : Fair ws) (i : Nat) : ∃ b j, Reaches fileBase ws i b j :=
  reaches_picks fair i words extensions (by decide) (by decide) (by decide) (by decide)
    fun stem extension => stem ++ "." ++ extension

theorem reaches_drawCounts (fair : Fair ws) (p : Parameters) (depth : UInt32) :
    ∃ counts j, Reaches (fun fuel => drawCounts fuel p depth) ws 0 counts j := by
  by_cases deep : p.maxDepth ≤ depth
  · obtain ⟨k, j, drawn⟩ := reaches_range fair 0 p.minFiles p.maxFiles
    refine ⟨(0, k), j, ?_⟩
    simp only [drawCounts, if_pos deep]
    exact drawn.map fun k => (0, k)
  · obtain ⟨n, i, first⟩ := reaches_range fair 0 p.minFolders p.maxFolders
    obtain ⟨k, j, drawn⟩ := reaches_range fair i p.minFiles p.maxFiles
    refine ⟨(n, k), j, ?_⟩
    simp only [drawCounts, if_neg deep]
    exact (reaches_bind (steady_range _ _) fun n => steady_map (steady_range _ _) (Prod.mk n)).mpr
      ⟨n, i, first, drawn.map (Prod.mk n)⟩

theorem reaches_draw : Reaches (fun fuel => draw fuel p depth) ws 0 entries k ↔
    ∃ counts j folders l files, Reaches (fun fuel => drawCounts fuel p depth) ws 0 counts j ∧
      Reaches (fun fuel => drawEntries fuel (folderBase fuel) .folder counts.1.toNat [])
        ws j folders l ∧
      Reaches (fun fuel => drawEntries fuel
        (fileBase fuel) .file counts.2.toNat folders) ws l files k ∧
      entries = files.reverse := by
  have last (n : Nat) (folders : List ChildSpec) :=
    steady_map (steady_drawEntries steady_fileBase .file n folders) List.reverse
  have middle (counts : UInt32 × UInt32) :=
    steady_bind (steady_drawEntries steady_folderBase .folder counts.1.toNat [])
      (last counts.2.toNat)
  refine (reaches_bind (steady_drawCounts p depth) middle).trans ⟨?_, ?_⟩
  · rintro ⟨counts, j, counted, rest⟩
    obtain ⟨folders, l, first, rest⟩ := (reaches_bind
      (steady_drawEntries steady_folderBase _ _ _) (last counts.2.toNat)).mp rest
    obtain ⟨files, second, same⟩ := reaches_map.mp rest
    exact ⟨counts, j, folders, l, files, counted, first, second, same⟩
  · rintro ⟨counts, j, folders, l, files, counted, first, second, rfl⟩
    exact ⟨counts, j, counted, (reaches_bind (steady_drawEntries steady_folderBase _ _ _)
      (last counts.2.toNat)).mpr ⟨folders, l, first, second.map List.reverse⟩⟩

theorem ends_iff_not_exhausts (fair : Fair ws) : Ends p depth ws ↔ ¬ Exhausts p depth ws := by
  constructor
  · rintro ⟨entries, k, drawn⟩ ⟨counts, j, counted, out⟩
    obtain ⟨counts', j', folders, l, files, counted', first, second, _⟩ := reaches_draw.mp drawn
    obtain ⟨rfl, rfl⟩ := counted.unique (steady_drawCounts p depth) counted'
    rcases out with out | ⟨folders', l', first', out⟩
    · exact out.not_reaches steady_folderBase first
    · obtain ⟨rfl, rfl⟩ := first.unique (steady_drawEntries steady_folderBase _ _ _) first'
      exact out.not_reaches steady_fileBase second
  · intro left
    obtain ⟨counts, j, counted⟩ := reaches_drawCounts fair p depth
    obtain ⟨folders, l, first⟩ := reaches_drawEntries_of_fair steady_folderBase fair
      (reaches_folderBase fair) fun out => left ⟨counts, j, counted, Or.inl out⟩
    obtain ⟨files, k, second⟩ := reaches_drawEntries_of_fair steady_fileBase fair
      (reaches_fileBase fair) fun out => left ⟨counts, j, counted, Or.inr ⟨folders, l, first, out⟩⟩
    exact ⟨_, k, reaches_draw.mpr ⟨counts, j, folders, l, files, counted, first, second, rfl⟩⟩

theorem not_exhausts_of_few (accepted : p.check = .ok ()) (folders : p.maxFolders.toNat ≤ 65537)
    (files : p.maxFiles.toNat ≤ 65537) : ¬ Exhausts p depth ws := by
  rintro ⟨counts, j, ⟨fuel, counted⟩, out⟩
  have counted := always_drawCounts_within accepted _ _ _ _ counted
  have few : counts.1.toNat ≤ 65537 := by
    by_cases deep : p.maxDepth ≤ depth
    · rw [counted.none_below deep]
      decide
    · exact Nat.le_trans
        (UInt32.le_iff_toNat_le.mp (counted.folders (UInt32.not_le.mp deep)).2) folders
  have few' : counts.2.toNat ≤ 65537 :=
    Nat.le_trans (UInt32.le_iff_toNat_le.mp counted.files.2) files
  rcases out with out | ⟨done, k, ⟨fuel', drawn⟩, out⟩
  · exact not_runsOut_of_room [] [] always_folderBase_mem
      (fun _ none => absurd none List.not_mem_nil) (by simpa using few) out
  · refine not_runsOut_of_room _ [] always_fileBase_mem (fun entry member b pooled form => ?_)
      (by simpa using few') out
    obtain ⟨new, rfl, _, made⟩ :=
      always_drawEntries_drawn (always_folderBase_mem fuel') _ _ _ _ drawn
    rw [List.append_nil] at member
    obtain ⟨_, folderBase, pooled', form'⟩ := made entry member
    exact (folderName_of_form pooled' form').plain (fileName_of_form pooled form).dotted

/-- There are names for 1024 * 65537 folders and for 192 * 65537 files. -/
theorem counts_of_drawn {fuel i j : Nat} (drawn : draw fuel p depth ws i = some (entries, j)) :
    ∃ counts, (∃ k, drawCounts fuel p depth ws i = some (counts, k)) ∧
      entries.length = counts.1.toNat + counts.2.toNat ∧
      counts.1.toNat ≤ 1024 * 65537 ∧ counts.2.toNat ≤ 192 * 65537 := by
  have distinct := (always_draw fuel p depth ws i entries j drawn).1.distinct
  obtain ⟨counts, folders, files, counted, rfl, many, many', first, second⟩ := draw_parts drawn
  obtain ⟨apart, apart', _⟩ := List.pairwise_append.mp distinct
  have most := length_le_of_drawn first apart
  have most' := length_le_of_drawn second apart'
  rw [many, length_folderBases] at most
  rw [many', length_fileBases] at most'
  exact ⟨counts, counted, by rw [List.length_append, many, many'], most, most'⟩

theorem counts_le_of_drawn (accepted : p.check = .ok ()) {fuel i j : Nat}
    (drawn : draw fuel p depth ws i = some (entries, j)) :
    p.minFiles.toNat ≤ 192 * 65537 ∧ (depth < p.maxDepth → p.minFolders.toNat ≤ 1024 * 65537) := by
  obtain ⟨counts, ⟨_, counted⟩, _, most, most'⟩ := counts_of_drawn drawn
  have counted := always_drawCounts_within accepted _ _ _ _ counted
  exact ⟨Nat.le_trans (UInt32.le_iff_toNat_le.mp counted.files.1) most',
    fun room => Nat.le_trans (UInt32.le_iff_toNat_le.mp (counted.folders room).1) most⟩

/-- Where every word keeps coming, drawing ends unless a base name is drawn when its 65537 forms are
taken; so it ends where no more entries of a kind are allowed than that. Where more folders or files
are asked for than there are names for them it does not end in any folder. -/
theorem drawing_ends_iff (accepted : p.check = .ok ()) (fair : Fair ws) (depth : UInt32) :
    (Ends p depth ws ↔ ¬ Exhausts p depth ws) ∧
      (p.maxFolders.toNat ≤ 65537 → p.maxFiles.toNat ≤ 65537 → Ends p depth ws) ∧
      (192 * 65537 < p.minFiles.toNat ∨ depth < p.maxDepth ∧ 1024 * 65537 < p.minFolders.toNat →
        (∀ words, ¬ Ends p depth words) ∧ ∀ path fuel, generate? fuel p path depth = none) := by
  refine ⟨ends_iff_not_exhausts fair, fun folders files =>
    (ends_iff_not_exhausts fair).mpr (not_exhausts_of_few accepted folders files), fun many => ?_⟩
  have never : ∀ words fuel, draw fuel p depth words 0 = none := by
    intro words fuel
    cases drawn : draw fuel p depth words 0 with
    | none => rfl
    | some answer =>
      obtain ⟨least, least'⟩ := counts_le_of_drawn accepted drawn
      rcases many with files | ⟨room, folders⟩
      · exact absurd least (Nat.not_le.mpr files)
      · exact absurd (least' room) (Nat.not_le.mpr folders)
  refine ⟨?_, fun path fuel => ?_⟩
  · rintro words ⟨entries, j, fuel, drawn⟩
    cases (never words fuel).symm.trans drawn
  · rw [generate?, never]
    rfl

def countingWords : Words := fun i => UInt32.ofNat (i / 2)

theorem countingWords_fair : Fair countingWords := by
  intro i w
  have bound := w.toNat_lt
  refine ⟨w.toNat + (2 ^ 32 - i / 2 % 2 ^ 32), UInt32.toNat_inj.mp ?_⟩
  rw [countingWords, UInt32.toNat_ofNat']
  omega

/-- One file more than there are names for files. -/
def overfull : Parameters := { minFiles := 12583105, maxFiles := 12583105 }

theorem overfull_never_ends : overfull.check = .ok () ∧ Fair countingWords ∧
    Ends {} 0 countingWords ∧ ∀ path fuel, generate? fuel overfull path 1 = none := by
  have accepted : overfull.check = .ok () := by decide +kernel
  have accepted' : Parameters.check {} = .ok () := by decide +kernel
  exact ⟨accepted, countingWords_fair,
    (drawing_ends_iff accepted' countingWords_fair 0).2.1 (by decide) (by decide),
    ((drawing_ends_iff accepted countingWords_fair 1).2.2 (Or.inl (by decide))).2⟩

end Folder

end Children

end SeedTree
