import SeedTree.Proofs.Children.Names

/- What a generated folder holds: folders and then files, as many of each as the parameters allow,
   with names of two shapes that are all different. -/
namespace SeedTree

namespace Parameters

variable {p : Parameters} (accepted : p.check = .ok ())

include accepted

theorem folders_ordered : p.minFolders ≤ p.maxFolders := by
  unfold check at accepted
  split at accepted
  · cases accepted
  · split at accepted
    · cases accepted
    · rename_i ordered
      exact UInt32.not_lt.mp ordered

theorem files_ordered : p.minFiles ≤ p.maxFiles := by
  unfold check at accepted
  split at accepted
  · cases accepted
  · split at accepted
    · cases accepted
    · split at accepted
      · cases accepted
      · rename_i ordered
        exact UInt32.not_lt.mp ordered

end Parameters

namespace Children

open Draw

structure Listing (p : Parameters) (depth : UInt32) (folders files : List ChildSpec) : Prop where
  folder : ∀ entry ∈ folders, entry.kind = .folder ∧ FolderName entry.name
  file : ∀ entry ∈ files, entry.kind = .file ∧ FileName entry.name
  none_below : p.maxDepth ≤ depth → folders = []
  folder_count : depth < p.maxDepth →
    p.minFolders.toNat ≤ folders.length ∧ folders.length ≤ p.maxFolders.toNat
  file_count : p.minFiles.toNat ≤ files.length ∧ files.length ≤ p.maxFiles.toNat
  distinct : (folders ++ files).Pairwise fun a b => a.name ≠ b.name
  named : ∀ entry ∈ folders ++ files, Path.IsName entry.name

structure Counted (p : Parameters) (depth : UInt32) (counts : UInt32 × UInt32) : Prop where
  none_below : p.maxDepth ≤ depth → counts.1 = 0
  folders : depth < p.maxDepth → p.minFolders ≤ counts.1 ∧ counts.1 ≤ p.maxFolders
  files : p.minFiles ≤ counts.2 ∧ counts.2 ≤ p.maxFiles

variable {p : Parameters} {depth : UInt32} {fuel count : Nat}
  {kind : NodeKind} {done : List ChildSpec}

theorem always_drawCounts_within (accepted : p.check = .ok ()) :
    Always (drawCounts fuel p depth) (Counted p depth) := by
  have files : Always (range fuel p.minFiles p.maxFiles) fun n => p.minFiles ≤ n ∧ n ≤ p.maxFiles :=
    always_range (Parameters.files_ordered accepted)
  unfold drawCounts
  split
  · rename_i deep
    have none : Always (Pure.pure 0 : Draw UInt32) (· = 0) := always_pure rfl
    refine always_bind none fun n zero => always_bind files fun k bounds => ?_
    exact always_pure ⟨fun _ => zero, fun room => absurd deep (UInt32.not_le.mpr room), bounds⟩
  · rename_i room
    refine always_bind (always_range (Parameters.folders_ordered accepted)) fun n bounds => ?_
    refine always_bind files fun k bounds' => ?_
    exact always_pure ⟨fun deep => absurd deep room, fun _ => bounds, bounds'⟩

theorem always_freeName_form {base candidate : String} (form : candidate ∈ forms base) :
    Always (freeName base done fuel candidate) (· ∈ forms base) := by
  induction fuel generalizing candidate with
  | zero => exact always_none
  | succ fuel ih =>
    unfold freeName
    split
    · have drawn : Always suffix fun s => ∃ n < 16 ^ 4, s = quad n := by
        rintro ws i _ j ⟨⟩
        have bound := (ws i).toNat_lt
        have power : twoTo 16 = 65536 := rfl
        exact ⟨_, by rw [power]; omega, rfl⟩
      refine always_bind drawn ?_
      rintro s ⟨n, small, rfl⟩
      exact ih (mem_forms_iff.mpr (Or.inr ⟨n, small, rfl⟩))
    · exact always_pure form

/-- Entries of one kind whose names are forms of names from a pool. -/
def Drawn (kind : NodeKind) (bases : List String) (entries : List ChildSpec) : Prop :=
  ∀ entry ∈ entries, entry.kind = kind ∧ ∃ base ∈ bases, entry.name ∈ forms base

theorem always_drawEntries_drawn {base : Draw String} {bases : List String}
    (pooled : Always base (· ∈ bases)) :
    Always (drawEntries fuel base kind count done) fun entries =>
      ∃ new, entries = new ++ done ∧ new.length = count ∧ Drawn kind bases new := by
  induction count generalizing done with
  | zero => exact always_pure ⟨[], rfl, rfl, fun _ none => absurd none List.not_mem_nil⟩
  | succ count ih =>
    refine always_bind pooled fun b member => ?_
    refine always_bind (always_freeName_form (mem_forms_self b)) fun name form => ?_
    refine always_mono ih ?_
    rintro _ ⟨new, rfl, rfl, drawn⟩
    refine ⟨new ++ [⟨name, kind⟩], List.append_cons .., by simp, fun entry present => ?_⟩
    rcases List.mem_append.mp present with later | first
    · exact drawn entry later
    · rw [List.mem_singleton.mp first]
      exact ⟨rfl, b, member, form⟩

theorem draw_parts {ws : Words} {i j : Nat} {entries : List ChildSpec}
    (drawn : draw fuel p depth ws i = some (entries, j)) : ∃ counts folders files,
      (∃ k, drawCounts fuel p depth ws i = some (counts, k)) ∧ entries = folders ++ files ∧
        folders.length = counts.1.toNat ∧ files.length = counts.2.toNat ∧
        Drawn .folder folderBases folders ∧ Drawn .file fileBases files := by
  obtain ⟨counts, k, counted, drawn⟩ := bind_eq_some.mp drawn
  obtain ⟨early, l, folderDraw, drawn⟩ := bind_eq_some.mp drawn
  obtain ⟨all, m, fileDraw, drawn⟩ := bind_eq_some.mp drawn
  cases drawn
  obtain ⟨folders, rfl, many, first⟩ :=
    always_drawEntries_drawn (always_folderBase_mem fuel) _ _ _ _ folderDraw
  obtain ⟨files, rfl, many', second⟩ :=
    always_drawEntries_drawn (always_fileBase_mem fuel) _ _ _ _ fileDraw
  exact ⟨counts, folders.reverse, files.reverse, ⟨k, counted⟩, by simp, by simpa using many,
    by simpa using many', fun entry member => first entry (List.mem_reverse.mp member),
    fun entry member => second entry (List.mem_reverse.mp member)⟩

theorem always_draw_listing (accepted : p.check = .ok ()) :
    Always (draw fuel p depth) fun entries =>
    ∃ folders files, entries = folders ++ files ∧ Listing p depth folders files := by
  intro ws i entries j drawn
  have orderly := (always_draw fuel p depth ws i entries j drawn).1
  obtain ⟨counts, folders, files, ⟨_, counted⟩, rfl, many, many', first, second⟩ := draw_parts drawn
  have counted := always_drawCounts_within accepted _ _ _ _ counted
  refine ⟨folders, files, rfl, ?_, ?_, ?_, ?_, ?_, orderly.distinct, fun entry member =>
    (orderly.wordy entry member).isName (by decide)⟩
  · intro entry member
    obtain ⟨kind, base, pooled, form⟩ := first entry member
    exact ⟨kind, folderName_of_form pooled form⟩
  · intro entry member
    obtain ⟨kind, base, pooled, form⟩ := second entry member
    exact ⟨kind, fileName_of_form pooled form⟩
  · intro deep
    rw [counted.none_below deep] at many
    exact List.eq_nil_of_length_eq_zero many
  · intro room
    rw [many]
    exact (counted.folders room).imp UInt32.le_iff_toNat_le.mp UInt32.le_iff_toNat_le.mp
  · rw [many']
    exact counted.files.imp UInt32.le_iff_toNat_le.mp UInt32.le_iff_toNat_le.mp

/-- Whatever words a folder's entries are drawn from, its own among them, once they have been drawn
they are folders and then files as the parameters allow, and their names are names, different and of
the shape of their kind. -/
theorem drawn_entries_listed (accepted : p.check = .ok ()) (depth : UInt32) :
    (∀ fuel ws i entries j, draw fuel p depth ws i = some (entries, j) →
      ∃ folders files, entries = folders ++ files ∧ Listing p depth folders files) ∧
    ∀ fuel path entries, generate? fuel p path depth = some entries →
      ∃ folders files, entries = folders ++ files ∧ Listing p depth folders files := by
  refine ⟨fun fuel ws i entries j drawn => always_draw_listing accepted ws i entries j drawn,
    fun fuel path entries generated => ?_⟩
  obtain ⟨⟨_, j⟩, drawn, rfl⟩ := Option.map_eq_some_iff.mp generated
  exact always_draw_listing accepted _ _ _ _ drawn

/-- Words that stay the same for a while, so that a suffix is drawn several times over. -/
def slowWords : Words := fun i => UInt32.ofNat (i / 14 * twoTo 16)

def crowded : Parameters := { minFolders := 2, maxFolders := 2, minFiles := 3, maxFiles := 3 }

def crowdedEntries : List ChildSpec :=
  [⟨"amber_amber", .folder⟩, ⟨"amber_amber-0000", .folder⟩, ⟨"amber.txt", .file⟩,
    ⟨"amber-0001.txt", .file⟩, ⟨"amber-0002.txt", .file⟩]

theorem crowded_listed : crowded.check = .ok () ∧ draw 8 crowded 0 slowWords 0 =
    some (crowdedEntries, 29) ∧
    ∃ folders files, crowdedEntries = folders ++ files ∧ Listing crowded 0 folders files := by
  have accepted : crowded.check = .ok () := by decide +kernel
  have drawn : draw 8 crowded 0 slowWords 0 = some (crowdedEntries, 29) := by decide +kernel
  exact ⟨accepted, drawn, (drawn_entries_listed accepted 0).1 _ _ _ _ _ drawn⟩

end Children

end SeedTree
