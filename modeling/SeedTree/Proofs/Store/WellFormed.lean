import SeedTree.Proofs.Store.Calls

/- A store between operations. Every record hangs below the root: its folder is recorded, is a
   folder and has its children in the store. Only files have a checksum or an upload. -/
namespace SeedTree.Store

def HoldsOpen (s : Store) (folder : String) : Prop :=
  ∃ above, s.record? folder = some above ∧ above.isFolder = true ∧ above.generated = true

structure WellFormed (scope : Scope) (p : Parameters) (s : Store) : Prop where
  regular : s.Regular scope p
  root : ∃ n, s.record? Path.root = some n
  parented : ∀ n folder, s.Holds n → n.parent = some folder → s.HoldsOpen folder
  plain : ∀ n, s.Holds n → n.isFolder = true → n.checksum = none ∧ n.upload = none

variable {scope : Scope} {p : Parameters} {s : Store} {n m : Node}

theorem WellFormed.holds (wf : s.WellFormed scope p) {path : String}
    (found : s.record? path = some n) : s.Holds n ∧ n.path = path :=
  ⟨wf.regular.sound.holds found, (wf.regular.sound.proper found).2⟩

theorem WellFormed.shaped (wf : s.WellFormed scope p) (holds : s.Holds n) : n.Shaped p.seed :=
  (wf.regular.sound.proper holds).1.shaped

theorem Regular.parent_join (regular : s.Regular scope p) {folder name : String}
    (normal : Path.IsNormal folder) (named : Path.IsName name)
    (found : s.record? (Path.join folder name) = some n) : n.parent = some folder := by
  obtain ⟨proper, path⟩ := regular.sound.proper found
  rw [proper.shaped.parent, path, Path.parent?_join normal named]

theorem WellFormed.parent_join (wf : s.WellFormed scope p) {folder name : String}
    (normal : Path.IsNormal folder) (named : Path.IsName name)
    (found : s.record? (Path.join folder name) = some n) : n.parent = some folder :=
  wf.regular.parent_join normal named found

theorem WellFormed.below_join (wf : s.WellFormed scope p) {folder name : String}
    (normal : Path.IsNormal folder) (named : Path.IsName name)
    (found : s.record? (Path.join folder name) = some n) : n.parent ≠ none := by
  rw [wf.parent_join normal named found]
  exact Option.some_ne_none folder

theorem WellFormed.absent_below (wf : s.WellFormed scope p) {folder name : String}
    (normal : Path.IsNormal folder) (named : Path.IsName name) (shut : ¬ s.HoldsOpen folder) :
    s.record? (Path.join folder name) = none := by
  cases found : s.record? (Path.join folder name) with
  | none => rfl
  | some n =>
    exact absurd (wf.parented n folder (wf.holds found).1 (wf.parent_join normal named found)) shut

theorem Regular.find?_children (regular : s.Regular scope p) {folder name : String}
    (normal : Path.IsNormal folder) (named : Path.IsName name) {children : List Node}
    (members : ∀ n, n ∈ children ↔ s.Holds n ∧ n.parent = some folder) :
    children.find? (·.name = name) = s.record? (Path.join folder name) := by
  have place : ∀ n ∈ children, n.path = Path.join folder n.name := by
    intro n member
    obtain ⟨holds, below⟩ := (members n).mp member
    exact ((regular.sound.proper holds).1.shaped.join below).2.2
  cases found : s.record? (Path.join folder name) with
  | none =>
    refine List.find?_eq_none.mpr fun n member same => ?_
    have holds := ((members n).mp member).1
    have absent : s.record? n.path = none := by
      rw [place n member, of_decide_eq_true same, found]
    rw [holds] at absent
    cases absent
  | some n =>
    obtain ⟨proper, path⟩ := regular.sound.proper found
    have member : n ∈ children :=
      (members n).mpr ⟨regular.sound.holds found, regular.parent_join normal named found⟩
    have own : n.name = name := by
      rw [proper.shaped.name, path, Path.fileName_join normal named]
    cases first : children.find? (·.name = name) with
    | none =>
      have missed := List.find?_eq_none.mp first n member
      simp [own] at missed
    | some k =>
      have present := List.mem_of_find?_eq_some first
      have same : k.name = name := by simpa using List.find?_some first
      have equal : s.record? k.path = some n := by rw [place k present, same, found]
      rw [((members k).mp present).1] at equal
      exact equal

theorem not_holdsOpen_of_fresh (holds : s.Holds n) (fresh : n.generated = false) :
    ¬ s.HoldsOpen n.path := by
  rintro ⟨above, found, _, generated⟩
  cases Holds.unique holds found
  rw [fresh] at generated
  cases generated

theorem not_holdsOpen_of_file (holds : s.Holds n) (file : n.isFolder = false) :
    ¬ s.HoldsOpen n.path := by
  rintro ⟨above, found, isFolder, _⟩
  cases Holds.unique holds found
  rw [file] at isFolder
  cases isFolder

theorem not_holdsOpen_of_absent {path : String} (absent : s.record? path = none) :
    ¬ s.HoldsOpen path := by
  rintro ⟨above, found, _⟩
  rw [absent] at found
  cases found

theorem WellFormed.insertNode (wf : s.WellFormed scope p) (proper : n.Proper scope p)
    (absent : s.record? n.path = none) {folder : String} (below : n.parent = some folder)
    (above : s.HoldsOpen folder)
    (plain : n.isFolder = true → n.checksum = none ∧ n.upload = none) :
    (s.insertNode n).WellFormed scope p := by
  have holds := fun k => holds_insertNode (m := k) proper absent
  have stays : ∀ path k, s.record? path = some k → (s.insertNode n).record? path = some k := by
    intro path k found
    exact record?_insertNode_of_some proper absent found
  have opens : ∀ path, s.HoldsOpen path → (s.insertNode n).HoldsOpen path := by
    rintro path ⟨k, found, rest⟩
    exact ⟨k, stays path k found, rest⟩
  refine ⟨wf.regular.insertNode proper absent, ?_, ?_, ?_⟩
  · obtain ⟨k, found⟩ := wf.root
    exact ⟨k, stays _ k found⟩
  · intro k host stands at_
    rcases (holds k).mp stands with rfl | old
    · rw [below] at at_
      cases at_
      exact opens folder above
    · exact opens host (wf.parented k host old at_)
  · intro k stands isFolder
    rcases (holds k).mp stands with rfl | old
    · exact plain isFolder
    · exact wf.plain k old isFolder

theorem WellFormed.replaced (wf : s.WellFormed scope p) (present : s.Holds n)
    (proper : m.Proper scope p) (keeps : Change.Keeps n m)
    (plain : m.isFolder = true → m.checksum = none ∧ m.upload = none) :
    (s.replaced m).WellFormed scope p := by
  have opens : ∀ path, s.HoldsOpen path → (s.replaced m).HoldsOpen path := by
    rintro path ⟨k, found, isFolder, generated⟩
    rw [HoldsOpen, record?_replaced proper]
    by_cases here : path = m.path
    · have same : k = n := Holds.unique found (by rw [here, keeps.place.path]; exact present)
      rw [if_pos here]
      refine ⟨m, rfl, ?_, keeps.generated ?_⟩
      · rw [keeps.isFolder, ← same]
        exact isFolder
      · rw [← same]
        exact generated
    · rw [if_neg here]
      exact ⟨k, found, isFolder, generated⟩
  refine ⟨wf.regular.replaced present proper keeps.place, ?_, ?_, ?_⟩
  · obtain ⟨k, found⟩ := wf.root
    exact found_replaced proper found
  · intro k host stands below
    rcases holds_replaced proper stands with rfl | old
    · rw [keeps.place.parent] at below
      exact opens host (wf.parented n host present below)
    · exact opens host (wf.parented k host old below)
  · intro k stands isFolder
    rcases holds_replaced proper stands with rfl | old
    · exact plain isFolder
    · exact wf.plain k old isFolder

theorem WellFormed.eraseNode (wf : s.WellFormed scope p) (present : s.Holds n) {folder : String}
    (below : n.parent = some folder) (empty : ∀ k, s.Holds k → k.parent ≠ some n.path) :
    (s.eraseNode n.path n).WellFormed scope p := by
  have holds := fun k => holds_eraseNode s n k
  refine ⟨wf.regular.eraseNode present, ?_, ?_, ?_⟩
  · obtain ⟨k, found⟩ := wf.root
    rw [record?_eraseNode, if_neg]
    · exact ⟨k, found⟩
    · intro top
      have none := (wf.shaped present).parent_eq_none_iff.mpr top.symm
      rw [below] at none
      cases none
  · intro k host stands at_
    obtain ⟨old, _⟩ := (holds k).mp stands
    obtain ⟨above, found, rest⟩ := wf.parented k host old at_
    refine ⟨above, ?_, rest⟩
    rw [record?_eraseNode, if_neg]
    · exact found
    · intro same
      rw [same] at at_
      exact empty k old at_
  · intro k stands isFolder
    exact wf.plain k ((holds k).mp stands).1 isFolder

end SeedTree.Store
