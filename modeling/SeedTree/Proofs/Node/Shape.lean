import SeedTree.Proofs.Children
import SeedTree.Proofs.Node.Record

/- What every node says about itself: its path is normalized, and its name, folder, depth, size and
   identity follow from the path and the kind. -/
namespace SeedTree

structure Node.Shaped (seed : UInt64) (n : Node) : Prop where
  normal : Path.IsNormal n.path
  parent : n.parent = Path.parent? n.path
  name : n.name = Path.fileName n.path
  depth : n.depth = UInt32.ofNat (Path.components n.path).length
  size : n.size = n.kind.size
  id : n.id = nodeIdOf seed n.path
  root : n.parent = none → n.isFolder = true

/-- A folder whose children are still to be generated lies near the root. Names are generated with
at most 80 bytes, and folders only down to the greatest depth. -/
def Node.Shallow (p : Parameters) (n : Node) : Prop :=
  n.isFolder = true → n.generated = false →
    (utf8 n.path).length ≤ 1 + 81 * (Path.components n.path).length ∧
      (Path.components n.path).length ≤ p.maxDepth.toNat

structure Node.Proper (scope : Scope) (p : Parameters) (n : Node) : Prop where
  fits : n.Fits scope
  shaped : n.Shaped p.seed
  shallow : n.Shallow p

def Node.Placed (n : Node) : Prop :=
  ∀ folder, n.parent = some folder →
    Path.IsNormal folder ∧ Path.IsName n.name ∧ n.path = Path.join folder n.name

namespace Node

theorem isFolder_iff {n : Node} : n.isFolder = true ↔ n.kind = .folder := by simp [isFolder]

theorem not_isFolder_iff {n : Node} : n.isFolder = false ↔ n.kind = .file := by
  cases kind : n.kind <;> simp [isFolder, kind]

theorem isRoot_eq_false {n : Node} (below : n.parent ≠ none) : n.isRoot = false := by
  rw [isRoot, Option.isNone_eq_false_iff, Option.isSome_iff_ne_none]
  exact below

variable {scope : Scope} {seed : UInt64} {n : Node}

theorem Shaped.placed (shaped : n.Shaped seed) : n.Placed := by
  intro folder below
  rw [shaped.name]
  rcases shaped.normal.root_or_join with top | ⟨above, name, normal, valid, path⟩
  · rw [shaped.parent, top] at below
    cases below
  · rw [shaped.parent, path, Path.parent?_join normal valid] at below
    cases below
    rw [path, Path.fileName_join normal valid]
    exact ⟨normal, valid, rfl⟩

theorem Shaped.join (shaped : n.Shaped seed) {folder : String} (below : n.parent = some folder) :
    Path.IsNormal folder ∧ Path.IsName n.name ∧ n.path = Path.join folder n.name :=
  shaped.placed folder below

theorem Shaped.parent_eq_none_iff (shaped : n.Shaped seed) :
    n.parent = none ↔ n.path = Path.root := by
  constructor
  · intro none
    rcases shaped.normal.root_or_join with top | ⟨above, name, normal, valid, path⟩
    · exact top
    · rw [shaped.parent, path, Path.parent?_join normal valid] at none
      cases none
  · intro top
    rw [shaped.parent, top, Path.parent?_root]

theorem shaped_root (time : Moment) : (root (nodeIdOf seed Path.root) time).Shaped seed where
  normal := Path.isNormal_root
  parent := rfl
  name := Path.fileName_root.symm
  depth := by
    change 0 = UInt32.ofNat (Path.components Path.root).length
    rw [Path.components_root]
    rfl
  size := rfl
  id := rfl
  root := fun _ => rfl

theorem shaped_child {folder : Node} (shaped : folder.Shaped seed) {name : String}
    (valid : Path.IsName name) (kind : NodeKind) (existence : NameMap Bool) (time : Moment) :
    (child (nodeIdOf seed (Path.join folder.path name)) folder name kind existence time).Shaped
      seed where
  normal := Path.isNormal_join shaped.normal valid
  parent := (Path.parent?_join shaped.normal valid).symm
  name := (Path.fileName_join shaped.normal valid).symm
  depth := by
    change folder.depth + 1 = UInt32.ofNat (Path.components (Path.join folder.path name)).length
    rw [Path.components_join shaped.normal valid, shaped.depth, List.length_append,
      UInt32.ofNat_add]
    rfl
  size := rfl
  id := rfl
  root := by
    intro none
    cases none

theorem fits_root {id : NodeId} {time : Moment} (valid : time.isValid = true) :
    (root id time).Fits scope where
  path := by
    change (utf8 "/").length < 2 ^ 64
    decide +kernel
  name := by
    change (utf8 "").length < 2 ^ 64
    decide +kernel
  parent := by
    intro folder same
    cases same
  checksum := by
    intro text same
    cases same
  updated := valid
  worlds := by
    intro world member
    exact absurd member Std.ExtTreeMap.not_mem_empty

theorem fits_child {id : NodeId} {folder : Node} {name : String} {kind : NodeKind}
    {existence : NameMap Bool} {time : Moment} (short : IsShort (Path.join folder.path name))
    (valid : time.isValid = true) (worlds : ∀ world, world ∈ existence → world ∈ scope.worlds) :
    (child id folder name kind existence time).Fits scope where
  path := short
  name := Nat.lt_of_le_of_lt (Path.length_utf8_join_ge folder.path name).2 short
  parent := by
    intro above same
    cases same
    exact Nat.lt_of_le_of_lt (Path.length_utf8_join_ge folder.path name).1 short
  checksum := by
    intro text same
    cases same
  updated := valid
  worlds := worlds

end Node

end SeedTree
