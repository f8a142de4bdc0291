import SeedTree.Engine
import SeedTree.Proofs.Node.Shape

/- The nodes that an engine puts into a store: the root, what a folder generates, and what is made
   by hand. All are proper. -/
namespace SeedTree

def WorldTable.Within (scope : Scope) (t : WorldTable) : Prop :=
  ∀ name, name ∈ t.entries → name ∈ scope.worlds

namespace WorldTable

variable {scope : Scope} {t : WorldTable}

theorem mem_map_iff {α β : Type} (f : String → α → β) (m : NameMap α) (name : String) :
    name ∈ m.map f ↔ name ∈ m := by
  rw [mem_iff_getElem?_some, mem_iff_getElem?_some, NameMap.getElem?_map]
  constructor
  · rintro ⟨b, found⟩
    obtain ⟨a, present, _⟩ := Option.map_eq_some_iff.mp found
    exact ⟨a, present⟩
  · rintro ⟨a, present⟩
    exact ⟨f name a, by rw [present]; rfl⟩

theorem Within.decideAll (within : t.Within scope) (id : NodeId) :
    ∀ world, world ∈ t.decideAll id → world ∈ scope.worlds :=
  fun world member => within world ((mem_map_iff _ _ _).mp member)

theorem Within.onlyIn (within : t.Within scope) (home : World) :
    ∀ world, world ∈ t.onlyIn home → world ∈ scope.worlds :=
  fun world member => within world ((mem_map_iff _ _ _).mp member)

end WorldTable

namespace Node

variable {scope : Scope} {p : Parameters} {folder : Node} {name : String} {kind : NodeKind}
  {existence : NameMap Bool} {time : Moment}

theorem proper_root (valid : time.isValid = true) :
    (root (nodeIdOf p.seed Path.root) time).Proper scope p where
  fits := fits_root valid
  shaped := shaped_root time
  shallow := by
    intro _ _
    change (utf8 Path.root).length ≤ 1 + 81 * (Path.components Path.root).length ∧
      (Path.components Path.root).length ≤ p.maxDepth.toNat
    have slash : (utf8 Path.root).length = 1 := by decide +kernel
    rw [Path.components_root, slash]
    exact ⟨Nat.le_refl _, Nat.zero_le _⟩

theorem short_generated (proper : folder.Proper scope p) (isFolder : folder.isFolder = true)
    (fresh : folder.generated = false) (small : (utf8 name).length ≤ 80) :
    (utf8 (Path.join folder.path name)).length
      ≤ 1 + 81 * ((Path.components folder.path).length + 1) ∧
      (Path.components folder.path).length ≤ p.maxDepth.toNat := by
  obtain ⟨bytes, deep⟩ := proper.shallow isFolder fresh
  have joined := Path.length_utf8_join_le folder.path name
  exact ⟨by omega, deep⟩

theorem proper_child (proper : folder.Proper scope p) (named : Path.IsName name)
    (short : IsShort (Path.join folder.path name)) (valid : time.isValid = true)
    (worlds : ∀ world, world ∈ existence → world ∈ scope.worlds) {generated : Bool}
    {upload : Option Digest} (complete : kind = .folder → generated = true) :
    ({ child (nodeIdOf p.seed (Path.join folder.path name)) folder name kind existence time with
        generated := generated, upload := upload } : Node).Proper scope p := by
  have fits : (child (nodeIdOf p.seed (Path.join folder.path name)) folder name kind existence
    time).Fits scope := fits_child short valid worlds
  have shaped := shaped_child proper.shaped named kind existence time
  refine ⟨{ fits with }, { shaped with }, fun isFolder fresh => ?_⟩
  have done := complete (isFolder_iff.mp isFolder)
  rw [show generated = false from fresh] at done
  cases done

end Node

namespace Materializer

variable {scope : Scope} {m : Materializer} {folder : Node} {time : Moment} {spec : ChildSpec}
  {specs : List ChildSpec}

@[simp] theorem generatedChild_path :
    (m.generatedChild folder time spec).path = Path.join folder.path spec.name := rfl

def specs? (m : Materializer) (folder : Node) : Option (List ChildSpec) :=
  Children.generate? Draw.patience m.parameters folder.path folder.depth

theorem specs?_congr {other : Node} (path : other.path = folder.path)
    (depth : other.depth = folder.depth) : m.specs? other = m.specs? folder := by
  rw [specs?, specs?, path, depth]

theorem generatedChild_congr {other : Node} (path : other.path = folder.path)
    (depth : other.depth = folder.depth) (time : Moment) :
    m.generatedChild other time = m.generatedChild folder time := by
  funext spec
  simp only [generatedChild, Node.child, path, depth]

theorem proper_generatedChild (within : m.worlds.Within scope)
    (proper : folder.Proper scope m.parameters) (isFolder : folder.isFolder = true)
    (fresh : folder.generated = false) (drawn : m.specs? folder = some specs)
    (member : spec ∈ specs) (valid : time.isValid = true) :
    (m.generatedChild folder time spec).Proper scope m.parameters := by
  have named := Children.generate?_isName drawn member
  obtain ⟨bytes, deep⟩ := Node.short_generated proper isFolder fresh
    (Children.generate?_short drawn member)
  have bound := m.parameters.maxDepth.toNat_lt
  refine ⟨Node.fits_child ?_ valid (within.decideAll _),
    Node.shaped_child proper.shaped named _ _ _, ?_⟩
  · change (utf8 (Path.join folder.path spec.name)).length < 2 ^ 64
    omega
  · intro below _
    have kind : spec.kind = .folder := Node.isFolder_iff.mp below
    have room := Children.generate?_folder_above drawn member kind
    rw [proper.shaped.depth, UInt32.lt_iff_toNat_lt, UInt32.toNat_ofNat'] at room
    have count : (Path.components (Path.join folder.path spec.name)).length
        = (Path.components folder.path).length + 1 := by
      rw [Path.components_join proper.shaped.normal named, List.length_append]
      rfl
    change (utf8 (Path.join folder.path spec.name)).length
      ≤ 1 + 81 * (Path.components (Path.join folder.path spec.name)).length ∧
      (Path.components (Path.join folder.path spec.name)).length ≤ m.parameters.maxDepth.toNat
    rw [count]
    refine ⟨bytes, ?_⟩
    have small : (Path.components folder.path).length % 2 ^ 32
        = (Path.components folder.path).length := Nat.mod_eq_of_lt (by omega)
    rw [small] at room
    omega

end Materializer

end SeedTree
