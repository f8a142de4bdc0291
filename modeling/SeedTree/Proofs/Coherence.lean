import SeedTree.Proofs.Session

/- The exact contents of a store between turns of a session: what every record says follows from its
   path, it hangs below a folder whose children are in the store, and both indexes hold an entry for
   each record and nothing else. -/
namespace SeedTree

namespace Store

structure Coherent (seed : UInt64) (s : Store) : Prop where
  root : ∃ n, s.record? Path.root = some n
  keyed : ∀ key record, s.nodes[key]? = some record →
    ∃ n, Record.decode? record = some n ∧ key = utf8 n.path ∧ s.Holds n
  normalized : ∀ n, s.Holds n → Path.normalize n.path = .ok n.path
  placed : ∀ n, s.Holds n → n.parent = Path.parent? n.path ∧ n.name = Path.fileName n.path ∧
    n.depth = UInt32.ofNat (Path.components n.path).length ∧
    n.size = (if n.isFolder then 0 else 1024) ∧ n.id = nodeIdOf seed n.path
  parented : ∀ n, s.Holds n → n.path ≠ Path.root → ∃ folder, s.Holds folder ∧
    n.parent = some folder.path ∧ folder.isFolder = true ∧ folder.generated = true
  plain : ∀ n, s.Holds n → n.isFolder = true → n.checksum = none ∧ n.upload = none
  children : ∀ key value, s.children[key]? = some value ↔
    value = [] ∧ ∃ n folder, s.Holds n ∧ n.parent = some folder ∧
      key = utf8 folder ++ [0] ++ utf8 n.name

/-- The identity index leads from the identity of every record to its path, and holds nothing
else. -/
def Identified (s : Store) : Prop := ∀ key value, s.ids[key]? = some value ↔
  ∃ n, s.Holds n ∧ key = n.id.bytes ∧ value = utf8 n.path

variable {scope : Scope} {p : Parameters} {s : Store}

theorem WellFormed.coherent (wf : s.WellFormed scope p) : s.Coherent p.seed where
  root := wf.root
  keyed := by
    intro key record entry
    obtain ⟨n, proper, rfl, rfl⟩ := wf.regular.sound key record entry
    have read := Record.decode?_encode proper.fits []
    rw [List.append_nil] at read
    refine ⟨n, read, rfl, ?_⟩
    have stored := wf.regular.sound.nodes n.path
    have found := wf.regular.sound.get n.path
    rw [Store.get, entry] at found
    simp only [decode_encode proper.fits.storable] at found
    exact (Except.ok.inj found).symm
  normalized := fun n holds => (wf.shaped holds).normal
  placed := by
    intro n holds
    have shaped := wf.shaped holds
    refine ⟨shaped.parent, shaped.name, shaped.depth, ?_, shaped.id⟩
    rw [shaped.size]
    cases kind : n.kind with
    | folder => rw [if_pos (Node.isFolder_iff.mpr kind)]; rfl
    | file =>
      rw [if_neg (by rw [Node.not_isFolder_iff.mpr kind]; exact Bool.false_ne_true)]
      rfl
  parented := by
    intro n holds inner
    have shaped := wf.shaped holds
    obtain ⟨folder, below⟩ := Option.ne_none_iff_exists'.mp fun top =>
      inner (shaped.parent_eq_none_iff.mp top)
    obtain ⟨above, found, isFolder, ready⟩ := wf.parented n folder holds below
    obtain ⟨stands, path⟩ := wf.holds found
    exact ⟨above, stands, by rw [path]; exact below, isFolder, ready⟩
  plain := wf.plain
  children := by
    intro key value
    rw [wf.regular.indexed key value]
    refine and_congr_right fun _ => exists_congr fun n => ?_
    rw [indexKey?_eq_some_iff]
    simp

theorem WellFormed.identified (wf : s.WellFormed scope p) {paths : List String}
    (tracked : s.Tracked paths) : s.Identified := by
  intro key value
  constructor
  · intro entry
    obtain ⟨n, holds, id, path⟩ := wf.regular.pointed key value entry
    exact ⟨n, holds, id.symm, path⟩
  · rintro ⟨n, holds, rfl, rfl⟩
    exact tracked.entered n holds

end Store

namespace Session

variable {scope : Scope} {a : Session}

/-- After any turns the store is coherent. Its identity index is complete too, unless two paths of
the session share an identity. -/
theorem reached_coherent (reached : a.Reached scope) :
    a.store.Coherent a.engine.config.parameters.seed ∧
      (Store.Distinct a.engine.config.parameters.seed a.paths → a.store.Identified) := by
  have valid := reached.valid
  rw [valid.ready.config]
  exact ⟨valid.wellFormed.coherent, fun distinct =>
    valid.wellFormed.identified (valid.tracked distinct)⟩

theorem newFolder_coherent : newFolder.Reached .bare ∧ newFolder.store.Coherent 42 ∧
    newFolder.store.Identified := by
  have distinct : Store.Distinct newFolder.engine.config.parameters.seed newFolder.paths := by
    decide +kernel
  have known := reached_coherent newFolder_reached
  exact ⟨newFolder_reached, known.1, known.2 distinct⟩

end Session

end SeedTree
