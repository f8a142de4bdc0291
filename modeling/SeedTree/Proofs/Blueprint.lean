import SeedTree.Proofs.Engine.Walks
import SeedTree.Proofs.Engine.Answering

/- The tree that a configuration describes, by functions that never see a store: what each folder
   holds, what each world shows of it, and what a walk and a listing answer. -/
namespace SeedTree

/-- A node without what it remembers of being read. -/
def Node.lasting (n : Node) : Node :=
  { n with updated := Moment.epoch, checksum := none, generated := false }

namespace Blueprint

def root (c : Config) : Node := Node.root (nodeIdOf c.parameters.seed Path.root) Moment.epoch

def size : NodeKind → UInt64
  | .folder => 0
  | .file => 1024

def child (c : Config) (folder : Node) (spec : ChildSpec) : Node where
  id := nodeIdOf c.parameters.seed (Path.join folder.path spec.name)
  path := Path.join folder.path spec.name
  name := spec.name
  parent := some folder.path
  depth := folder.depth + 1
  kind := spec.kind
  size := size spec.kind
  checksum := none
  updated := Moment.epoch
  existence := c.worlds.map fun world probability =>
    existsIn (nodeIdOf c.parameters.seed (Path.join folder.path spec.name)) world probability
  generated := false
  upload := none

def children (c : Config) (folder : Node) : Except Failure (List Node) :=
  match Children.generate? Draw.patience c.parameters folder.path folder.depth with
  | none => .error (.unending folder.path)
  | some specs => .ok ((specs.map (child c folder)).mergeSort fun a b =>
    (Bytes.order (utf8 a.name) (utf8 b.name)).isLE)

def child? (c : Config) (folder : Node) (name : String) : Except Failure (Option Node) :=
  (children c folder).map fun below => below.find? (·.name = name)

/-- Whether a world shows a node. The primary world shows everything, and every world shows the
root. -/
def shows (c : Config) (world : World) (n : Node) : Except Failure Bool :=
  match world with
  | .primary => .ok true
  | .named name =>
    if n.isRoot then .ok true
    else match c.worlds[name]? with
      | none => .error (.invalidConfig (.world (.unconfigured name)))
      | some probability => .ok (existsIn n.id name probability)

def walk (c : Config) (world : World) : List String → Node → Except Failure Node
  | [], here => .ok here
  | name :: more, here =>
    if !here.isFolder then .error (.notADirectory here.path)
    else (child? c here name).bind fun
      | none => .error (.missing (Path.join here.path name))
      | some child => (shows c world child).bind fun visible =>
        if visible then walk c world more child else .error (.missing (Path.join here.path name))

def shown (c : Config) (world : World) : List Node → Except Failure (List Node)
  | [] => .ok []
  | n :: more => (shows c world n).bind fun visible => (shown c world more).bind fun rest =>
    .ok (if visible then n :: rest else rest)

/-- The normalized path, if the world is known and the path can be read. -/
def accept (c : Config) (input : String) (world : World) : Except Failure String :=
  (((⟨c.worlds⟩ : WorldTable).check world).mapError fun fault => .invalidConfig (.world fault)).bind
    fun _ => (Path.normalize input).mapError Failure.invalidPath

def getNode (c : Config) (input : String) (world : World) : Except Failure Node :=
  (accept c input world).bind fun path => walk c world (Path.components path) (root c)

def listChildren (c : Config) (input : String) (world : World) : Except Failure (List Node) :=
  (getNode c input world).bind fun folder =>
    if !folder.isFolder then .error (.notFound (.folder folder.path))
    else (children c folder).bind (shown c world)

end Blueprint

section Distinct

variable {α : Type} {key : α → String} {xs ys : List α} {a : α}

theorem find?_of_distinct (distinct : xs.Pairwise fun a b => key a ≠ key b) (member : a ∈ xs) :
    xs.find? (fun other => key other = key a) = some a := by
  induction xs with
  | nil => cases member
  | cons x xs ih =>
    obtain ⟨apart, distinct⟩ := List.pairwise_cons.mp distinct
    rcases List.mem_cons.mp member with rfl | later
    · simp
    · rw [List.find?_cons_of_neg (by simpa using apart a later)]
      exact ih distinct later

theorem find?_of_perm (distinct : ys.Pairwise fun a b => key a ≠ key b) (perm : xs.Perm ys)
    (name : String) :
    xs.find? (fun other => key other = name) = ys.find? (fun other => key other = name) := by
  cases found : xs.find? (fun other => key other = name) with
  | none =>
    refine (List.find?_eq_none.mpr fun a member => ?_).symm
    exact List.find?_eq_none.mp found a (perm.mem_iff.mpr member)
  | some a =>
    have own : key a = name := by simpa using List.find?_some found
    rw [← own]
    exact (find?_of_distinct distinct (perm.mem_iff.mp (List.mem_of_find?_eq_some found))).symm

end Distinct

namespace Blueprint

/-- In the order of their names, none of which occurs twice. -/
def Sorted (nodes : List Node) : Prop :=
  nodes.Pairwise fun a b => Bytes.order (utf8 a.name) (utf8 b.name) = .lt

variable {c : Config} {folder : Node} {nodes others : List Node} {specs : List ChildSpec}

theorem Sorted.distinct (sorted : Sorted nodes) : nodes.Pairwise fun a b => a.name ≠ b.name := by
  refine sorted.imp ?_
  intro a b before same
  have equal : Bytes.order (utf8 b.name) (utf8 b.name) = .eq := Std.ReflCmp.compare_self
  rw [same, equal] at before
  cases before

theorem Sorted.ext (sorted : Sorted nodes) (sorted' : Sorted others)
    (same : ∀ n ∈ nodes ++ others, nodes.find? (·.name = n.name) = others.find? (·.name = n.name)) :
    nodes = others := by
  have nodup : ∀ {ns : List Node}, Sorted ns → ns.Nodup := fun ordered =>
    ordered.distinct.imp fun apart equal => apart (by rw [equal])
  have members : ∀ n, n ∈ nodes ↔ n ∈ others := by
    intro n
    constructor
    · intro member
      have found := find?_of_distinct sorted.distinct member
      rw [same n (List.mem_append_left _ member)] at found
      exact List.mem_of_find?_eq_some found
    · intro member
      have found := find?_of_distinct sorted'.distinct member
      rw [← same n (List.mem_append_right _ member)] at found
      exact List.mem_of_find?_eq_some found
  refine List.Perm.eq_of_pairwise ?_ sorted sorted'
    ((List.perm_ext_iff_of_nodup (nodup sorted) (nodup sorted')).mpr members)
  intro a b _ _ first last
  exact absurd last (Std.OrientedCmp.not_lt_of_lt first)

theorem children_drawn (drawn : Children.generate? Draw.patience c.parameters folder.path
    folder.depth = some specs) : ∃ nodes, children c folder = .ok nodes ∧
      nodes.Perm (specs.map (child c folder)) ∧ Sorted nodes := by
  let le := fun a b : Node => (Bytes.order (utf8 a.name) (utf8 b.name)).isLE
  have perm := List.mergeSort_perm (specs.map (child c folder)) le
  refine ⟨(specs.map (child c folder)).mergeSort le, by rw [children, drawn], perm, ?_⟩
  have total : ∀ a b, (le a b || le b a) = true := by
    intro a b
    have turned : le b a = (Bytes.order (utf8 a.name) (utf8 b.name)).isGE :=
      Std.OrientedCmp.isGE_eq_isLE.symm
    rw [turned]
    change ((Bytes.order (utf8 a.name) (utf8 b.name)).isLE || _) = true
    cases Bytes.order (utf8 a.name) (utf8 b.name) <;> rfl
  have ordered : ((specs.map (child c folder)).mergeSort le).Pairwise fun a b => le a b = true :=
    List.pairwise_mergeSort (fun _ _ _ => Std.TransCmp.isLE_trans) total _
  have named : (specs.map (child c folder)).Pairwise fun a b => a.name ≠ b.name :=
    List.pairwise_map.mpr (Children.generate?_orderly drawn).distinct
  have apart := (perm.pairwise_iff fun differ => Ne.symm differ).mpr named
  refine (ordered.and apart).imp ?_
  rintro a b ⟨before, differ⟩
  rcases Ordering.isLE_iff_eq_lt_or_eq_eq.mp before with less | equal
  · exact less
  · exact absurd (utf8_injective (Std.LawfulEqCmp.eq_of_compare equal)) differ

theorem child?_unending (unending : Children.generate? Draw.patience c.parameters folder.path
    folder.depth = none) (name : String) : child? c folder name =
      .error (.unending folder.path) := by
  rw [child?, children, unending]
  rfl

theorem child?_drawn (drawn : Children.generate? Draw.patience c.parameters folder.path
    folder.depth = some specs) (name : String) :
    child? c folder name = .ok ((specs.find? (·.name = name)).map (child c folder)) := by
  obtain ⟨nodes, found, perm, _⟩ := children_drawn drawn
  have named : (specs.map (child c folder)).Pairwise fun a b => a.name ≠ b.name :=
    List.pairwise_map.mpr (Children.generate?_orderly drawn).distinct
  rw [child?, found, Except.map, find?_of_perm named perm name, List.find?_map]
  rfl

end Blueprint

end SeedTree
