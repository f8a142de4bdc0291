import SeedTree.Proofs.Engine.Answering
import SeedTree.Proofs.Engine.Picture

/- What the operations answer and what they change, told from the picture of a store alone. -/
namespace SeedTree

def Node.revealed (n : Node) : World → Node
  | .primary => n
  | .named world => { n with existence := n.existence.insert world true }

def Node.uploaded (n : Node) (digest : Digest) : Node := { n with upload := some digest }

namespace Engine

def newFolder (e : Engine) (parent : Node) (world : World) (name : String) (time : Moment) : Node :=
  { e.madeByHand parent world name .folder time with generated := true }

def newFile (e : Engine) (parent : Node) (world : World) (name : String) (digest : Digest)
    (time : Moment) : Node :=
  { e.madeByHand parent world name .file time with upload := some digest }

/-- The folder that is made or revealed in a folder, by what lies there under its name. -/
def folderIn (e : Engine) (world : World) (name : String) (parent : Node) :
    Option Node → Except Failure Node
  | none => .ok (e.newFolder parent world name Moment.epoch)
  | some existing =>
    if existing.isFolder then (e.materializer.sees existing world).bind fun visible =>
      if visible then .error (.alreadyExists (Path.join parent.path name))
      else .ok (existing.revealed world)
    else .error (.alreadyExists (Path.join parent.path name))

def fileIn (e : Engine) (world : World) (name : String) (digest : Digest) (parent : Node) :
    Option Node → Except Failure Node
  | none => .ok (e.newFile parent world name digest Moment.epoch)
  | some existing =>
    if existing.isFolder then .error (.isADirectory (Path.join parent.path name))
    else .ok ((existing.uploaded digest).revealed world)

end Engine

namespace Picture

def folder (v : Picture) (m : Materializer) (world : World) (path : String) : Except Failure Node :=
  (v.resolve m world path).bind fun n =>
    if n.isFolder then .ok n else .error (.notADirectory n.path)

def host (v : Picture) (m : Materializer) (world : World) (input : String) : Except Failure Node :=
  ((Path.normalize input).mapError Failure.invalidPath).bind (v.folder m world)

def enter (v : Picture) (e : Engine) (input : String) (world : World) (name : String) :
    Except Failure (Node × Option Node) :=
  ((e.worlds.check world).mapError fun fault => .invalidConfig (.world fault)).bind fun _ =>
    ((Path.checkName name).mapError Failure.invalidPath).bind fun _ =>
      (v.host e.materializer world input).bind fun parent =>
        (v (Path.join parent.path name)).map fun found => (parent, found)

def createFolder (v : Picture) (e : Engine) (input : String) (world : World) (name : String) :
    Except Failure Node :=
  (v.enter e input world name).bind fun (parent, found) => e.folderIn world name parent found

def uploadFile (v : Picture) (e : Engine) (input : String) (world : World) (name : String)
    (data : Bytes) : Except Failure Node :=
  (v.enter e input world name).bind fun (parent, found) =>
    e.fileIn world name (sha256 data) parent found

def after (v : Picture) : Except Failure Node → Picture
  | .ok n => v.put n.path (some n)
  | .error _ => v

def createAlong (v : Picture) (e : Engine) (world : World) :
    List String → Node → Except Failure Node × Picture
  | [], here => (.ok here, v)
  | name :: more, here =>
    match v.resolve e.materializer world (Path.join here.path name) with
    | .ok n => if n.isFolder then createAlong v e world more n
      else (.error (.notADirectory n.path), v)
    | .error (.notFound _) =>
      match v.createFolder e here.path world name with
      | .ok n => createAlong (v.put n.path (some n)) e world more n
      | .error (.alreadyExists _) =>
        match v.folder e.materializer world (Path.join here.path name) with
        | .ok n => createAlong v e world more n
        | .error failure => (.error failure, v)
      | .error failure => (.error failure, v)
    | .error failure => (.error failure, v)

def createFolderAll (v : Picture) (e : Engine) (input : String) (world : World) :
    Except Failure Node × Picture :=
  match e.accept input world with
  | .ok path =>
    match v.resolve e.materializer world Path.root with
    | .ok root => v.createAlong e world (Path.components path) root
    | .error failure => (.error failure, v)
  | .error failure => (.error failure, v)

def Bare (v : Picture) (path : String) : Prop :=
  ∀ name, Path.IsName name → v (Path.join path name) = .ok none

open Classical in
/-- The node that a deletion removes. Any name tells whether the children of a folder can be
generated. -/
noncomputable def remove (v : Picture) (e : Engine) (input : String) (world : World) :
    Except Failure Node :=
  (e.accept input world).bind fun path =>
    if Path.isRoot path then .error (.invalidPath .rootDeletion)
    else (v.resolve e.materializer world path).bind fun n =>
      if n.isFolder then (v (Path.join n.path "a")).bind fun _ =>
        if v.Bare n.path then .ok n else .error (.notEmpty n.path)
      else .ok n

def without (v : Picture) : Except Failure Node → Picture
  | .ok n => v.put n.path none
  | .error _ => v

end Picture

variable {m : Materializer} {e : Engine} {scope : Scope} {s t u : Store} {n k parent shown : Node}
  {v next : Picture} {world : World} {name : String} {may : Deed → Prop}

theorem Materializer.sees_revealed (m : Materializer) (n : Node) (world other : World) :
    m.sees (n.revealed world) other = if world = other then .ok true else m.sees n other := by
  cases world with
  | primary =>
    split
    · rename_i same
      rw [← same]
      rfl
    · rfl
  | named name =>
    cases other with
    | primary => rw [if_neg (by simp)]; rfl
    | named other =>
      by_cases top : n.parent = none
      · have seen := m.sees_root (n := n.revealed (.named name)) top (.named other)
        rw [seen, m.sees_root top, ite_self]
      · have inner : (n.revealed (.named name)).parent ≠ none := top
        have decisions := getElem?_insert_ite n.existence name other true
        by_cases same : name = other
        · rw [if_pos same] at decisions
          rw [if_pos (congrArg World.named same), m.sees_decided inner decisions]
        · have apart : World.named name ≠ .named other := fun equal => same (World.named.inj equal)
          rw [if_neg same] at decisions
          rw [if_neg apart]
          cases found : n.existence[other]? with
          | none => rw [m.sees_open top found, m.sees_open inner (decisions.trans found)]; rfl
          | some decided =>
            rw [m.sees_decided top found, m.sees_decided inner (decisions.trans found)]

namespace Node.Like

theorem revealed (like : n.Like m k) (world : World) :
    (n.revealed world).Like m (k.revealed world) := by
  have decisions : ∀ other, m.sees (k.revealed world) other = m.sees (n.revealed world) other := by
    intro other
    rw [m.sees_revealed, m.sees_revealed, like.sees]
  cases world with
  | primary => exact like
  | named name =>
    exact ⟨{ like.place with }, like.depth, like.kind, like.size, like.upload, decisions⟩

theorem madeByHand (like : shown.Like m parent) (e : Engine) (world : World) (name : String)
    (kind : NodeKind) (time time' : Moment) :
    (e.madeByHand shown world name kind time).Like e.materializer
      (e.madeByHand parent world name kind time') := by
  unfold Engine.madeByHand Node.child
  rw [like.place.path, like.depth]
  exact ⟨⟨rfl, rfl, rfl, rfl⟩, rfl, rfl, rfl, rfl, fun _ => rfl⟩

theorem newFolder (like : shown.Like m parent) (e : Engine) (world : World) (name : String)
    (time time' : Moment) : (e.newFolder shown world name time).Like e.materializer
      (e.newFolder parent world name time') :=
  have made := like.madeByHand e world name .folder time time'
  { made with place := { made.place with } }

theorem newFile (like : shown.Like m parent) (e : Engine) (world : World) (name : String)
    (digest : Digest) (time time' : Moment) :
    (e.newFile shown world name digest time).Like e.materializer
      (e.newFile parent world name digest time') :=
  have made := like.madeByHand e world name .file time time'
  { made with place := { made.place with }, upload := rfl }

end Node.Like

/-- What an operation did with a picture before it: it took moves of its own, its answer and the
picture after it are as foreseen, and the node it answers was a record on the way. -/
structure Foreseen (m : Materializer) (scope : Scope) (may : Deed → Prop)
    (expected : Except Failure Node)
    (next : Picture) (s : Store) (result : Except Failure Node) (t : Store) : Prop where
  moves : Moves m scope may s t
  answer : Agree (Node.Like m) expected result
  depicts : m.Depicts next t
  stood : ∀ n, result = .ok n → ∃ u, Moves m scope may s u ∧ u.Holds n

namespace Foreseen

variable {expected result : Except Failure Node}

theorem failed {failure : Failure} (moves : Moves m scope may s t) (depicts : m.Depicts next t)
    (same : expected = .error failure) : Foreseen m scope may expected next s (.error failure) t :=
  ⟨moves, by rw [same]; rfl, depicts, fun _ ok => by cases ok⟩

theorem refused {failure : Failure} (moves : Moves m scope may s t) (depicts : m.Depicts v t)
    (same : expected = .error failure) :
    Foreseen m scope may expected (v.after expected) s (.error failure) t := by
  rw [same]
  exact failed moves depicts rfl

theorem settled (moves : Moves m scope may s t) (holds : t.Holds n) (like : shown.Like m n)
    (depicts : m.Depicts (v.put n.path (some shown)) t) :
    Foreseen m scope may (.ok shown) (v.after (.ok shown)) s (.ok n) t := by
  rw [like.place.path] at depicts
  refine ⟨moves, like, depicts, fun k same => ⟨t, moves, ?_⟩⟩
  cases same
  exact holds

theorem harmless (foreseen : Foreseen m scope may (.ok shown) next s result t) :
    ∀ failure, result = .error failure → Moves m scope Deed.Walks s t := by
  rintro failure rfl
  exact foreseen.answer.elim

theorem onward (before : Moves m scope may s t)
    (foreseen : Foreseen m scope may expected next t result u) :
    Foreseen m scope may expected next s result u := by
  refine ⟨before.append foreseen.moves, foreseen.answer, foreseen.depicts, ?_⟩
  intro n ok
  obtain ⟨w, moves, holds⟩ := foreseen.stood n ok
  exact ⟨w, before.append moves, holds⟩

end Foreseen

theorem Node.Like.kept {decider : String} (below : n.parent ≠ none)
    (kept : n.existence[decider]? = some true) : (n.revealed (.named decider)).Like m n := by
  refine ⟨⟨rfl, rfl, rfl, rfl⟩, rfl, rfl, rfl, rfl, fun other => ?_⟩
  rw [m.sees_revealed]
  split
  · rename_i same
    rw [← same, m.sees_decided below kept]
  · rfl

namespace Materializer.Depicts

variable (wf : s.WellFormed scope m.parameters) (depicts : m.Depicts v s)

include wf depicts

theorem bare_iff (holds : s.Holds n) (isFolder : n.isFolder = true) (ready : n.generated = true) :
    v.Bare n.path ↔ ∀ k, s.Holds k → k.parent ≠ some n.path := by
  have normal := (wf.shaped holds).normal
  have known := fun {name} (named : Path.IsName name) =>
    depicts.record wf normal named ⟨n, holds, isFolder, ready⟩
  constructor
  · intro bare k there below
    obtain ⟨_, named, place⟩ := (wf.shaped there).join below
    obtain ⟨found, shown, rel⟩ := known named
    rw [bare k.name named] at shown
    cases shown
    rw [← place, there] at rel
    cases rel
  · intro empty name named
    obtain ⟨found, shown, rel⟩ := known named
    rw [shown]
    cases there : s.record? (Path.join n.path name) with
    | none =>
      rw [there] at rel
      cases rel
      rfl
    | some k => exact absurd (wf.parent_join normal named there) (empty k (wf.holds there).1)

end Materializer.Depicts

end SeedTree
