import Mathlib.Data.List.Forall2
import SeedTree.Proofs.Blueprint
import SeedTree.Proofs.Engine.Making

/- Every operation on a path answers as the picture of the store foretells, and leaves the picture
   that it foretells. -/
namespace SeedTree

structure Node.StandsFor (m : Materializer) (drawn n : Node) : Prop where
  like : drawn.Like m n
  undecided : n.RootUndecided

namespace Picture

def getNode (v : Picture) (e : Engine) (input : String) (world : World) : Except Failure Node :=
  (e.accept input world).bind (v.resolve e.materializer world)

/-- The children of a folder, by what lies under each name in it. -/
inductive Gathers (v : Picture) (m : Materializer) (folder : Node) :
    Except Failure (List Node) → Prop where
  | unending {failure : Failure}
      (unending : ∀ name, Path.IsName name → v (Path.join folder.path name) = .error failure) :
      Gathers v m folder (.error failure)
  | children {children : List Node} (sorted : Blueprint.Sorted children)
      (named : ∀ n ∈ children, Path.IsName n.name)
      (shown : ∀ name, Path.IsName name → Agree (Option.Rel (Node.StandsFor m))
        (v (Path.join folder.path name)) (.ok (children.find? (·.name = name)))) :
      Gathers v m folder (.ok children)

def Lists (v : Picture) (e : Engine) (input : String) (world : World)
    (result : Except Failure (List Node)) : Prop :=
  match v.getNode e input world with
  | .error failure => result = .error failure
  | .ok folder =>
    if folder.isFolder then ∃ found, v.Gathers e.materializer folder found ∧
      result = found.bind (e.materializer.visibles world)
    else result = .error (.notFound (.folder folder.path))

def checksum (v : Picture) (e : Engine) (input : String) (world : World) : Except Failure String :=
  (v.getNode e input world).bind fun n =>
    if n.isFolder then .error (.isADirectory n.path) else .ok (checksumOf (e.content n))

/-- What an operation on a path answers when a store has this picture, and the picture of the store
it leaves. -/
def Foretells (v : Picture) (e : Engine) :
    (r : Operation) → Except Failure r.Answer → Picture → Prop
  | .getNode input world, result, next =>
    Agree (Node.StandsFor e.materializer) (v.getNode e input world) result ∧ next = v
  | .listChildren input world, result, next => v.Lists e input world result ∧ next = v
  | .createFolder input world name, result, next =>
    Agree (Node.StandsFor e.materializer) (v.createFolder e input world name) result ∧
      next = v.after (v.createFolder e input world name)
  | .createFolderAll input world, result, next =>
    Agree (Node.StandsFor e.materializer) (v.createFolderAll e input world).1 result ∧
      next = (v.createFolderAll e input world).2
  | .uploadFile input world name data, result, next =>
    Agree (Node.StandsFor e.materializer) (v.uploadFile e input world name data) result ∧
      next = v.after (v.uploadFile e input world name data)
  | .deleteNode input world, result, next =>
    Agree (fun _ _ => True) (v.remove e input world) result ∧
      next = v.without (v.remove e input world)
  | .checksum input world, result, next => result = v.checksum e input world ∧ next = v
  | .readContent _, _, _ => False
  | .readRange .., _, _ => False

end Picture

namespace Operation

def ByPath : Operation → Prop
  | .readContent _ | .readRange .. => False
  | _ => True

def Sums : Operation → Prop
  | .checksum .. => True
  | _ => False

end Operation

variable {e : Engine} {m : Materializer} {scope : Scope} {s t : Store}
  {n k : Node} {held : List String}
  {input : String} {world : World} {r : Operation} {v next : Picture}

theorem Agree.and {α β : Type} {first second : α → β → Prop} {x : Except Failure α}
    {y : Except Failure β} (agree : Agree first x y)
    (also : ∀ a b, y = .ok b → first a b → second a b) : Agree second x y := by
  cases x <;> cases y <;> simp only [Agree] at agree ⊢
  · exact agree
  · exact also _ _ rfl agree

theorem Agree.eq {α : Type} {x y : Except Failure α} (agree : Agree Eq x y) : x = y := by
  cases x <;> cases y <;> simp only [Agree] at agree <;> rw [agree]

theorem content_of_like (e : Engine) (like : n.Like m k) : e.content k = e.content n := by
  rw [Engine.content, Engine.content, like.place.id, like.upload]

section Answering

variable (wf : s.WellFormed scope e.materializer.parameters)
  (ready : e.Ready scope e.materializer.parameters) (depicts : e.materializer.Depicts v s)
  (clear : s.Obeys Node.RootUndecided)

include wf

theorem Materializer.Depicts.getNode (depicts : e.materializer.Depicts v s) (input : String)
    (world : World) :
    Agree (Node.Like e.materializer) (v.getNode e input world)
      ((e.accept input world).bind fun path => e.materializer.resolved s world path) := by
  unfold Picture.getNode
  cases accepted : e.accept input world with
  | error failure => rfl
  | ok path =>
    exact depicts.resolve wf world (Path.normalize_isNormal (Engine.accept_ok_iff.mp accepted).2)

include ready clear

theorem Seen.standsFor {drawn shown : Node} (seen : Seen e.materializer scope s t shown n)
    (like : drawn.Like e.materializer shown) : drawn.StandsFor e.materializer n := by
  obtain ⟨u, before, holds, _, alike⟩ := seen
  exact ⟨like.trans alike.like, before.obeys (undecided_rule scope _) ready.within wf clear n holds⟩

theorem Foreseen.answers {expected result : Except Failure Node}
    (foreseen : Foreseen e.materializer scope may expected next s result t) :
    Agree (Node.StandsFor e.materializer) expected result := by
  refine foreseen.answer.and fun drawn n ok like => ?_
  obtain ⟨u, moves, holds⟩ := foreseen.stood n ok
  exact ⟨like, moves.obeys (undecided_rule scope _) ready.within wf clear n holds⟩

include depicts

theorem Walked.foretold {result : Except Failure Node} (walked : Walked e.materializer scope s
      ((e.accept input world).bind fun path => e.materializer.resolved s world path) result t) :
    Agree (Node.StandsFor e.materializer) (v.getNode e input world) result := by
  refine Agree.trans ?_ (depicts.getNode wf input world) walked.answer
  intro drawn shown n like seen
  exact Seen.standsFor wf ready clear seen like

theorem Listed.foretold {path : String} {result : Except Failure (List Node)}
    (accepted : e.accept input world = .ok path)
    (listed : Listed e.materializer scope s world path t result) :
    v.Lists e input world result := by
  have normal := Path.normalize_isNormal (Engine.accept_ok_iff.mp accepted).2
  have pictured := depicts.getNode wf input world
  rw [accepted] at pictured
  simp only [Except.bind] at pictured
  have inside : ∀ shown, e.materializer.resolved s world path = .ok shown →
      shown.isFolder = true → ∀ name, Path.IsName name →
        Agree (Option.Rel (Node.Like e.materializer))
        (v (Path.join shown.path name)) (e.materializer.lookup s shown name) := by
    intro shown resolved isFolder name named
    have place := wf.resolved_path normal resolved
    obtain ⟨top, root⟩ := wf.root
    rw [Materializer.resolved, root] at resolved
    have here : e.materializer.shows s path = .ok (some shown) := by
      rw [e.materializer.shows_root root, Materializer.view_of_walk resolved]
    have known := depicts _ (Path.isNormal_join normal named)
    rw [wf.shows_join normal named, here] at known
    simp only [Except.bind, isFolder, if_true] at known
    rw [place]
    exact known
  unfold Picture.Lists
  cases listed with
  | hidden resolved =>
    rw [resolved] at pictured
    rw [pictured.eq_error]
  | file resolved isFile =>
    rw [resolved] at pictured
    obtain ⟨drawn, found, like⟩ := pictured.of_ok
    rw [found]
    simp only [like.isFolder.symm.trans isFile, Bool.false_eq_true, if_false, like.place.path]
  | unending resolved isFolder unending =>
    rw [resolved] at pictured
    obtain ⟨drawn, found, like⟩ := pictured.of_ok
    rw [found]
    simp only [like.isFolder.symm.trans isFolder, if_true]
    refine ⟨_, .unending fun name named => ?_, rfl⟩
    have known := inside _ resolved isFolder name named
    rw [unending name named, like.place.path] at known
    exact known.eq_error
  | folder resolved isFolder contents =>
    rw [resolved] at pictured
    obtain ⟨drawn, found, like⟩ := pictured.of_ok
    rw [found]
    simp only [like.isFolder.symm.trans isFolder, if_true]
    refine ⟨_, .children contents.sorted contents.named fun name named => ?_, rfl⟩
    rw [← like.place.path]
    refine Agree.trans ?_ (inside _ resolved isFolder name named) (contents.shown name named)
    rintro _ _ _ (like' | _) (seen | _)
    · exact .some (Seen.standsFor wf ready clear seen like')
    · exact .none

/-- An operation on a path answers as foretold. A checksum does so where checksums on record are
right and all records can be found by their identities. -/
theorem ends_foretold (honest : s.Obeys (Node.Honest e.materializer.parameters)) (r : Operation)
    (fits : r.Fits) (byPath : r.ByPath) : (r.run e).Ends
      (Setting.alone scope e.materializer.parameters) held s fun result t =>
        (r.Sums → t.Entered) →
          ∃ next, v.Foretells e r result next ∧ e.materializer.Depicts next t := by
  have walks : ∀ {r : Operation} {succeeded : Bool} (deed : Deed), deed.Walks →
      r.Does e.materializer.parameters.seed succeeded deed := fun _ => Operation.does_of_walks
  cases r with
  | getNode input world =>
    refine (ends_getNode wf ready).mono fun result t walked _ => ?_
    exact ⟨v, ⟨walked.foretold wf ready depicts clear, rfl⟩, depicts.still walked.moves wf ready⟩
  | listChildren input world =>
    refine (ends_listChildren wf ready).mono ?_
    rintro result t ⟨moves, ⟨failure, refused, rfl⟩ | ⟨path, accepted, listed⟩⟩ _
    · have same : v.getNode e input world = .error failure := by
        rw [Picture.getNode, refused]
        rfl
      refine ⟨v, ⟨?_, rfl⟩, depicts.still moves wf ready⟩
      rw [Picture.Lists, same]
    · exact ⟨v, ⟨listed.foretold wf ready depicts clear accepted, rfl⟩,
        depicts.still moves wf ready⟩
  | createFolder input world name =>
    refine (ends_createFolder wf ready depicts walks (Operation.founds_createFolder fits)).mono ?_
    rintro result t ⟨made, _⟩ _
    exact ⟨_, ⟨made.answers wf ready clear, rfl⟩, made.depicts⟩
  | createFolderAll input world =>
    refine (ends_createFolderAll wf ready depicts (fun deed walks' _ => walks deed walks')
      (Operation.founds_createFolderAll fits)).mono ?_
    rintro result t made _
    exact ⟨_, ⟨made.answers wf ready clear, rfl⟩, made.depicts⟩
  | uploadFile input world name data =>
    refine (ends_uploadFile wf ready depicts data walks (Operation.founds_uploadFile fits)).mono ?_
    rintro result t ⟨made, _⟩ _
    exact ⟨_, ⟨made.answers wf ready clear, rfl⟩, made.depicts⟩
  | deleteNode input world =>
    refine (ends_deleteNode wf ready depicts).mono fun result t deleted _ => ?_
    exact ⟨_, ⟨deleted.answer, rfl⟩, deleted.depicts⟩
  | checksum input world =>
    refine (ends_checksum wf ready).mono ?_
    rintro result t ⟨moves, summed⟩ entered
    refine ⟨v, ⟨?_, rfl⟩, depicts.reads ready.within wf moves fun _ sums => sums.reads⟩
    rw [summed honest (entered trivial)]
    refine (Agree.eq (Agree.bind (depicts.getNode wf input world) fun n k like => ?_)).symm
    rw [← like.isFolder, ← like.place.path, ← content_of_like e like]
    exact Agree.refl _
  | readContent id => exact byPath.elim
  | readRange id offset length => exact byPath.elim

end Answering

end SeedTree
