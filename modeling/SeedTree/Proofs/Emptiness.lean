import SeedTree.Proofs.Frame
import SeedTree.Proofs.Hiding

/- When a node can be deleted. A file always can, and a folder if nothing lies in it, be it hidden
   in the world of the deletion or not generated yet; what is in the way stays as it was. -/
namespace SeedTree

variable {e : Engine} {m : Materializer} {scope : Scope} {s : Store}
  {n top folder : Node} {v : Picture}
  {children : List Node} {names : List String} {input spelling name : String}
  {world : World} {failure : Failure}

theorem Materializer.visibles_primary (m : Materializer) (nodes : List Node) :
    m.visibles .primary nodes = .ok nodes := by
  induction nodes with
  | nil => rfl
  | cons n more ih =>
    rw [visibles, ih]
    rfl

/-- How the deletion of a folder ends, by what lies in the folder. -/
inductive Empties (path : String) : Except Failure (List Node) → Except Failure Unit → Prop where
  | bare : Empties path (.ok []) (.ok ())
  | occupied {child : Node} {more : List Node} :
    Empties path (.ok (child :: more)) (.error (.notEmpty path))
  | unending {folder : String} :
    Empties path (.error (.unending folder)) (.error (.unending folder))

namespace Picture

theorem Gathers.bare_iff (gathers : v.Gathers m folder (.ok children)) :
    v.Bare folder.path ↔ children = [] := by
  cases gathers with
  | children sorted named shown =>
    constructor
    · intro bare
      refine List.eq_nil_iff_forall_not_mem.mpr fun child member => ?_
      have known := shown child.name (named child member)
      rw [bare _ (named child member), find?_of_distinct sorted.distinct member] at known
      cases known
    · rintro rfl name valid
      obtain ⟨found, lies, rel⟩ := (shown name valid).of_ok
      cases rel
      exact lies

theorem walk_primary (walks : v.walk m world names top = .ok n) :
    v.walk m .primary names top = .ok n := by
  induction names generalizing top with
  | nil => exact walks
  | cons name more ih =>
    obtain ⟨isFolder, child, lies, _, walks⟩ := of_walk_cons walks
    have seen : m.sees child .primary = .ok true := rfl
    simp only [walk, isFolder, lies, seen, Except.bind, Bool.not_true,
      Bool.false_eq_true, if_false, if_true]
    exact ih walks

namespace Placed

variable (placed : v.Placed) (found : v.getNode e input world = .ok n)

include placed found

theorem getNode_primary (spelled : Path.normalize spelling = .ok n.path) :
    v.getNode e spelling .primary = .ok n := by
  obtain ⟨path, accepted, resolves⟩ := of_bind_ok found
  have normalized := (Engine.accept_ok_iff.mp accepted).2
  obtain ⟨top, root, walks⟩ := of_bind_ok resolves
  rw [(placed.resolve (Path.normalize_isNormal normalized) resolves).2] at spelled
  have passes : e.worlds.check .primary = .ok () := rfl
  rw [getNode, Engine.accept_ok_iff.mpr ⟨passes, spelled⟩, Except.bind, Picture.resolve, root]
  cases top with
  | none => cases walks
  | some top => exact walk_primary walks

open Classical in
theorem remove_found (inner : n.path ≠ Path.root) : v.remove e input world =
    if n.isFolder then (v (Path.join n.path "a")).bind fun _ =>
      if v.Bare n.path then .ok n else .error (.notEmpty n.path)
    else .ok n := by
  obtain ⟨path, accepted, resolves⟩ := of_bind_ok found
  have place :=
    (placed.resolve (Path.normalize_isNormal (Engine.accept_ok_iff.mp accepted).2) resolves).2
  have below : Path.isRoot path = false := decide_eq_false (place ▸ inner)
  rw [remove, accepted]
  simp only [Except.bind, below, resolves, Bool.false_eq_true, if_false]

variable {result : Except Failure Unit} (inner : n.path ≠ Path.root)
  (answer : Agree (fun _ _ => True) (v.remove e input world) result)

include inner answer

theorem deletes_file (isFile : n.isFolder = false) : result = .ok () := by
  rw [placed.remove_found found inner, isFile] at answer
  obtain ⟨_, same, _⟩ := answer.of_eq_ok
  exact same

theorem deletes_folder {x : Except Failure (List Node)} (isFolder : n.isFolder = true)
    (gathers : v.Gathers e.materializer n x)
    (told : ∀ failure, x = .error failure → ∃ folder, failure = .unending folder) :
    Empties n.path x result := by
  have named : Path.IsName "a" := by decide +kernel
  rw [placed.remove_found found inner, if_pos isFolder] at answer
  cases x with
  | error failure =>
    obtain ⟨folder, rfl⟩ := told failure rfl
    cases gathers with
    | unending failed =>
      rw [failed "a" named] at answer
      rw [answer.of_eq_error]
      exact .unending
  | ok children =>
    have bare := gathers.bare_iff
    cases gathers with
    | children _ _ shown =>
      obtain ⟨_, lies, _⟩ := (shown "a" named).of_ok
      rw [lies, Except.bind] at answer
      cases children with
      | nil =>
        rw [if_pos (bare.mpr rfl)] at answer
        obtain ⟨_, rfl, _⟩ := answer.of_eq_ok
        exact .bare
      | cons child more =>
        rw [if_neg fun empty => List.cons_ne_nil child more (bare.mp empty)] at answer
        rw [answer.of_eq_error]
        exact .occupied

end Placed

end Picture

namespace Session

variable {a : Session} {site first : Site}

/-- A session after a turn that nobody can tell from its answers: records are still there, and
lookups and listings answer as they would have before. -/
structure Intact (a b : Session) : Prop where
  kept : ∀ n, a.store.Holds n → ∃ k, b.store.record? n.path = some k ∧
    n.Aged a.engine.materializer k
  lookups : ∀ (input : String) (world : World) (first second : Site), first.store =
    a.store → first.Timely →
    second.store = b.store → second.Timely → Agree (Node.Echoes a.engine.materializer a.store)
      ((a.engine.getNode input world).runOn first).1 ((b.engine.getNode input world).runOn second).1
  listings : ∀ (input : String) (world : World) (first second : Site), first.store =
    a.store → first.Timely →
    second.store = b.store → second.Timely →
      Agree (List.Forall₂ (Node.Echoes a.engine.materializer a.store))
      ((a.engine.listChildren input world).runOn first).1
        ((b.engine.listChildren input world).runOn second).1

section Deleting

variable (sound : a.Sound scope) (here : site.store = a.store) (timely : site.Timely)

include sound here timely

theorem Sound.deleted (input : String) (world : World) :
    Deleted a.engine scope (a.engine.materializer.shows a.store) input world a.store
      ((a.engine.deleteNode input world).runOn site).1
        (a.after (.deleteNode input world) site).store := by
  have wf := sound.valid.wellFormed
  have depicts := Materializer.Depicts.self a.engine.materializer a.store
  rw [← here] at wf depicts ⊢
  have ends : (a.engine.deleteNode input world).Ends
    (Setting.alone scope a.engine.materializer.parameters) []
      site.store _ := ends_deleteNode wf sound.valid.ready depicts
  exact ends.runOn timely

theorem Sound.intact (failed : ((a.engine.deleteNode input world).runOn site).1 = .error failure) :
    a.Intact (a.after (.deleteNode input world) site) := by
  have fits : (Operation.deleteNode input world).Fits := fun _ makes => makes.elim
  have sound' := sound.turn (.operates _ fits here timely)
  have depicts := Materializer.Depicts.self a.engine.materializer a.store
  obtain ⟨outcome, answer, depicts'⟩ := sound.deleted here timely input world
  rw [failed] at outcome answer
  rw [answer.eq_error] at depicts'
  obtain ⟨_, _, moves⟩ | ⟨impossible, _⟩ := outcome
  swap
  · cases impossible
  have ages := fun path => moves.ages sound.valid.ready.within sound.valid.wellFormed
    fun deed walks => Deed.passes_of_walks walks path
  refine ⟨fun n holds => ?_, ?_, ?_⟩
  · have aged := ages n.path
    rw [holds] at aged
    generalize (a.after (.deleteNode input world) site).store.record? n.path = found at aged
    cases aged with
    | @aged _ k aged => exact ⟨k, rfl, aged⟩
  · intro input world first second early early_timely late late_timely
    obtain ⟨answers, seen⟩ := sound.looks depicts early early_timely input world
    obtain ⟨answers', seen'⟩ := sound'.looks depicts' late late_timely input world
    refine (answers.both answers' fun _ _ _ => Node.StandsFor.resembles).imp
      fun n k found found' resembles => ?_
    exact resembles.echoes (seen n found) ((ages k.path).trans (seen' k found'))
  · intro input world first second early early_timely late late_timely
    obtain ⟨answers, seen⟩ := sound.lists depicts early early_timely input world
    obtain ⟨answers', seen'⟩ := sound'.lists depicts' late late_timely input world
    refine (answers.resemble answers').echoes seen fun nodes answered n member => ?_
    exact (ages n.path).trans (seen' nodes answered n member)

end Deleting

theorem Sound.gathers_told {x : Except Failure (List Node)} (sound : a.Sound scope)
    (isFolder : n.isFolder = true)
    (normal : Path.IsNormal n.path)
    (lies : a.engine.materializer.shows a.store n.path = .ok (some n))
    (gathers : Picture.Gathers (a.engine.materializer.shows a.store) m n x)
    (failed : x = .error failure) : failure = .unending n.path := by
  subst failed
  have named : Path.IsName "a" := by decide +kernel
  cases gathers with
  | unending failed =>
    have known := failed "a" named
    rw [sound.valid.wellFormed.shows_join normal named, lies] at known
    simp only [Except.bind, isFolder, if_true] at known
    exact Materializer.lookup_error known

/-- A node below the root that some world finds can be deleted in this world if it is a file, or a
folder that the primary world lists as empty. Any other folder is not empty, and then nothing has
changed that anybody could see. The answer is the same in all worlds that find the node. -/
theorem deletion_needs_emptiness (reached : a.Reached scope) (early : first.store = a.store)
    (early_timely : first.Timely) (found : ((a.engine.getNode input world).runOn first).1 = .ok n)
    (inner : n.path ≠ Path.root) (here : site.store = a.store) (timely : site.Timely) :
    (n.isFolder = false → ((a.engine.deleteNode input world).runOn site).1 = .ok ()) ∧
    (n.isFolder = true → ∀ spelling second, Path.normalize spelling =
      .ok n.path → second.store = a.store →
      second.Timely → Empties n.path ((a.engine.listChildren spelling .primary).runOn second).1
        ((a.engine.deleteNode input world).runOn site).1) ∧
    (∀ failure, ((a.engine.deleteNode input world).runOn site).1 = .error failure →
      a.Intact (a.after (.deleteNode input world) site)) ∧
    ∀ input' world' k third fourth, third.store = a.store → third.Timely →
      ((a.engine.getNode input' world').runOn third).1 = .ok k →
        k.path = n.path → fourth.store = a.store →
        fourth.Timely → ((a.engine.deleteNode input' world').runOn fourth).1
          = ((a.engine.deleteNode input world).runOn site).1 := by
  have sound := reached.sound
  have depicts := Materializer.Depicts.self a.engine.materializer a.store
  have placed := depicts.placed sound.valid.wellFormed
  obtain ⟨drawn, looked, place, kind, _⟩ := sound.pictured depicts early early_timely found
  rw [place] at inner
  have answer := (sound.deleted here timely input world).answer
  refine ⟨fun isFile => ?_, fun isFolder spelling second spelled late late_timely => ?_, ?_, ?_⟩
  · exact placed.deletes_file looked inner answer (kind.symm.trans isFile)
  · rw [place] at spelled ⊢
    rw [kind] at isFolder
    have lists := (sound.lists depicts late late_timely spelling .primary).1
    rw [Picture.Lists, placed.getNode_primary looked spelled] at lists
    simp only [isFolder, if_true] at lists
    obtain ⟨x, gathers, listed⟩ := lists
    have whole : ((a.engine.listChildren spelling .primary).runOn second).1 = x := by
      rw [listed]
      cases x with
      | error failure => rfl
      | ok children => exact Materializer.visibles_primary _ children
    rw [whole]
    refine placed.deletes_folder looked inner answer isFolder gathers fun failure failed =>
      ⟨n.path, ?_⟩
    rw [place]
    exact sound.gathers_told isFolder (Path.normalize_isNormal spelled)
      (placed.getNode_lies looked) gathers failed
  · exact fun failure failed => sound.intact here timely failed
  · intro input' world' k third fourth early' early_timely' found' same late late_timely
    obtain ⟨drawn', looked', place', _⟩ := sound.pictured depicts early' early_timely' found'
    have lies := placed.getNode_lies looked'
    rw [← place', same, place, placed.getNode_lies looked] at lies
    cases lies
    have answer' := (sound.deleted late late_timely input' world').answer
    rw [placed.remove_found looked' inner, ← placed.remove_found looked inner] at answer'
    cases removed : Picture.remove (a.engine.materializer.shows a.store) a.engine input world with
    | error failure =>
      rw [removed] at answer answer'
      rw [answer.of_eq_error, answer'.of_eq_error]
    | ok gone =>
      rw [removed] at answer answer'
      obtain ⟨_, same, _⟩ := answer.of_eq_ok
      obtain ⟨_, same', _⟩ := answer'.of_eq_ok
      rw [same, same']

def dimAbove : Session :=
  dimTree.after (.createFolder "/" (.named "dim") "a") (.still dimTree.store)

/-- A folder in a world that hides the only folder in it. -/
def dimFull : Session := dimAbove.after (.createFolder "/a" .primary "b") (.still dimAbove.store)

theorem dimFull_reached : dimFull.Reached dimScope := by
  have short : IsShort (Path.join "/" "a") := by decide +kernel
  have short' : IsShort (Path.join "/a" "b") := by decide +kernel
  have fits : (Operation.createFolder "/" (.named "dim") "a").Fits :=
    Operation.fits_createFolder (by rfl) short
  have fits' : (Operation.createFolder "/a" .primary "b").Fits :=
    Operation.fits_createFolder (by rfl) short'
  exact ⟨_, dimTree_begins, .more (.more (.none _) trivial
    (.operates _ fits (Site.still_store _) (Site.still_timely _))) trivial
    (.operates _ fits' (Site.still_store _) (Site.still_timely _))⟩

theorem dimFull_not_empty : ∃ n, dimFull.Reached dimScope ∧
    ((dimFull.engine.getNode "/a" (.named "dim")).runOn (.still dimFull.store)).1 =
      .ok n ∧ n.path ≠ Path.root ∧
    ((dimFull.engine.listChildren "/a" (.named "dim")).runOn (.still dimFull.store)).1 = .ok [] ∧
    ((dimFull.engine.deleteNode "/a" (.named "dim")).runOn (.still dimFull.store)).1 =
      .error (.notEmpty "/a") ∧
    dimFull.Intact (dimFull.after (.deleteNode "/a" (.named "dim")) (.still dimFull.store)) := by
  obtain ⟨seen, bare, full⟩ :
      ((dimFull.engine.getNode "/a" (.named "dim")).runOn (.still dimFull.store)).1.toOption.any
        (fun n => n.path = "/a" && n.isFolder) = true ∧
      ((dimFull.engine.listChildren "/a" (.named "dim")).runOn
        (.still dimFull.store)).1.toOption.any
        List.isEmpty = true ∧
      ((dimFull.engine.listChildren "/a" .primary).runOn (.still dimFull.store)).1.toOption.any
        (fun nodes => !nodes.isEmpty) = true := by decide +kernel
  cases found : ((dimFull.engine.getNode "/a" (.named "dim")).runOn (.still dimFull.store)).1 with
  | error failure =>
    rw [found] at seen
    cases seen
  | ok n =>
    rw [found] at seen
    obtain ⟨place, isFolder⟩ := Bool.and_eq_true_iff.mp seen
    have place : n.path = "/a" := of_decide_eq_true place
    have inner : n.path ≠ Path.root := by
      rw [place]
      decide
    have known := deletion_needs_emptiness dimFull_reached (Site.still_store _)
      (Site.still_timely _) found inner
      (Site.still_store _) (Site.still_timely _)
    have empties :=
      known.2.1 isFolder "/a" (.still dimFull.store) (by rw [place]; rfl) (Site.still_store _)
        (Site.still_timely _)
    have refused : ((dimFull.engine.deleteNode "/a" (.named "dim")).runOn (.still dimFull.store)).1
        = .error (.notEmpty "/a") := by
      generalize ((dimFull.engine.listChildren "/a" .primary).runOn (.still dimFull.store)).1 =
        listed at empties full
      generalize ((dimFull.engine.deleteNode "/a" (.named "dim")).runOn (.still dimFull.store)).1 =
        answer at empties
      cases empties with
      | bare => cases full
      | occupied => rw [place]
      | unending => cases full
    refine ⟨n, dimFull_reached, rfl, inner, ?_, refused, known.2.2.1 _ refused⟩
    cases listed :
      ((dimFull.engine.listChildren "/a" (.named "dim")).runOn (.still dimFull.store)).1 with
    | error failure =>
      rw [listed] at bare
      cases bare
    | ok nodes =>
      rw [listed] at bare
      rw [List.isEmpty_iff.mp bare]

end Session

end SeedTree
