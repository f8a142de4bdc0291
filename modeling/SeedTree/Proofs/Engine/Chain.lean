import SeedTree.Proofs.Engine.Handmade

/- Chains of folders. Going down a path and making the folders that are missing ends with all of
   them on record and shown, or it is obstructed by a file on the way; along a chain that stands it
   changes nothing. -/
namespace SeedTree

open Attempt
open SeedTree.Path (Within)

variable {e : Engine} {m : Materializer} {scope : Scope} {s t : Store}
  {n k l here : Node} {held : List String} {path folder name input : String} {world : World}

namespace Store

/-- A folder that was read at some moment, and whose path is attested. -/
structure Chains (t : Store) (world : World) (n : Node) : Prop where
  attests : t.Attests world n.path
  stands : ∃ l, t.record? n.path = some l ∧ Store.Change.Keeps n l ∧ l.isFolder = true

/-- Why a chain cannot be made: a file is in the way below folders that are shown, be it shown
itself or not; or the children of a folder that is shown are drawn without end. -/
inductive Obstructs (t : Store) (m : Materializer) (world : World) (path : String) :
    Failure → Prop where
  | file {file : Node} (inside : Within file.path path)
    (attests : t.Attests world file.path) (holds : t.Holds file)
      (isFile : file.isFolder = false) : Obstructs t m world path (.notADirectory file.path)
  | hidden {file : Node} {folder name : String} (normal : Path.IsNormal folder)
    (named : Path.IsName name)
      (inside : Within (Path.join folder name) path) (attests : t.Attests world folder)
      (found : t.record? (Path.join folder name) = some file)
      (isFile : file.isFolder = false) (decided : file.decision? world = some false) :
      Obstructs t m world path (.missing (Path.join folder name))
  | unending {folder : Node} (inside : Within folder.path path) (chains : t.Chains world folder)
      (undrawable : m.Undrawable t folder.path) : Obstructs t m world path (.unending folder.path)

inductive Chained (t : Store) (m : Materializer) (world : World) (path : String) :
    Except Failure Node → Prop where
  | whole {n : Node} (place : n.path = path) (chains : t.Chains world n) :
    Chained t m world path (.ok n)
  | blocked {failure : Failure} (obstructs : t.Obstructs m world path failure) :
      Chained t m world path (.error failure)

namespace Chains

theorem normal (chains : s.Chains world n) (wf : s.WellFormed scope m.parameters) :
    Path.IsNormal n.path := by
  obtain ⟨l, found, _⟩ := chains.stands
  obtain ⟨holds, place⟩ := wf.holds found
  rw [← place]
  exact (wf.shaped holds).normal

theorem moves (chains : s.Chains world n) (within : m.worlds.Within scope)
    (wf : s.WellFormed scope m.parameters)
    (moves : Moves m scope Deed.Lasts s t) : t.Chains world n := by
  obtain ⟨l, found, keeps, isFolder⟩ := chains.stands
  obtain ⟨holds, place⟩ := wf.holds found
  obtain ⟨k, found', becomes⟩ := moves.lasting within wf holds
  rw [place] at found'
  exact ⟨chains.attests.moves within wf moves, k, found', keeps.trans becomes.keeps,
    becomes.keeps.isFolder.trans isFolder⟩

theorem next (chains : t.Chains world here) (wf : t.WellFormed scope m.parameters)
    (named : Path.IsName name)
    (found : t.record? (Path.join here.path name) = some l) (keeps : Store.Change.Keeps n l)
    (decided : l.decision? world = some true) :
    n.path = Path.join here.path name ∧ t.Attests world n.path ∧
      (l.isFolder = true → t.Chains world n) := by
  have place : n.path = Path.join here.path name := by rw [← keeps.place.path, (wf.holds found).2]
  have attests : t.Attests world n.path := by
    rw [place, Store.attests_join (chains.normal wf) named]
    exact ⟨chains.attests, l, found, decided⟩
  exact ⟨place, attests, fun isFolder => ⟨attests, l, place ▸ found, keeps, isFolder⟩⟩

theorem blocks (chains : t.Chains world here) (wf : t.WellFormed scope m.parameters)
    (named : Path.IsName name)
    (inside : Within (Path.join here.path name) path)
    (found : t.record? (Path.join here.path name) = some l)
    (keeps : Store.Change.Keeps n l) (decided : l.decision? world = some true)
    (isFile : l.isFolder = false) : t.Chained m world path (.error (.notADirectory n.path)) := by
  obtain ⟨place, attests, _⟩ := chains.next wf named found keeps decided
  have holds := (wf.holds found).1
  rw [← keeps.place.path] at place attests ⊢
  exact .blocked (.file (by rw [place]; exact inside) attests holds isFile)

theorem stopped {failure : Failure} (chains : t.Chains world here)
    (wf : t.WellFormed scope m.parameters)
    (named : Path.IsName name) (inside : Within (Path.join here.path name) path)
    (higher : Within here.path path) (found : t.record? (Path.join here.path name) = some l)
    (visible : l.isFolder = true → l.decision? world = some true)
    (stops : m.Stops t world here.path name failure) : t.Chained m world path (.error failure) := by
  cases stops with
  | absent _ none =>
    rw [found] at none
    cases none
  | @hidden k found' decided =>
    cases Store.Holds.unique found found'
    refine .blocked (.hidden (chains.normal wf) named inside chains.attests found ?_ decided)
    cases isFolder : l.isFolder with
    | false => rfl
    | true =>
      have shown := visible isFolder
      rw [decided] at shown
      cases shown
  | unending undrawable => exact .blocked (.unending higher chains undrawable)

end Chains

end Store

theorem ends_resolve_below {post : Except Failure Node → Store → Prop}
    (wf : s.WellFormed scope m.parameters)
    (within : m.worlds.Within scope) (offers : m.worlds.Offers world) (chains : s.Chains world here)
    (named : Path.IsName name)
    (leads : ∀ t child l, Moves m scope Deed.Walks s t →
      t.record? (Path.join here.path name) = some l →
      Store.Change.Keeps child l → l.decision? world = some true → post (.ok child) t)
    (fails : ∀ t failure, Moves m scope Deed.Walks s t → m.Stops t world here.path name failure →
      post (.error failure) t) :
    (m.resolve (Path.join here.path name) world).Ends
      (Setting.alone scope m.parameters) held s post := by
  obtain ⟨k, found, _, isFolder⟩ := chains.stands
  have normal := chains.normal wf
  refine ends_resolve_along wf normal chains.attests [name] ?_ (Path.components_join normal named)
  intro host stands path
  rw [← path] at found leads fails
  cases Store.Holds.unique found stands
  refine ends_step wf within offers stands (.refl k) isFolder ?_ fails
  exact fun t child l moves found' keeps decided =>
    ends_pure (leads t child l moves found' keeps decided)

section Making

variable (wf : s.WellFormed scope e.materializer.parameters)
  (ready : e.Ready scope e.materializer.parameters)
  (offers : e.worlds.Offers world) (chains : s.Chains world here)

include wf ready offers chains

theorem ends_createFolder_below {post : Except Failure Node → Store → Prop}
    (named : Path.IsName name) (short : IsShort (Path.join here.path name))
    (leads : ∀ t n, t.WellFormed scope e.materializer.parameters →
      t.Chains world here → n.isFolder = true →
      t.Lays world (Path.join here.path name) n → post (.ok n) t)
    (meets : ∀ t n, Moves e.materializer scope Deed.Walks s t →
      t.record? (Path.join here.path name) = some n →
      (n.isFolder = true → n.decision? world = some true) →
      post (.error (.alreadyExists (Path.join here.path name))) t)
    (unending : ∀ t, t.Chains world here → e.materializer.Undrawable t here.path →
      post (.error (.unending here.path)) t) :
    (e.createFolder here.path world name).Ends
      (Setting.alone scope e.materializer.parameters) held s post := by
  obtain ⟨k, found, _, isFolder⟩ := chains.stands
  unfold Engine.createFolder
  rw [WorldTable.check_of_offers offers, show Path.checkName name = .ok () from named]
  refine ends_bind (ends_fromWorld ?_)
  refine ends_bind (ends_fromPath ?_)
  refine ends_bind
    ((ends_openParent_attested wf ready (chains.normal wf) chains.attests found isFolder).mono ?_)
  rintro _ t ⟨moves, ⟨parent, rfl, place, hosts⟩ | ⟨rfl, undrawable⟩⟩
  · have later := moves.wellFormed ready.within wf
    have kept := chains.moves ready.within wf (moves.mono Deed.lasts_of_walks)
    rw [← place] at short
    refine ends_underLock (f := fun parent => e.createFolderLocked parent world name)
      later hosts.holds
      ((ends_createFolderLocked_lays later ready offers named hosts.holds hosts.isFolder
        hosts.done short).mono ?_)
    rw [place]
    rintro _ u (⟨n, rfl, rest, kind, lays⟩ | ⟨rfl, rest, n, there, visible⟩)
    · exact leads u n (rest.wellFormed ready.within later)
        (kept.moves ready.within later rest) kind lays
    · exact meets u n (moves.append rest) there visible
  · exact unending t (chains.moves ready.within wf (moves.mono Deed.lasts_of_walks)) undrawable

theorem ends_resolveFolder_below {onward : Node → Attempt Node} (named : Path.IsName name)
    (higher : Within here.path path) (inside : Within (Path.join here.path name) path)
    (found : s.record? (Path.join here.path name) = some n)
    (visible : n.isFolder = true → n.decision? world = some true)
    (leads : ∀ t child l, t.WellFormed scope e.materializer.parameters → t.Chains world here →
      t.record? (Path.join here.path name) = some l → Store.Change.Keeps child l →
      l.decision? world = some true → l.isFolder = true →
      (onward child).Ends (Setting.alone scope e.materializer.parameters) held t fun result t =>
        t.Chained e.materializer world path result) :
    (e.materializer.resolveFolder (Path.join here.path name) world >>= onward).Ends
      (Setting.alone scope e.materializer.parameters) held s fun result t =>
        t.Chained e.materializer world path result := by
  obtain ⟨holds, place⟩ := wf.holds found
  refine ends_bind (ends_bind (ends_resolve_below wf ready.within offers chains named ?_ ?_))
  · intro t child l moves found' keeps decided
    have later := moves.wellFormed ready.within wf
    have kept := chains.moves ready.within wf (moves.mono Deed.lasts_of_walks)
    rw [then_ok, ← keeps.isFolder]
    refine ends_ite (fun isFolder => ends_pure ?_) fun isFile => ends_throw ?_
    · exact leads t child l later kept found' keeps decided isFolder
    · exact kept.blocks later named inside found' keeps decided (by simpa using isFile)
  · intro t failure moves stops
    have later := moves.wellFormed ready.within wf
    have kept := chains.moves ready.within wf (moves.mono Deed.lasts_of_walks)
    obtain ⟨l, found', becomes⟩ := (moves.mono Deed.lasts_of_walks).lasting ready.within wf holds
    rw [place] at found'
    refine kept.stopped later named inside higher found' (fun isFolder => ?_) stops
    exact becomes.decision (visible (becomes.keeps.isFolder.symm.trans isFolder))

theorem ends_createAlong_chains {names : List String}
    (along : Operation.Along IsShort here.path names) :
    (e.createAlong world names here).Ends (Setting.alone scope e.materializer.parameters) held s
      fun result t => t.Chained e.materializer world (names.foldl Path.join here.path) result := by
  induction names generalizing s here with
  | nil => exact ends_pure (.whole rfl chains)
  | cons name more ih =>
    have named := along.valid name List.mem_cons_self
    have short : IsShort (Path.join here.path name) :=
      along.makes [name] (List.cons_prefix_cons.mpr ⟨rfl, List.nil_prefix⟩) (List.cons_ne_nil _ _)
    have higher : Within here.path ((name :: more).foldl Path.join here.path) :=
      Path.within_foldl along.normal along.valid
    rw [List.foldl_cons] at higher ⊢
    generalize whole : more.foldl Path.join (Path.join here.path name) = path at higher ⊢
    have inside : Within (Path.join here.path name) path :=
      whole ▸ Path.within_foldl along.next.normal along.next.valid
    have onward : ∀ (t : Store) (n l : Node), t.WellFormed scope e.materializer.parameters →
        t.Chains world here → t.record? (Path.join here.path name) = some l →
        Store.Change.Keeps n l → l.decision? world = some true → l.isFolder = true →
        (e.createAlong world more n).Ends (Setting.alone scope e.materializer.parameters) held t
          fun result t => t.Chained e.materializer world path result := by
      intro t n l later kept found keeps decided isFolder
      obtain ⟨place, _, chains⟩ := kept.next later named found keeps decided
      rw [← whole, ← place]
      exact ih later (chains isFolder) (place ▸ along.next)
    unfold Engine.createAlong
    refine ends_bind (ends_outcome (ends_resolve_below wf ready.within offers chains named ?_ ?_))
    · intro t child l moves found keeps decided
      have later := moves.wellFormed ready.within wf
      have kept := chains.moves ready.within wf (moves.mono Deed.lasts_of_walks)
      simp only [then_ok, ← keeps.isFolder]
      refine ends_ite (fun isFolder => ?_) fun isFile => ends_throw ?_
      · exact onward t child l later kept found keeps decided isFolder
      · exact kept.blocks later named inside found keeps decided (by simpa using isFile)
    · intro t failure moves stops
      have later := moves.wellFormed ready.within wf
      have kept := chains.moves ready.within wf (moves.mono Deed.lasts_of_walks)
      rcases stops.failure with rfl | rfl
      · refine ends_bind
          (ends_outcome (ends_createFolder_below later ready offers kept named short ?_ ?_ ?_))
        · intro u n last kept' isFolder lays
          have found : u.record? (Path.join here.path name) = some n := by
            rw [← lays.place, lays.holds]
          exact onward u n n last kept' found (.refl n) lays.decided isFolder
        · intro u n rest found visible
          have last := rest.wellFormed ready.within later
          have kept' := kept.moves ready.within later (rest.mono Deed.lasts_of_walks)
          exact ends_resolveFolder_below last ready offers kept' named higher
            inside found visible onward
        · intro u kept' undrawable
          exact ends_throw (.blocked (.unending higher kept' undrawable))
      · cases stops with
        | unending undrawable => exact ends_throw (.blocked (.unending higher kept undrawable))

end Making

section Whole

variable (wf : s.WellFormed scope e.materializer.parameters) (offers : e.worlds.Offers world)
  (normalized : Path.normalize input = .ok path)

include wf offers normalized

theorem ends_createFolderAll_chains (ready : e.Ready scope e.materializer.parameters)
    (fits : (Operation.createFolderAll input world).Fits) :
    (e.createFolderAll input world).Ends
      (Setting.alone scope e.materializer.parameters) held s fun result t =>
      t.Chained e.materializer world path result := by
  have normal := Path.normalize_isNormal normalized
  obtain ⟨top, root⟩ := wf.root
  obtain ⟨holds, place⟩ := wf.holds root
  have isFolder := (wf.shaped holds).root ((wf.shaped holds).parent_eq_none_iff.mpr place)
  unfold Engine.createFolderAll
  rw [WorldTable.check_of_offers offers, normalized]
  refine ends_bind (ends_fromWorld ?_)
  refine ends_bind (ends_fromPath ?_)
  have attests := wf.attests_root world
  refine ends_bind ((ends_resolve_attested wf Path.isNormal_root attests).mono ?_)
  rintro _ t ⟨rfl, n, rfl, found⟩
  cases Store.Holds.unique root found
  rw [← place] at attests root
  have along : Operation.Along IsShort top.path (Path.components path) := by
    rw [place]
    refine Operation.along_root normal fun names some start => fits _ ?_
    exact ⟨path, names, normalized, some, start, rfl⟩
  have chains : t.Chains world top := ⟨attests, top, root, .refl top, isFolder⟩
  have whole : (Path.components path).foldl Path.join top.path = path := by
    rw [place, normal.foldl_join]
  refine (ends_createAlong_chains wf ready offers chains along).mono fun result u chained => ?_
  rw [whole] at chained
  exact chained

omit offers normalized in
theorem ends_createAlong_standing {names : List String} (normal : Path.IsNormal here.path)
    (valid : ∀ name ∈ names, Path.IsName name) (holds : s.Holds here)
    (attests : s.Attests world (names.foldl Path.join here.path))
    (found : s.record? (names.foldl Path.join here.path) = some n) (isFolder : n.isFolder = true) :
    (e.createAlong world names here).Ends
      (Setting.alone scope e.materializer.parameters) held s fun result t =>
      t = s ∧ result = .ok n := by
  induction names generalizing here with
  | nil =>
    cases Store.Holds.unique found holds
    exact ends_pure ⟨rfl, rfl⟩
  | cons name more ih =>
    obtain ⟨named, valid⟩ := List.forall_mem_cons.mp valid
    have normal' := Path.isNormal_join normal named
    have inside := Path.within_foldl normal' valid
    have whole : Path.IsNormal (more.foldl Path.join (Path.join here.path name)) := by
      obtain ⟨stands, place⟩ := wf.holds found
      rw [List.foldl_cons] at place
      rw [← place]
      exact (wf.shaped stands).normal
    unfold Engine.createAlong
    refine ends_bind
      (ends_outcome ((ends_resolve_attested wf normal' (attests.within inside)).mono ?_))
    rintro _ _ ⟨rfl, child, rfl, found'⟩
    obtain ⟨stands, place⟩ := wf.holds found'
    have kind : child.isFolder = true := by
      by_cases last : Path.join here.path name = more.foldl Path.join (Path.join here.path name)
      · rw [last] at found'
        cases Store.Holds.unique found found'
        exact isFolder
      · obtain ⟨k, there, kind, _⟩ := (wf.record_above whole found normal' inside).2 last
        cases Store.Holds.unique found' there
        exact kind
    simp only [then_ok, kind, if_true]
    rw [← place] at normal'
    refine ih normal' valid stands ?_ ?_
    · rw [place]
      exact attests
    · rw [place]
      exact found

theorem ends_createFolderAll_standing (attests : s.Attests world path)
    (found : s.record? path = some n) (isFolder : n.isFolder = true) :
    (e.createFolderAll input world).Ends
      (Setting.alone scope e.materializer.parameters) held s fun result t =>
      t = s ∧ result = .ok n := by
  have normal := Path.normalize_isNormal normalized
  obtain ⟨top, root⟩ := wf.root
  obtain ⟨holds, place⟩ := wf.holds root
  unfold Engine.createFolderAll
  rw [WorldTable.check_of_offers offers, normalized]
  refine ends_bind (ends_fromWorld ?_)
  refine ends_bind (ends_fromPath ?_)
  refine ends_bind ((ends_resolve_attested wf Path.isNormal_root (wf.attests_root world)).mono ?_)
  rintro _ _ ⟨rfl, k, rfl, found'⟩
  cases Store.Holds.unique root found'
  have along : (Path.components path).foldl Path.join top.path = path := by
    rw [place, normal.foldl_join]
  refine ends_createAlong_standing wf
    (wf.shaped holds).normal normal.components.1 holds ?_ ?_ isFolder
  · rw [along]
    exact attests
  · rw [along]
    exact found

end Whole

end SeedTree
