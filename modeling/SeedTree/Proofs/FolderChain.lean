import SeedTree.Proofs.Creation

/- Chains of folders, made down a path in one operation. A chain that was made stands in its world,
   and making it again changes nothing; it cannot be made only where a file is in the way. -/
namespace SeedTree.Session

open SeedTree.Path (Within)

variable {scope : Scope} {a b : Session} {site : Site} {n : Node}
  {input path folder name : String} {world : World} {failure : Failure}

def HasFolder (a : Session) (world : World) (path : String) : Prop :=
  ∃ n, n.path = path ∧ n.isFolder = true ∧
    ∀ spelling, Path.normalize spelling = .ok path → a.Finds spelling world n

def HasAbove (a : Session) (world : World) (path : String) : Prop :=
  ∀ above, Path.IsNormal above → Within above path → above ≠ path → a.HasFolder world above

/-- Why a chain of folders could not be made down to a path: a file is in the way, which the world
shows or hides, and all folders above it are shown. Or the children of a folder that is shown are
drawn without end. -/
inductive Obstructs (a : Session) (world : World) (path : String) : Failure → Prop where
  | file {file : Node} (inside : Within file.path path) (isFile : file.isFolder = false)
      (above : a.HasAbove world file.path)
      (found : ∀ spelling, Path.normalize spelling = .ok file.path → a.Finds spelling world file) :
      Obstructs a world path (.notADirectory file.path)
  | hidden {file : Node} (inside : Within file.path path) (isFile : file.isFolder = false)
      (above : a.HasAbove world file.path)
      (found : ∀ spelling, Path.normalize spelling = .ok file.path → a.Finds spelling .primary file)
      (missed : ∀ spelling site, Path.normalize spelling = .ok file.path →
        site.store = a.store → site.Timely →
        ((a.engine.getNode spelling world).runOn site).1 = .error (.missing file.path)) :
      Obstructs a world path (.missing file.path)
  | unending {folder : String} (inside : Within folder path) (shown : a.HasFolder world folder)
      (above : a.HasAbove world folder)
      (drawn : Children.generate? Draw.patience a.engine.config.parameters folder
        (UInt32.ofNat (Path.components folder).length) = none) :
      Obstructs a world path (.unending folder)

section Standing

variable (valid : a.Valid scope) (offers : a.engine.worlds.Offers world)

include valid offers

theorem Valid.hasFolder (attests : a.store.Attests world path)
    (found : a.store.record? path = some n)
    (isFolder : n.isFolder = true) : a.HasFolder world path :=
  ⟨n, (valid.wellFormed.holds found).2, isFolder,
    fun _ normalized => valid.finds offers normalized attests found⟩

theorem Valid.hasAbove (normal : Path.IsNormal path) (found : a.store.record? path = some n)
    (attests : ∀ above, Path.IsNormal above → Within above path → above ≠ path →
      a.store.Attests world above) :
    a.HasAbove world path := by
  intro above normal' inside apart
  obtain ⟨k, there, isFolder, _⟩ :=
    (valid.wellFormed.record_above normal found normal' inside).2 apart
  exact valid.hasFolder offers (attests above normal' inside apart) there isFolder

theorem Valid.misses_hidden (normal : Path.IsNormal folder) (named : Path.IsName name)
    (attests : a.store.Attests world folder)
    (found : a.store.record? (Path.join folder name) = some n)
    (decided : n.decision? world = some false)
    (normalized : Path.normalize input = .ok (Path.join folder name))
    (here : site.store = a.store) (timely : site.Timely) :
    ((a.engine.getNode input world).runOn site).1 = .error (.missing (Path.join folder name)) := by
  have wf := valid.wellFormed
  rw [← here] at wf attests found
  have ends : (a.engine.getNode input world).Ends
    (Setting.alone scope a.engine.materializer.parameters) []
      site.store _ :=
        Engine.ends_getNode_hidden wf offers normal named normalized attests found decided
  exact (ends.runOn timely).2

theorem Valid.obstructs (obstructs : a.store.Obstructs a.engine.materializer world path failure) :
    a.Obstructs world path failure := by
  have wf := valid.wellFormed
  cases obstructs with
  | file inside attests holds isFile =>
    refine .file inside isFile (valid.hasAbove offers (wf.shaped holds).normal holds ?_) ?_
    · exact fun above _ higher _ => attests.within higher
    · exact fun spelling normalized => valid.finds offers normalized attests holds
  | @hidden file folder name normal' named inside attests found isFile decided =>
    obtain ⟨holds, place⟩ := wf.holds found
    have whole := Path.isNormal_join normal' named
    rw [← place] at inside ⊢
    refine .hidden inside isFile ?_ ?_ ?_
    · rw [place]
      refine valid.hasAbove offers whole found fun above normal'' higher apart => ?_
      rcases (Path.within_join_iff normal'' normal' named).mp higher with higher | same
      · exact attests.within higher
      · exact absurd same.symm apart
    · rw [place]
      exact fun spelling normalized =>
        valid.finds trivial normalized (wf.attests_primary whole found) found
    · rw [place]
      exact fun spelling site normalized here timely =>
        valid.misses_hidden offers normal' named attests found decided normalized here timely
  | @unending folder inside chains undrawable =>
    obtain ⟨host, found, undrawn⟩ := undrawable
    obtain ⟨l, found', _, isFolder⟩ := chains.stands
    cases Store.Holds.unique found found'
    obtain ⟨holds, place⟩ := wf.holds found
    have normal := chains.normal wf
    refine .unending inside (valid.hasFolder offers chains.attests found isFolder) ?_ ?_
    · exact valid.hasAbove offers normal found fun _ _ higher _ => chains.attests.within higher
    · rw [Materializer.specs?, (wf.shaped holds).depth, place] at undrawn
      rw [valid.ready.config]
      exact undrawn

theorem Valid.chain_again (attests : a.store.Attests world path)
    (found : a.store.record? path = some n)
    (isFolder : n.isFolder = true) (normalized : Path.normalize input = .ok path)
    (here : site.store = a.store)
    (timely : site.Timely) : ((a.engine.createFolderAll input world).runOn site).1 = .ok n ∧
      (a.after (.createFolderAll input world) site).store = a.store := by
  have wf := valid.wellFormed
  rw [← here] at wf attests found
  have ends : (a.engine.createFolderAll input world).Ends
      (Setting.alone scope a.engine.materializer.parameters) [] site.store _ :=
    ends_createFolderAll_standing wf offers normalized attests found isFolder
  obtain ⟨same, result⟩ := ends.runOn timely
  exact ⟨result, same.trans here⟩

end Standing

section Making

variable (valid : a.Valid scope) (offers : a.engine.worlds.Offers world)
  (fits : (Operation.createFolderAll input world).Fits)
  (here : site.store = a.store) (timely : site.Timely)

theorem chain_refused {fault : PathFault} (offers : a.engine.worlds.Offers world)
    (misspelled : Path.normalize input = .error fault) :
    ((a.engine.createFolderAll input world).runOn site).1 = .error (.invalidPath fault) := by
  simp only [Engine.createFolderAll, WorldTable.check_of_offers offers, misspelled]
  rfl

include valid offers fits here timely

theorem Valid.chained (normalized : Path.normalize input = .ok path) :
    (a.after (.createFolderAll input world) site).store.Chained a.engine.materializer world path
      ((a.engine.createFolderAll input world).runOn site).1 := by
  have wf := valid.wellFormed
  rw [← here] at wf
  have ends : (a.engine.createFolderAll input world).Ends
      (Setting.alone scope a.engine.materializer.parameters) [] site.store _ :=
    ends_createFolderAll_chains wf offers normalized valid.ready fits
  exact ends.runOn timely

end Making

/-- Where making a chain of folders succeeds, each folder of the path is found in the world
afterwards, and making the chain again, in any spelling, answers with the same folder and leaves the
store as it is. It never fails because something exists already, and where it fails on a path that
can be normalized, a file is in the way. -/
theorem folder_chain_stands (reached : a.Reached scope) (offers : a.engine.worlds.Offers world)
    (fits : (Operation.createFolderAll input world).Fits)
    (here : site.store = a.store) (timely : site.Timely)
    (later : b = a.after (.createFolderAll input world) site) :
    (∀ n, ((a.engine.createFolderAll input world).runOn site).1 = .ok n →
      Path.normalize input = .ok n.path ∧ n.isFolder = true ∧
      (∀ above, Path.IsNormal above → Within above n.path → b.HasFolder world above) ∧
      ∀ spelling site', Path.normalize spelling = .ok n.path →
        site'.store = b.store → site'.Timely →
        (∃ k, ((b.engine.createFolderAll spelling world).runOn site').1 = .ok k ∧ k.id = n.id) ∧
        (b.after (.createFolderAll spelling world) site').store = b.store) ∧
    (∀ existing, ((a.engine.createFolderAll input world).runOn site).1 ≠
      .error (.alreadyExists existing)) ∧
    ∀ path failure, Path.normalize input = .ok path →
      ((a.engine.createFolderAll input world).runOn site).1 = .error failure →
        b.Obstructs world path failure := by
  have valid := reached.valid
  have turn : Turn scope (some (.createFolderAll input world)) a b :=
    later ▸ .operates _ fits here timely
  have valid' := turn.valid valid
  have offers' : b.engine.worlds.Offers world := later ▸ offers
  have engine : b.engine = a.engine := later ▸ rfl
  cases normalized : Path.normalize input with
  | error fault =>
    rw [chain_refused offers normalized]
    exact ⟨nofun, nofun, nofun⟩
  | ok path =>
    have chained := valid.chained offers fits here timely normalized
    rw [← later] at chained
    cases result : ((a.engine.createFolderAll input world).runOn site).1 with
    | ok n =>
      rw [result] at chained
      cases chained with
      | whole place chains =>
        subst place
        obtain ⟨l, found, keeps, isFolder⟩ := chains.stands
        have attests := chains.attests
        refine ⟨?_, nofun, nofun⟩
        rintro _ ⟨⟩
        refine ⟨rfl, keeps.isFolder.symm.trans isFolder, fun above normal inside => ?_, ?_⟩
        · by_cases same : above = n.path
          · rw [same]
            exact valid'.hasFolder offers' attests found isFolder
          · exact valid'.hasAbove offers' (Path.normalize_isNormal normalized) found
              (fun _ _ higher _ => attests.within higher) above normal inside same
        · intro spelling site' spelled here' timely'
          obtain ⟨again, same⟩ :=
            valid'.chain_again offers' attests found isFolder spelled here' timely'
          exact ⟨⟨l, again, keeps.place.id⟩, same⟩
    | error failure =>
      rw [result] at chained
      cases chained with
      | blocked obstructs =>
        refine ⟨nofun, ?_, ?_⟩
        · rintro existing ⟨⟩
          cases obstructs
        · rintro _ _ ⟨⟩ ⟨⟩
          exact valid'.obstructs offers' (engine ▸ obstructs)

theorem fits_chain : (Operation.createFolderAll "/a//b" (.named "dim")).Fits := by
  rintro _ ⟨full, names, normalized, some, start, rfl⟩
  have same : Path.normalize "/a//b" = .ok "/a/b" := by rfl
  rw [same] at normalized
  cases normalized
  have components : Path.components "/a/b" = ["a", "b"] := by decide +kernel
  rw [components, ← List.mem_inits] at start
  have among : names = ["a"] ∨ names = ["a", "b"] := by simpa [some] using start
  rcases among with rfl | rfl <;> decide +kernel

/-- The folders of `/a/b` in a world that hides `/a`: it is shown there, and the other one is made
below it. -/
def chainMade : Session :=
  dimmed.after (.createFolderAll "/a//b" (.named "dim")) (.still dimmed.store)

theorem chainMade_stands : ∃ n, dimmed.Reached dimScope ∧
    ((dimmed.engine.createFolderAll "/a//b" (.named "dim")).runOn (.still dimmed.store)).1 = .ok n ∧
    chainMade.HasFolder (.named "dim") "/a" ∧
    (chainMade.after (.createFolderAll "/a/b/" (.named "dim")) (.still chainMade.store)).store
      = chainMade.store := by
  have made :
      ((dimmed.engine.createFolderAll "/a//b" (.named "dim")).runOn (.still dimmed.store)).1.isOk =
        true := by
    decide +kernel
  have offers : dimmed.engine.worlds.Offers (.named "dim") := dim_listed
  have known :=
    folder_chain_stands dimmed_reached offers fits_chain (Site.still_store _) (Site.still_timely _)
      (Eq.refl chainMade)
  cases result :
    ((dimmed.engine.createFolderAll "/a//b" (.named "dim")).runOn (.still dimmed.store)).1 with
  | error failure =>
    rw [result] at made
    cases made
  | ok n =>
    obtain ⟨spelled, _, folders, again⟩ := known.1 n result
    have same : Path.normalize "/a//b" = .ok "/a/b" := by rfl
    have place : n.path = "/a/b" := Except.ok.inj (spelled.symm.trans same)
    have above : Path.normalize "/a" = .ok "/a" := by rfl
    have inside : Within "/a" n.path := by
      rw [place]
      decide +kernel
    exact ⟨n, dimmed_reached, rfl, folders "/a" (Path.normalize_isNormal above) inside,
      (again "/a/b/" _ (by rw [place]; rfl) (Site.still_store _) (Site.still_timely _)).2⟩

end SeedTree.Session
