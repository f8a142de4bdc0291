import SeedTree.Proofs.Crowd
import SeedTree.Proofs.Engine.Handmade

/- Opening a parent leaves the traces that a lookup of a free place in it leaves: the folders down
   to it have been expanded, and the decisions about them put down. -/
namespace SeedTree

open Attempt

variable {e : Engine} {m : Materializer} {scope : Scope} {traces : Trace → Prop} {origin s : Store}
  {n k top host : Node} {v : Picture} {held names : List String} {trace : Trace}
  {input name folder path : String}
  {world : World}

theorem Site.Timely.run {α : Type} {site : Site} (timely : site.Timely) (program : Program α) :
    (program.run site).2.Timely := by
  induction program generalizing site with
  | done a => exact timely
  | ask action next ih => exact ih _ (timely.act action)

namespace Picture

theorem walk_concat (walks : v.walk m world names top = .ok host) (name : String) :
    v.walk m world (names ++ [name]) top = v.walk m world [name] host := by
  induction names generalizing top with
  | nil =>
    cases walks
    rfl
  | cons first more ih =>
    obtain ⟨isFolder, child, lies, seen, walks⟩ := of_walk_cons walks
    rw [← ih walks]
    simp only [List.cons_append, walk, isFolder, lies, seen, Except.bind,
      Bool.not_true, Bool.false_eq_true,
      if_false, if_true]

theorem Treads.append (treads : v.Treads m world names top trace) (more : List String) :
    v.Treads m world (names ++ more) top trace := by
  induction treads with
  | opens isFolder => exact .opens isFolder
  | decides isFolder found decides => exact .decides isFolder found decides
  | onward isFolder found seen _ ih => exact .onward isFolder found seen ih

theorem Treads.last (walks : v.walk m world names top = .ok host)
    (treads : v.Treads m world [name] host trace) :
    v.Treads m world (names ++ [name]) top trace := by
  induction names generalizing top with
  | nil =>
    cases walks
    exact treads
  | cons first more ih =>
    obtain ⟨isFolder, child, lies, seen, walks⟩ := of_walk_cons walks
    exact .onward isFolder lies seen (ih walks)

theorem Treads.concat (treads : v.Treads m world (names ++ [name]) top trace)
    (walks : v.walk m world names top = .ok host) :
    v.Treads m world names top trace ∨ v.Treads m world [name] host trace := by
  induction names generalizing top with
  | nil =>
    cases walks
    exact Or.inr treads
  | cons first more ih =>
    obtain ⟨isFolder, child, lies, seen, walks⟩ := of_walk_cons walks
    cases treads with
    | opens => exact Or.inl (.opens isFolder)
    | decides _ found decides => exact Or.inl (.decides isFolder found decides)
    | onward _ found seen' rest =>
      rw [lies] at found
      cases found
      exact (ih rest walks).imp_left (.onward isFolder lies seen)

/-- No trace of a lookup of a free name is left behind the folder. -/
theorem Treads.vacant {known : Trace → Prop} (walks : v.walk m world names top = .ok host)
    (vacant : v (Path.join host.path name) = .ok none)
    (way : ∀ trace, v.Treads m world names top trace → known trace)
    (opened : known (.expanded host.path)) (trace : Trace)
    (treads : v.Treads m world (names ++ [name]) top trace) : known trace := by
  rcases treads.concat walks with early | last
  · exact way trace early
  · cases last with
    | opens => exact opened
    | decides _ lies =>
      rw [vacant] at lies
      cases lies
    | onward _ lies =>
      rw [vacant] at lies
      cases lies

end Picture

section Looking

variable (wf : origin.WellFormed scope e.materializer.parameters)
  (within : e.materializer.worlds.Within scope)
  (trodden : e.materializer.Trodden scope traces origin s)
  (normalized : Path.normalize input = .ok folder)
  (root : e.materializer.shows origin Path.root = .ok (some top))
  (walks : Picture.walk (e.materializer.shows origin) e.materializer world
    (Path.components folder) top = .ok host)
  (isFolder : host.isFolder = true) (named : Path.IsName name)
  (vacant : e.materializer.shows origin (Path.join folder name) = .ok none)
  (left : ∀ trace, Picture.Treads (e.materializer.shows origin) e.materializer world
    (Path.components folder ++ [name]) top trace → traces trace)

include wf within trodden normalized root walks isFolder named vacant left

theorem looking_openParent :
    (e.openParent input world).Ends (Setting.looking e.materializer scope traces origin) []
    s fun result t => (∃ parent, result = .ok parent) ∧
      e.materializer.Trodden scope traces origin t ∧
      s.Grows e.materializer t ∧
        ∀ trace, Picture.Treads (e.materializer.shows origin) e.materializer world
        (Path.components folder ++ [name]) top trace → e.materializer.Bears origin t trace := by
  have normal := Path.normalize_isNormal normalized
  unfold Engine.openParent
  rw [normalized]
  refine ends_bind
    (ends_fromPath (ends_bind (ends_bind ((looking_resolve wf within normal trodden ?_).mono ?_))))
  · intro top' root' trace treads
    rw [root] at root'
    cases root'
    exact left trace (treads.append [name])
  rintro result t ⟨trodden', grows, agree, bears⟩
  have resolves : Picture.resolve
      (e.materializer.shows origin) e.materializer world folder = .ok host := by
    rw [Picture.resolve, root]
    exact walks
  have depicts := Materializer.Depicts.self e.materializer origin
  have at_ : host.path = folder := ((depicts.placed wf).resolve normal resolves).2
  rw [resolves] at agree
  obtain ⟨n, rfl, recalls⟩ := agree.of_eq_ok
  have place := recalls.grown.path
  have isFolder' : n.isFolder = true := recalls.grown.like.isFolder.trans isFolder
  refine ends_ite (fun _ => ends_pure ?_) fun isFile => absurd isFolder' isFile
  have opens := left _ (Picture.Treads.last walks (.opens isFolder))
  rw [← place] at opens
  refine ends_bind ((looking_expand wf within trodden' opens recalls.there isFolder').mono ?_)
  rintro result u ⟨trodden'', grows', expands⟩
  rw [place, at_] at expands
  cases expands with
  | unending unending =>
    have clash := unending name named
    rw [vacant] at clash
    cases clash
  | @marked marked found ready =>
    obtain ⟨holds, path⟩ := trodden''.holds found
    rw [place, at_]
    refine looking_getOr ?_ ?_
    · intro w parent latest onward stands below
      have later {trace : Trace} (bears : e.materializer.Bears origin u trace) :
          e.materializer.Bears origin w trace :=
        bears.later trodden''.regular onward.grows
      refine ⟨⟨parent, rfl⟩, latest, (grows.trans grows').trans onward.grows,
        Picture.Treads.vacant walks (at_.symm ▸ vacant) (fun trace early => ?_) ?_⟩
      · exact later ((bears top root trace early).later trodden'.regular grows')
      · rw [at_]
        exact later fun _ _ _ => ⟨marked, found, ready⟩
    · intro w latest onward absent
      obtain ⟨l, there, _⟩ := onward.grows.record? holds
      rw [path, absent] at there
      cases there

theorem openParent_alone {site : Site} (same : site.store = s)
    (shut : ∀ path, s.Shut path) (timely : site.Timely) :
    ∃ parent, ((e.openParent input world).runOn site).1 = .ok parent ∧
      e.materializer.Trodden scope traces origin ((e.openParent input world).runOn site).2.store ∧
      ∀ trace, Picture.Treads (e.materializer.shows origin) e.materializer world
        (Path.components folder ++ [name])
        top trace → e.materializer.Bears origin
          ((e.openParent input world).runOn site).2.store trace := by
  subst same
  have looking :=
    looking_openParent wf within trodden normalized root walks isFolder named vacant left
  obtain ⟨b, _, ⟨rfl, ⟨parent, ok⟩, _, _, bears⟩, early, trodden', onward, _⟩ :=
    Program.Ends.alone wf within looking trodden trodden (.refl _ _)
      (fun path _ => shut path) timely
  exact ⟨parent, ok, trodden',
    fun trace treads => (bears trace treads).later early.regular onward.grows⟩

end Looking

end SeedTree
