import SeedTree.Proofs.Agreement
import SeedTree.Proofs.Engine.Relisting
import SeedTree.Proofs.Laziness
import SeedTree.Proofs.Path.DepthFirst

/- Browsing: one folder after another is listed in a world. What a world shows is taken from the
   picture that the store had at the beginning, which no listing changes. -/
namespace SeedTree

open Attempt

variable {e : Engine} {m : Materializer} {scope : Scope} {v : Picture}
  {n top : Node} {nodes : List Node}
  {names more paths others : List String} {path folder high : String} {depth : Nat} {world : World}
  {region other : String → Prop}

namespace Picture

theorem of_walk_append (walks : v.walk m world (names ++ more) top = .ok n) :
    ∃ here, v.walk m world names top = .ok here ∧ v.walk m world more here = .ok n := by
  induction names generalizing top with
  | nil => exact ⟨top, rfl, walks⟩
  | cons name names ih =>
    obtain ⟨isFolder, child, lies, seen, walks⟩ := of_walk_cons walks
    obtain ⟨here, first, rest⟩ := ih walks
    refine ⟨here, ?_, rest⟩
    simp only [walk, isFolder, lies, seen, Except.bind, Bool.not_true,
      Bool.false_eq_true, if_false, if_true]
    exact first

theorem getNode_normal (v : Picture) (offers : e.worlds.Offers world)
    (normal : Path.IsNormal path) :
    v.getNode e path world = v.resolve e.materializer world path := by
  rw [getNode, Engine.accept_ok_iff.mpr ⟨WorldTable.check_of_offers offers, normal⟩]
  rfl

def Shows (v : Picture) (m : Materializer) (world : World) (path : String) : Prop :=
  ∃ n, v.resolve m world path = .ok n

theorem Shows.above (shows : v.Shows m world path) (normal : Path.IsNormal high)
    (normal' : Path.IsNormal path) (inside : Path.Within high path) :
    ∃ n, v.resolve m world high = .ok n ∧ (path ≠ high → n.isFolder = true) := by
  obtain ⟨n, resolves⟩ := shows
  obtain ⟨first, root, walks⟩ := of_bind_ok resolves
  obtain ⟨rest, along⟩ := inside
  cases first with
  | none => cases walks
  | some top =>
    rw [← along] at walks
    obtain ⟨here, arrives, onward⟩ := of_walk_append walks
    refine ⟨here, by rw [resolve, root]; exact arrives, fun apart => ?_⟩
    cases rest with
    | nil =>
      rw [List.append_nil] at along
      exact absurd (normal.eq_of_components normal' along).symm apart
    | cons name rest => exact (of_walk_cons onward).1

/-- The folders that a world shows at a path and below it, nearer than some depth. -/
structure Opens (v : Picture) (m : Materializer) (world : World) (top : String)
    (depth : Nat) (folder : String) : Prop where
  normal : Path.IsNormal folder
  within : Path.Within top folder
  near : Path.levels top folder < depth
  visible : ∃ n, v.resolve m world folder = .ok n ∧ n.isFolder = true

/-- The paths in a region at which a world shows something, in depth-first order. -/
structure Enumerates (v : Picture) (m : Materializer) (world : World)
    (region : String → Prop) (paths : List String) : Prop where
  ordered : paths.Pairwise Path.Precedes
  members : ∀ path, path ∈ paths ↔ Path.IsNormal path ∧ region path ∧ v.Shows m world path

namespace Enumerates

theorem unique (first : v.Enumerates m world region paths)
    (second : v.Enumerates m world region others) : others = paths :=
  Path.eq_of_precedes second.ordered first.ordered fun path =>
    (second.members path).trans (first.members path).symm

theorem congr (whole : v.Enumerates m world region paths)
    (same : ∀ path, Path.IsNormal path → v.Shows m world path → (region path ↔ other path)) :
    v.Enumerates m world other paths where
  ordered := whole.ordered
  members := fun path => (whole.members path).trans <| and_congr_right fun normal =>
    ⟨fun ⟨inside, shows⟩ => ⟨(same path normal shows).mp inside, shows⟩,
      fun ⟨inside, shows⟩ => ⟨(same path normal shows).mpr inside, shows⟩⟩

theorem none (hidden : ∀ path, Path.IsNormal path → region path → ¬ v.Shows m world path) :
    v.Enumerates m world region [] where
  ordered := .nil
  members := fun path => by
    refine ⟨fun member => absurd member List.not_mem_nil, ?_⟩
    rintro ⟨normal, inside, shows⟩
    exact absurd shows (hidden path normal inside)

theorem one (normal : Path.IsNormal path) (shows : v.Shows m world path) :
    v.Enumerates m world (· = path) [path] where
  ordered := List.pairwise_singleton _ _
  members := fun other => by
    rw [List.mem_singleton]
    refine ⟨?_, fun known => known.2.1⟩
    rintro rfl
    exact ⟨normal, rfl, shows⟩

theorem append (first : v.Enumerates m world region paths)
    (second : v.Enumerates m world other others)
    (before : ∀ path next, Path.IsNormal path → Path.IsNormal next → region path → other next →
      Path.Precedes path next) : v.Enumerates m world
        (fun path => region path ∨ other path) (paths ++ others) where
  ordered := by
    refine List.pairwise_append.mpr ⟨first.ordered, second.ordered, fun path here next there => ?_⟩
    obtain ⟨normal, inside, _⟩ := (first.members path).mp here
    obtain ⟨normal', inside', _⟩ := (second.members next).mp there
    exact before path next normal normal' inside inside'
  members := fun path => by
    rw [List.mem_append, first.members, second.members]
    tauto

end Enumerates

/-- The nodes that a listing of a folder answers are what the world shows in the folder. -/
structure Kids (v : Picture) (m : Materializer) (world : World) (folder : String)
    (nodes : List Node) : Prop where
  sorted : Blueprint.Sorted nodes
  each : ∀ n ∈ nodes, Path.IsName n.name ∧ n.path = Path.join folder n.name ∧
    ∃ drawn, v.resolve m world n.path = .ok drawn ∧ drawn.name = n.name ∧
      drawn.isFolder = n.isFolder
  all : ∀ name, Path.IsName name → v.Shows m world (Path.join folder name) →
    ∃ n ∈ nodes, n.name = name

namespace Kids

variable (kids : v.Kids m world folder nodes) (normal : Path.IsNormal folder)

include kids normal

theorem below (member : n ∈ nodes) (inside : Path.Within n.path path) :
    Path.Within folder path ∧ Path.levels folder path = Path.levels n.path path + 1 := by
  obtain ⟨named, place, _⟩ := kids.each n member
  rw [place] at inside ⊢
  exact ⟨(Path.within_join normal named).trans inside, Path.levels_below normal named inside⟩

theorem towards (normal' : Path.IsNormal path) (shows : v.Shows m world path)
    (inside : Path.Within folder path) (apart : path ≠ folder) :
    ∃ n ∈ nodes, Path.Within n.path path ∧
      Path.levels folder path = Path.levels n.path path + 1 := by
  obtain ⟨name, named, onward⟩ := Path.name_towards normal normal' inside apart
  obtain ⟨shown, resolves, _⟩ := shows.above (Path.isNormal_join normal named) normal' onward
  obtain ⟨n, member, rfl⟩ := kids.all name named ⟨shown, resolves⟩
  rw [← (kids.each n member).2.1] at onward
  exact ⟨n, member, onward, (kids.below normal member onward).2⟩

theorem opens_iff {other : String} : (∃ n ∈ nodes, v.Opens m world n.path depth other) ↔
    v.Opens m world folder (depth + 1) other ∧ other ≠ folder := by
  constructor
  · rintro ⟨n, member, opens⟩
    obtain ⟨inside, far⟩ := kids.below normal member opens.within
    have near := opens.near
    refine ⟨⟨opens.normal, inside, by omega, opens.visible⟩, ?_⟩
    rintro rfl
    rw [Path.levels_self] at far
    omega
  · rintro ⟨opens, apart⟩
    obtain ⟨shown, found, _⟩ := opens.visible
    obtain ⟨n, member, onward, far⟩ :=
      kids.towards normal opens.normal ⟨shown, found⟩ opens.within apart
    have near := opens.near
    exact ⟨n, member, opens.normal, onward, by omega, opens.visible⟩

theorem beneath_iff (normal' : Path.IsNormal path) (shows : v.Shows m world path) :
    (∃ n ∈ nodes, Path.Within n.path path ∧ Path.levels n.path path ≤ depth) ↔
      Path.Beneath folder (depth + 1) path := by
  constructor
  · rintro ⟨n, member, onward, near⟩
    obtain ⟨inside, far⟩ := kids.below normal member onward
    refine ⟨inside, ?_, by omega⟩
    rintro rfl
    rw [Path.levels_self] at far
    omega
  · intro beneath
    obtain ⟨n, member, onward, far⟩ :=
      kids.towards normal normal' shows beneath.within beneath.apart
    have near := beneath.near
    exact ⟨n, member, onward, by omega⟩

end Kids

theorem opens_succ_iff (normal : Path.IsNormal folder) (resolves : v.resolve m world folder = .ok n)
    (isFolder : n.isFolder = true) (depth : Nat) (other : String) :
    (other = folder ∨ v.Opens m world folder (depth + 1) other ∧ other ≠ folder) ↔
      v.Opens m world folder (depth + 1) other := by
  constructor
  · rintro (rfl | ⟨opens, _⟩)
    · exact ⟨normal, Path.within_refl _,
        by rw [Path.levels_self]; exact Nat.succ_pos _, n, resolves, isFolder⟩
    · exact opens
  · intro opens
    by_cases same : other = folder
    · exact Or.inl same
    · exact Or.inr ⟨opens, same⟩

end Picture

namespace Session

variable {a b c : Session} {site : Site} {opened wider : String → Prop}
  {operation : Option Operation}

def Browses (world : World) (opened : String → Prop) : Option Operation → Prop
  | some (.listChildren folder asked) => asked = world ∧ opened folder
  | _ => False

theorem browses_listing (member : opened folder) :
    Browses world opened (some (.listChildren folder world)) :=
  ⟨rfl, member⟩

theorem Browses.mono (browses : Browses world opened operation)
    (wide : ∀ folder, opened folder → wider folder) : Browses world wider operation := by
  unfold Browses at browses ⊢
  split at browses
  · exact browses.imp_right (wide _)
  · exact browses

theorem Turns.browses_mono (turns : Turns scope (Browses world opened) a b)
    (wide : ∀ folder, opened folder → wider folder) : Turns scope (Browses world wider) a b :=
  turns.mono fun _ browses => browses.mono wide

theorem Turns.trans {may : Option Operation → Prop} (early : Turns scope may a b)
    (late : Turns scope may b c) : Turns scope may a c := by
  induction late with
  | none => exact early
  | more rest permitted turn ih => exact .more (ih early) permitted turn

theorem Turn.browsed (turn : Turn scope operation a b) (browses : Browses world opened operation) :
    ∃ folder site, opened folder ∧ site.store = a.store ∧ site.Timely ∧
      b = a.after (.listChildren folder world) site := by
  cases turn with
  | reopens => exact browses.elim
  | operates r fits here timely =>
    cases r with
    | listChildren folder asked =>
      obtain ⟨rfl, opened⟩ := browses
      exact ⟨folder, _, opened, here, timely, rfl⟩
    | _ => exact browses.elim

/-- A session from which everything is seen as in a picture. -/
structure Viewed (scope : Scope) (e : Engine) (v : Picture) (a : Session) : Prop where
  sound : a.Sound scope
  engine : a.engine = e
  depicts : e.materializer.Depicts v a.store

theorem Sound.relists (sound : a.Sound scope) (offers : a.engine.worlds.Offers world)
    (normal : Path.IsNormal folder)
    (told : a.store.Told world folder) (here : site.store = a.store) (timely : site.Timely) :
    (a.after (.listChildren folder world) site).store = site.store ∧
      ∃ nodes, ((a.engine.listChildren folder world).runOn site).1 = .ok nodes := by
  have wf := sound.valid.wellFormed
  rw [← here] at wf told
  have ends : (a.engine.listChildren folder world).Ends
    (Setting.alone scope a.engine.materializer.parameters) []
      site.store _ := Engine.ends_listChildren_told wf offers normal told
  exact ends.runOn timely

section Listing

variable (viewed : a.Viewed scope e v) (offers : e.worlds.Offers world)
  (normal : Path.IsNormal folder) (here : site.store = a.store) (timely : site.Timely)
  (answered : ((e.listChildren folder world).runOn site).1 = .ok nodes)

include viewed offers normal here timely answered

theorem Viewed.listed : v.Kids e.materializer world folder nodes ∧
    (a.after (.listChildren folder world) site).store.Told world folder := by
  obtain ⟨sound, rfl, depicts⟩ := viewed
  have fits : (Operation.listChildren folder world).Fits := Operation.fits_of_reads trivial
  have later : (a.after (.listChildren folder world) site).Sound scope :=
    sound.turn (.operates _ fits here timely)
  have depicts' := sound.quiet depicts fits here timely (.reads trivial)
  obtain ⟨path, normalized, tells⟩ := sound.tells offers here timely answered
  cases normalized.symm.trans normal
  have wf := later.valid.wellFormed
  have seen : ∀ name, Path.IsName name → Agree (Node.StandsFor a.engine.materializer)
      (v.resolve a.engine.materializer world (Path.join folder name))
        (((a.after (.listChildren folder world) site).store.shown? world
          (Path.join folder name)).elim
          (.error (.missing (Path.join folder name))) .ok) := by
    intro name named
    have normal' : Path.normalize (Path.join folder name) = .ok (Path.join folder name) :=
      Path.isNormal_join normal named
    have told : ((a.engine.getNode (Path.join folder name) world).runOn _).1 = _ :=
      later.looks_told offers tells normal named normal' (Site.still_store _) (Site.still_timely _)
    have answer :=
      (later.looks depicts' (Site.still_store _) (Site.still_timely _)
        (Path.join folder name) world).1
    change Agree _ (v.getNode a.engine (Path.join folder name) world)
      ((a.engine.getNode (Path.join folder name) world).runOn _).1 at answer
    rw [told, v.getNode_normal offers normal'] at answer
    exact answer
  refine ⟨⟨tells.sorted, fun n member => ?_, fun name named shows => ?_⟩, tells.told⟩
  · have named := tells.named n member
    have known := tells.shown n.name named
    have answer := seen n.name named
    rw [find?_of_distinct tells.sorted.distinct member] at known
    generalize found : Store.shown? _ world (Path.join folder n.name) = kept at known answer
    cases known with
    | @some _ k grown =>
      have place := (wf.holds (Option.filter_eq_some_iff.mp found).1).2
      rw [grown.place.path] at place
      obtain ⟨drawn, resolves, stands⟩ := answer.of_ok
      refine ⟨named, place, drawn, by rw [place, resolves], ?_, ?_⟩
      · rw [← stands.like.place.name, grown.place.name]
      · rw [← stands.like.isFolder, grown.keeps.isFolder]
  · obtain ⟨drawn, resolves⟩ := shows
    have known := tells.shown name named
    have answer := seen name named
    rw [resolves] at answer
    generalize Store.shown? _ world (Path.join folder name) = kept at known answer
    generalize there : nodes.find? (·.name = name) = found at known
    cases known with
    | none => exact answer.elim
    | @some n k grown =>
      exact ⟨n, List.mem_of_find?_eq_some there, by simpa using List.find?_some there⟩

end Listing

section Browsing

variable (viewed : a.Viewed scope e v) (browsing : Turns scope (Browses world opened) a b)

include viewed browsing

theorem Viewed.turns : b.Viewed scope e v ∧
    Moves e.materializer scope Deed.Walks a.store b.store := by
  induction browsing with
  | none a => exact ⟨viewed, .none _⟩
  | more rest browses turn ih =>
    obtain ⟨⟨sound, rfl, depicts⟩, moves⟩ := ih viewed
    have sound' := sound.turn turn
    obtain ⟨folder, site, _, here, timely, rfl⟩ := turn.browsed browses
    have walks : Moves _ scope Deed.Walks _
        (Session.after _ (.listChildren folder world) site).store :=
      sound.valid.listing_walks here timely
    have depicts' := depicts.reads sound.valid.ready.within sound.valid.wellFormed walks fun _ =>
      Deed.Walks.reads
    exact ⟨⟨sound', rfl, depicts'⟩, moves.append walks⟩

theorem Viewed.attests_after (attests : a.store.Attests world path) :
    b.store.Attests world path := by
  have moves := (viewed.turns browsing).2
  obtain ⟨sound, rfl, _⟩ := viewed
  exact attests.walks sound.valid.ready.within sound.valid.wellFormed moves

theorem Viewed.told_after (told : a.store.Told world folder) : b.store.Told world folder := by
  have moves := (viewed.turns browsing).2
  obtain ⟨sound, rfl, _⟩ := viewed
  exact moves.told sound.valid.ready.within sound.valid.wellFormed told

theorem Viewed.confines (normal : ∀ folder, opened folder → Path.IsNormal folder) :
    a.store.Confines (fun high => ∃ folder, opened folder ∧ Path.Within high folder)
      (fun _ => True) b.store := by
  induction browsing with
  | none a => exact .refl _
  | more rest browses turn ih =>
    have valid := (viewed.turns rest).1.sound.valid
    obtain ⟨folder, site, member, here, timely, rfl⟩ := turn.browsed browses
    have confines :=
      valid.confines (Operation.fits_of_reads trivial : (Operation.listChildren folder world).Fits)
        here timely
    refine (ih viewed).trans ⟨confines.stays, fun path absent there => ?_⟩
    obtain ⟨high, parent, place, normalized, inside⟩ := confines.placed path absent there
    cases normalized.symm.trans (normal folder member)
    exact ⟨high, parent, folder, member, inside⟩

theorem Viewed.still (offers : e.worlds.Offers world)
    (normal : ∀ folder, opened folder → Path.IsNormal folder)
    (told : ∀ folder, opened folder → a.store.Told world folder) : b.store = a.store := by
  induction browsing with
  | none a => rfl
  | more rest browses turn ih =>
    have same := ih viewed told
    obtain ⟨⟨sound, rfl, _⟩, _⟩ := viewed.turns rest
    obtain ⟨folder, site, member, here, timely, rfl⟩ := turn.browsed browses
    rw [← same]
    exact (sound.relists offers (normal folder member)
      (same ▸ told folder member) here timely).1.trans here

end Browsing

end Session

end SeedTree
