import SeedTree.Proofs.Creation
import SeedTree.Proofs.Engine.Settling

/- A listing, the lookups of what lies in the folder and the decisions that the listing leaves in
   the store give the same answer: each child that is listed is found and counts as visible, and no
   other. -/
namespace SeedTree.Session

open SeedTree.Path (IsName)

variable {scope : Scope} {a b : Session} {site : Site} {nodes : List Node} {n : Node}
  {input path name : String} {world : World}

/-- How a folder's children are told, each by its name, once they have been listed: as nodes of the
listing, as records that the store shows, and as answers to lookups. -/
structure Concurs (a b : Session) (world : World) (path name : String)
    (listed found : Option Node) : Prop where
  /-- The record has at most been given decisions since it was listed. -/
  backfills : Option.Rel Node.Backfills listed found
  visible : b.store.getVisible (Path.join path name) world = .ok found
  /-- A lookup answers with the record, or misses the child. -/
  looked : ∀ below, Path.normalize below = .ok (Path.join path name) →
    ∀ site : Site, site.store = b.store →
    site.Timely → ((b.engine.getNode below world).runOn site).1 =
      found.elim (.error (.missing (Path.join path name))) .ok
  /-- And so does one without the listing before it. -/
  before : ∀ below, Path.normalize below = .ok (Path.join path name) →
    ∀ site : Site, site.store = a.store →
    site.Timely → Agree (Node.Echoes a.engine.materializer a.store)
      ((a.engine.getNode below world).runOn site).1
      (found.elim (.error (.missing (Path.join path name))) .ok)

/-- A listing of a folder and all other ways to tell what it holds. -/
structure Accords (a b : Session) (world : World) (input path : String)
    (nodes : List Node) : Prop where
  normalized : Path.normalize input = .ok path
  sorted : nodes.Pairwise fun n k => Bytes.order (utf8 n.name) (utf8 k.name) = .lt
  named : ∀ n ∈ nodes, IsName n.name ∧ n.path = Path.join path n.name
  children : ∀ name, IsName name → Path.normalize (Path.join input name) =
    .ok (Path.join path name) ∧
    ∃ found, Concurs a b world path name (nodes.find? (·.name = name)) found
  /-- What the store lists as visible is what has been listed. -/
  kept : ∃ visible, b.store.listVisible path world = .ok visible ∧
    List.Forall₂ Node.Backfills nodes visible

section Listing

variable (sound : a.Sound scope) (offers : a.engine.worlds.Offers world)
  (here : site.store = a.store)
  (timely : site.Timely) (listed : ((a.engine.listChildren input world).runOn site).1 = .ok nodes)

include sound offers here timely listed

theorem Sound.tells : ∃ path, Path.normalize input = .ok path ∧
    (a.after (.listChildren input world) site).store.Tells world path nodes := by
  have wf := sound.valid.wellFormed
  rw [← here] at wf
  have ends : (a.engine.listChildren input world).Ends
    (Setting.alone scope a.engine.materializer.parameters) []
    site.store _ := Engine.ends_listChildren_settles wf offers sound.valid.ready
  exact ends.runOn timely nodes listed

end Listing

theorem Valid.listing_walks (valid : a.Valid scope)
    (here : site.store = a.store) (timely : site.Timely) :
    Moves a.engine.materializer scope Deed.Walks a.store
      (a.after (.listChildren input world) site).store := by
  have leaves : (Operation.listChildren input world).Leaves a.engine.materializer scope _ a.store
      (a.after (.listChildren input world) site).store :=
        valid.leaves (Operation.fits_of_reads trivial) here timely
  generalize (a.after (.listChildren input world) site).store = t at leaves ⊢
  cases leaves with
  | removed _ removes => exact removes.elim
  | kept moves =>
    refine moves.mono fun deed does => ?_
    cases deed with
    | changed other change =>
      cases change with
      | content upload time => exact does.elim
      | redecision decider present => exact does.elim
      | _ => exact does
    | _ => exact does

theorem Valid.listing_ages (valid : a.Valid scope) (here : site.store = a.store)
    (timely : site.Timely) (path : String) : a.engine.materializer.Ages (a.store.record? path)
      ((a.after (.listChildren input world) site).store.record? path) :=
  (valid.listing_walks here timely).ages valid.ready.within valid.wellFormed fun _ walks =>
    Deed.passes_of_walks walks path

theorem Sound.looks_told {folder below : String} (sound : b.Sound scope)
    (offers : b.engine.worlds.Offers world) (tells : b.store.Tells world folder nodes)
    (normal : Path.IsNormal folder) (named : IsName name)
    (spelled : Path.normalize below = .ok (Path.join folder name)) (there : site.store = b.store)
    (timely : site.Timely) : ((b.engine.getNode below world).runOn site).1 =
      (b.store.shown? world (Path.join folder name)).elim
        (.error (.missing (Path.join folder name))) .ok := by
  have wf : site.store.WellFormed scope b.engine.materializer.parameters := by
    rw [there]
    exact sound.valid.wellFormed
  rw [← there] at tells ⊢
  have ends : (b.engine.getNode below world).Ends
    (Setting.alone scope b.engine.materializer.parameters) [] site.store _ :=
      Engine.ends_getNode_settled wf offers tells normal named spelled
  exact (ends.runOn timely).2

/-- A listing that succeeds agrees with lookups, before it and after it, and with what the store
shows then. -/
theorem listing_accords (reached : a.Reached scope) (offers : a.engine.worlds.Offers world)
    (here : site.store = a.store) (timely : site.Timely)
    (listed : ((a.engine.listChildren input world).runOn site).1 = .ok nodes) :
    ∃ path, Accords a (a.after (.listChildren input world) site) world input path nodes := by
  have sound := reached.sound
  have fits : (Operation.listChildren input world).Fits := Operation.fits_of_reads trivial
  have sound' : (a.after (.listChildren input world) site).Sound scope :=
    sound.turn (.operates _ fits here timely)
  have depicts : a.engine.materializer.Depicts a.picture a.store := .self _ _
  have depicts' := sound.quiet depicts fits here timely (.reads trivial)
  obtain ⟨path, normalized, tells⟩ := sound.tells offers here timely listed
  have normal := Path.normalize_isNormal normalized
  have wf := sound'.valid.wellFormed
  refine ⟨path, normalized, tells.sorted, fun n member => ?_, fun name named =>
    ⟨Path.normalize_join normalized named, _, tells.shown name named, wf.getVisible _ _, ?_, ?_⟩,
    tells.listVisible wf normal⟩
  · have named := tells.named n member
    have known := tells.shown n.name named
    rw [find?_of_distinct tells.sorted.distinct member] at known
    generalize found : (a.after (.listChildren input world) site).store.shown? world
      (Path.join path n.name) = kept
      at known
    cases known with
    | some grown =>
      have there := (Option.filter_eq_some_iff.mp found).1
      rw [← grown.place.path]
      exact ⟨named, (wf.holds there).2⟩
  · exact fun below same late there late_timely =>
      sound'.looks_told offers tells normal named same there late_timely
  · intro below same early here' early_timely
    have engine : (a.after (.listChildren input world) site).engine = a.engine := rfl
    have inhabited : ∀ n, a.picture.getNode a.engine below world = .ok n → n.path ≠ "" := by
      intro n looked empty
      have place := (depicts.placed sound.valid.wellFormed).getNode_path looked
      rw [empty] at place
      have unnamed : Path.normalize "" = .ok "" := Path.normalize_isNormal place
      exact absurd unnamed (by decide +kernel)
    have alike :=
      sound.looks_alike sound' engine depicts depicts' here' early_timely (Site.still_store _)
        (Site.still_timely _)
          (fun path _ => sound.valid.listing_ages here timely path) rfl inhabited
    rw [← sound'.looks_told offers tells normal named same (Site.still_store _)
      (Site.still_timely _)]
    exact alike

theorem halfAsked_accords :
    halfAdded.Reached dimScope ∧ halfAdded.engine.worlds.Offers (.named "dim") ∧
    ∃ nodes path,
      ((halfAdded.engine.listChildren "/" (.named "dim")).runOn (.still halfAdded.store)).1 =
        .ok nodes ∧
      Accords halfAdded halfAsked (.named "dim") "/" path nodes := by
  obtain ⟨start, begins, turns⟩ := newListed_unaware.reached
  have reached : halfAdded.Reached dimScope := ⟨start, begins, .more turns trivial halfAdded_turn⟩
  have offers : halfAdded.engine.worlds.Offers (.named "dim") :=
    (mem_iff_getElem?_some _ _).mpr ⟨_, Std.ExtTreeMap.getElem?_insert_self⟩
  have good :
      ((halfAdded.engine.listChildren "/" (.named "dim")).runOn (.still halfAdded.store)).1.isOk =
        true := by
    decide +kernel
  cases listed :
    ((halfAdded.engine.listChildren "/" (.named "dim")).runOn (.still halfAdded.store)).1 with
  | error failure =>
    rw [listed] at good
    cases good
  | ok nodes =>
    obtain ⟨path, accords⟩ :=
      listing_accords reached offers (Site.still_store _) (Site.still_timely _) listed
    exact ⟨reached, offers, nodes, path, rfl, accords⟩

end SeedTree.Session
