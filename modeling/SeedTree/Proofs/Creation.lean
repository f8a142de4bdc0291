import SeedTree.Proofs.Deletion
import SeedTree.Proofs.Engine.Chain
import SeedTree.Proofs.LateWorld
import SeedTree.Proofs.Usable

/- A node that is made in a world is found in this world and in the primary one for as long as it is
   on record. Other worlds that were listed when it was made find it only once it has been made or
   uploaded in them as well. -/
namespace SeedTree

open SeedTree.Path (Within)

variable {e : Engine} {m : Materializer} {scope : Scope} {s : Store} {n k top : Node}
  {input folder name path : String} {world : World} {r : Operation}

section Hiding

variable (wf : s.WellFormed scope m.parameters)
  (told : ∀ k, ∃ visible, m.sees k world = .ok visible)

include wf told

theorem Store.WellFormed.walk_hidden {names : List String}
    (valid : ∀ name ∈ names, Path.IsName name)
    (some : names ≠ []) (holds : s.Holds top)
    (found : s.record? (names.foldl Path.join top.path) = .some n)
    (hidden : m.sees n world = .ok false) : ∃ above, Within above (names.foldl Path.join top.path) ∧
      m.walk s world names top = .error (.missing above) := by
  induction names generalizing top with
  | nil => exact absurd rfl some
  | cons name more ih =>
    obtain ⟨named, rest⟩ := List.forall_mem_cons.mp valid
    have normal := (wf.shaped holds).normal
    have normal' := Path.isNormal_join normal named
    have inside : Within (Path.join top.path name)
        (more.foldl Path.join (Path.join top.path name)) :=
      Path.within_foldl normal' rest
    rw [List.foldl_cons] at found ⊢
    have whole : Path.IsNormal (more.foldl Path.join (Path.join top.path name)) := by
      obtain ⟨stands, place⟩ := wf.holds found
      rw [← place]
      exact (wf.shaped stands).normal
    obtain ⟨⟨child, there⟩, _⟩ := wf.record_above whole found normal' inside
    obtain ⟨stands, place⟩ := wf.holds there
    obtain ⟨_, there', isFolder, ready⟩ :=
      wf.parented child _ stands (wf.parent_join normal named there)
    cases Store.Holds.unique holds there'
    obtain ⟨visible, seen⟩ := told child
    have looked : m.lookup s top name = .ok (.some child) := by
      rw [m.lookup_generated s ready, there]
    simp only [Materializer.walk, isFolder, looked, Except.bind, seen, Bool.not_true,
      Bool.false_eq_true, if_false]
    cases visible with
    | false => exact ⟨Path.join top.path name, inside, rfl⟩
    | true =>
      have further : more ≠ [] := by
        rintro rfl
        rw [List.foldl_nil] at found
        cases Store.Holds.unique found there
        rw [hidden] at seen
        cases seen
      rw [← place] at found ⊢
      exact ih rest further stands found

theorem Store.WellFormed.resolved_hidden (normal : Path.IsNormal path) (inner : path ≠ Path.root)
    (found : s.record? path = some n) (hidden : m.sees n world = .ok false) :
    ∃ above, Within above path ∧ m.resolved s world path = .error (.missing above) := by
  obtain ⟨top, root⟩ := wf.root
  obtain ⟨holds, place⟩ := wf.holds root
  have along : (Path.components path).foldl Path.join top.path = path := by
    rw [place, normal.foldl_join]
  have some : Path.components path ≠ [] := by
    intro none
    rw [← Path.components_root] at none
    exact inner (normal.eq_of_components Path.isNormal_root none)
  have missed :=
    wf.walk_hidden told normal.components.1 some holds (by rw [along]; exact found) hidden
  rw [along] at missed
  rw [Materializer.resolved, root]
  exact missed

end Hiding

namespace Session

/-- Every lookup of a path in a world answers with the node. -/
def Finds (a : Session) (input : String) (world : World) (n : Node) : Prop :=
  ∀ site : Site, site.store = a.store → site.Timely →
    ((a.engine.getNode input world).runOn site).1 = .ok n

/-- Every lookup of a path in a world misses it, or a folder above it. -/
def Misses (a : Session) (input : String) (world : World) (path : String) : Prop :=
  ∀ site : Site, site.store = a.store → site.Timely → ∃ above, Within above path ∧
    ((a.engine.getNode input world).runOn site).1 = .error (.missing above)

variable {a b : Session} {site : Site} {past : List Episode} {episode : Episode}

theorem Valid.finds (valid : a.Valid scope) (offers : a.engine.worlds.Offers world)
    (normalized : Path.normalize input = .ok path) (attests : a.store.Attests world path)
    (found : a.store.record? path = some n) : a.Finds input world n := by
  intro site here timely
  have wf := valid.wellFormed
  rw [← here] at wf attests found
  have ends : (a.engine.getNode input world).Ends
    (Setting.alone scope a.engine.materializer.parameters) []
    site.store _ := Engine.ends_getNode_attested wf offers normalized attests found
  exact (ends.runOn timely).2

theorem Valid.misses (valid : a.Valid scope) (offers : a.engine.worlds.Offers world)
    (normalized : Path.normalize input = .ok path) (inner : path ≠ Path.root)
    (found : a.store.record? path = some n)
    (hidden : a.engine.materializer.sees n world = .ok false) : a.Misses input world path := by
  intro site here timely
  have wf := valid.wellFormed
  rw [← here] at wf found
  have told := fun n => Materializer.told_of_offers (m := a.engine.materializer) offers n
  obtain ⟨above, inside, missed⟩ :=
    wf.resolved_hidden told (Path.normalize_isNormal normalized) inner found hidden
  have ends : (a.engine.getNode input world).Ends
    (Setting.alone scope a.engine.materializer.parameters) []
    site.store _ := ends_getNode wf valid.ready
  have known := (ends.runOn timely).answer
  rw [Engine.accept_ok_iff.mpr ⟨WorldTable.check_of_offers offers, normalized⟩] at known
  simp only [Except.bind, missed] at known
  exact ⟨above, inside, known.of_eq_error⟩

theorem Lives.attests (lives : Lives scope path past a n b k) (valid : a.Valid scope)
    (normal : Path.IsNormal path)
    (attests : a.store.Attests world path) : b.store.Attests world path := by
  induction lives with
  | here => exact attests
  | on before passes found ih =>
    obtain ⟨middle, _⟩ := before.valid valid
    obtain ⟨kind, turn⟩ := passes.turn
    have later := turn.valid middle
    intro above normal' inside
    obtain ⟨n, there, decided⟩ := ih valid attests above normal' inside
    obtain ⟨holds, place⟩ := middle.wellFormed.holds there
    obtain ⟨⟨k, found'⟩, _⟩ := later.wellFormed.record_above normal found normal' inside
    rw [← place] at found'
    exact ⟨k, by rw [← place, found'], (passes.becomes middle holds found').decision decided⟩

section Showing

variable (valid : a.Valid scope) (fits : r.Fits)
  (here : site.store = a.store) (timely : site.Timely)
  (succeeded : ((r.run a.engine).runOn site).1.isOk = true)

include valid fits here timely succeeded

theorem Valid.attests_created (offers : a.engine.worlds.Offers world)
    (creates : r.Creates input world name)
    (makes : r.Makes path) : (a.after r site).store.Attests world path := by
  have wf := valid.wellFormed
  rw [← here] at wf
  have ends : (r.run a.engine).Ends
      (Setting.alone scope a.engine.materializer.parameters) [] site.store _ :=
    Operation.ends_creates_attests wf valid.ready offers creates fits
  exact ends.runOn timely succeeded path makes

theorem Valid.attests_chain (offers : a.engine.worlds.Offers world)
    (same : r = .createFolderAll input world)
    (makes : r.Makes path) : (a.after r site).store.Attests world path := by
  subst same
  obtain ⟨full, names, normalized, _, start, rfl⟩ := makes
  have wf := valid.wellFormed
  rw [← here] at wf
  have ends : (a.engine.createFolderAll input world).Ends
      (Setting.alone scope a.engine.materializer.parameters) [] site.store _ :=
    ends_createFolderAll_chains wf offers normalized valid.ready fits
  have known := ends.runOn timely
  change ((a.engine.createFolderAll input world).runOn site).1.isOk = true at succeeded
  change ((a.engine.createFolderAll input world).runOn site).2.store.Attests world
    (Path.ofNames names)
  cases result : ((a.engine.createFolderAll input world).runOn site).1 with
  | error failure =>
    rw [result] at succeeded
    cases succeeded
  | ok n =>
    rw [result] at known
    cases known with
    | whole place chains =>
      have valid_names := fun name member =>
        (Path.normalize_isNormal normalized).components.1 name (start.subset member)
      refine chains.attests.within ?_
      rw [place, Within, Path.components_ofNames valid_names]
      exact start

theorem Valid.attests_shown {other : String} (offers : other ∈ a.engine.worlds.entries)
    (shown : r.Shows true other path) : (a.after r site).store.Attests (.named other) path := by
  cases r with
  | createFolder input world name =>
    obtain ⟨_, rfl, makes⟩ := shown
    exact valid.attests_created fits here timely succeeded offers .folder makes
  | uploadFile input world name data =>
    obtain ⟨_, rfl, makes⟩ := shown
    exact valid.attests_created fits here timely succeeded offers (.file data) makes
  | createFolderAll input world =>
    obtain ⟨rfl, makes⟩ := shown
    exact valid.attests_chain fits here timely succeeded offers rfl makes
  | _ => exact shown.elim

end Showing

theorem listed_of_shown {other : String} (secondary : other ≠ World.primaryName)
    (shown : r.Shows true other path)
    (succeeded : ((r.run a.engine).runOn site).1.isOk = true) :
    other ∈ a.engine.worlds.entries := by
  refine WorldTable.mem_of_check ?_ secondary
  cases checked : a.engine.worlds.check (.named other) with
  | ok passed => rfl
  | error fault =>
    cases r with
    | createFolder input world name =>
      obtain ⟨_, rfl, _⟩ := shown
      simp only [Operation.run, Engine.createFolder, checked] at succeeded
      cases succeeded
    | uploadFile input world name data =>
      obtain ⟨_, rfl, _⟩ := shown
      simp only [Operation.run, Engine.uploadFile, checked] at succeeded
      cases succeeded
    | createFolderAll input world =>
      obtain ⟨rfl, _⟩ := shown
      simp only [Operation.run, Engine.createFolderAll, checked] at succeeded
      cases succeeded
    | _ => exact shown.elim

theorem Reached.secondary (reached : a.Reached scope) {other : String}
    (listed : other ∈ a.engine.worlds.entries) : other ≠ World.primaryName := by
  rintro rfl
  obtain ⟨checked, engine⟩ := reached.configured
  obtain ⟨probability, found⟩ := (mem_iff_getElem?_some _ _).mp listed
  rw [engine] at found
  exact absurd (found.symm.trans (Config.primary_unlisted checked))
    (Option.some_ne_none probability)

theorem Lives.started (lives : Lives scope path past a n b k) : a.store.record? path = some n := by
  induction lives with
  | here found => exact found
  | on before passes found ih => exact ih

/-- Every lookup in a world that is not listed is refused, whatever it looks up. -/
def Refuses (a : Session) (other : String) : Prop :=
  ∀ input site, ((a.engine.getNode input (.named other)).runOn site).1
    = .error (.invalidConfig (.world (.unknown other a.engine.worlds.names)))

theorem refuses_unlisted {other : String} (secondary : other ≠ World.primaryName)
    (unlisted : other ∉ a.engine.worlds.entries) : a.Refuses other := by
  intro input site
  have unknown : a.engine.worlds.check (.named other)
      = .error (.unknown other a.engine.worlds.names) := by
    have missing : a.engine.worlds.entries.contains other = false := by
      rw [← Bool.not_eq_true, Std.ExtTreeMap.contains_iff_mem]
      exact unlisted
    simp only [WorldTable.check, World.name, WorldTable.resolve, if_neg secondary, missing]
    rfl
  simp only [Engine.getNode, unknown]
  rfl

section Making

variable {target : String} (reached : a.Reached scope) (offers : a.engine.worlds.Offers world)
  (creates : r.Creates input world name) (makes : r.Makes target) (fits : r.Fits)
  (here : site.store = a.store) (timely : site.Timely)
  (succeeded : ((r.run a.engine).runOn site).1.isOk = true)

include reached offers creates makes fits here timely succeeded

theorem Reached.makes_started (free : a.Bars target)
    (lives : Lives scope target past (a.after r site) n b k) :
    ∃ parent, a.engine.Makes scope parent world name n := by
  obtain ⟨folder, normalized, _, rfl⟩ := (creates.makes target).mp makes
  have valid := reached.valid
  have wf := valid.wellFormed
  rw [Bars, ← here] at free
  rw [← here] at wf
  have ends : (r.run a.engine).Ends
      (Setting.alone scope a.engine.materializer.parameters) [] site.store _ :=
    Operation.ends_creates_makes wf valid.ready offers creates fits normalized free
  obtain ⟨parent, made, makes, found⟩ := ends.runOn timely succeeded
  cases found.symm.trans lives.started
  exact ⟨parent, makes⟩

theorem Reached.stays_hidden (free : a.Bars target)
    (lives : Lives scope target past (a.after r site) n b k)
    {other : String} (listed : other ∈ a.engine.worlds.entries) (apart : world ≠ .named other)
    (unshown : ∀ episode ∈ past, ¬ episode.Shows other target) :
    k.parent ≠ none ∧ k.existence[other]? = some false := by
  have elsewhere : other ≠ world.name := by
    cases world with
    | primary => exact reached.secondary listed
    | named home =>
      rintro rfl
      exact apart rfl
  obtain ⟨parent, made⟩ :=
    reached.makes_started offers creates makes fits here timely succeeded free lives
  have later : (a.after r site).Reached scope := by
    obtain ⟨start, begins, turns⟩ := reached
    exact ⟨start, begins, .more turns trivial (.operates r fits here timely)⟩
  have becomes := record_becomes later lives
  have below : k.parent ≠ none := by
    rw [becomes.keeps.place.parent]
    exact made.below
  have before := made.hidden listed elsewhere
  refine ⟨below, ?_⟩
  cases after : k.existence[other]? with
  | none => exact absurd after (becomes.decided other (by rw [before]; exact Option.some_ne_none _))
  | some decision =>
    cases decision with
    | false => rfl
    | true =>
      obtain ⟨episode, member, shown⟩ := becomes.revealed other before after
      exact absurd shown (unshown episode member)

/-- A node that is made in a world at a free place is found there and in the primary world for as
long as it is on record, whatever is done and with whatever tables the store is opened again. Any
other world that was listed misses it until it has been shown there; right after it has been made or
uploaded there it is found. A world that the table of the moment does not list is refused. -/
theorem creation_found_where_made (free : a.Bars target)
    (lives : Lives scope target past (a.after r site) n b k) {spelling : String}
    (spelled : Path.normalize spelling = .ok target) :
    b.Finds spelling .primary k ∧ (b.engine.worlds.Offers world → b.Finds spelling world k) ∧
    ∀ other ∈ a.engine.worlds.entries, world ≠ .named other →
      ((∀ episode ∈ past, ¬ episode.Shows other target) → other ∈ b.engine.worlds.entries →
        b.Misses spelling (.named other) target) ∧
      (other ∉ b.engine.worlds.entries → b.Refuses other) ∧
      ∀ r' site', r'.Fits → site'.store = b.store → site'.Timely → r'.Shows true other target →
        ((r'.run b.engine).runOn site').1.isOk = true →
          ∃ l, (b.after r' site').Finds spelling (.named other) l := by
  have valid := reached.valid
  have turn : Turn scope (some r) a (a.after r site) := .operates r fits here timely
  have normal := Path.normalize_isNormal spelled
  have attests := lives.attests (turn.valid valid) normal
    (valid.attests_created fits here timely succeeded offers creates makes)
  obtain ⟨valid', _⟩ := lives.valid (turn.valid valid)
  refine ⟨?_, fun offers' => valid'.finds offers' spelled attests lives.found,
    fun other listed apart => ⟨?_, ?_, ?_⟩⟩
  · exact valid'.finds trivial spelled
      (valid'.wellFormed.attests_primary normal lives.found) lives.found
  · intro unshown listed'
    obtain ⟨below, hidden⟩ :=
      reached.stays_hidden offers creates makes fits here timely succeeded free lives listed
        apart unshown
    have inner : target ≠ Path.root := by
      rintro rfl
      obtain ⟨stands, place⟩ := valid'.wellFormed.holds lives.found
      exact below (by rw [(valid'.wellFormed.shaped stands).parent, place, Path.parent?_root])
    exact valid'.misses listed' spelled inner lives.found
      (b.engine.materializer.sees_decided below hidden)
  · exact refuses_unlisted (reached.secondary listed)
  · intro r' site' fits' here' timely' shown succeeded'
    have listed' := listed_of_shown (reached.secondary listed) shown succeeded'
    have attests' := valid'.attests_shown fits' here' timely' succeeded' listed' shown
    have later : Turn scope (some r') b (b.after r' site') := .operates r' fits' here' timely'
    obtain ⟨l, found, _⟩ := attests' target normal (Path.within_refl _)
    exact ⟨l, (later.valid valid').finds listed' spelled attests' found⟩

end Making

theorem dim_listed : "dim" ∈ dimTree.engine.worlds.entries := Std.ExtTreeMap.mem_insert_self

theorem fits_dimmed (world : World) : (Operation.createFolder "/" world "a").Fits :=
  Operation.fits_createFolder (by rfl) (by decide +kernel)

theorem dimmed_answers :
    (dimTree.engine.materializer.shows dimTree.store "/a").toOption.any Option.isNone = true ∧
    (((Operation.createFolder "/" .primary "a").run dimTree.engine).runOn
      (.still dimTree.store)).1.isOk = true ∧
    (((Operation.createFolder "/" (.named "dim") "a").run dimmed.engine).runOn
      (.still dimmed.store)).1.isOk = true ∧
    ((Engine.start {}).runOn (.still dimmed.store)).1.isOk = true := by decide +kernel

theorem dimTree_bars : dimTree.Bars "/a" := by
  have free := dimmed_answers.1
  rw [Bars, Materializer.Bars]
  cases shown : dimTree.engine.materializer.shows dimTree.store "/a" with
  | error failure =>
    rw [shown] at free
    cases free
  | ok found =>
    rw [shown] at free
    cases found with
    | none => rfl
    | some n => cases free

theorem makes_dimmed (world : World) : (Operation.createFolder "/" world "a").Makes "/a" :=
  ⟨"/", by rfl, by decide +kernel, by decide +kernel⟩

theorem dimmed_made : (((Operation.createFolder "/" .primary "a").run dimTree.engine).runOn
    (.still dimTree.store)).1.isOk = true := dimmed_answers.2.1

theorem dimmed_record : ∃ n, dimmed.store.record? "/a" = some n := by
  have offers : dimTree.engine.worlds.Offers .primary := trivial
  have spelled : Path.normalize "/a" = .ok "/a" := by rfl
  obtain ⟨n, found, _⟩ := dimTree_begins.valid.attests_created (fits_dimmed _) (Site.still_store _)
    (Site.still_timely _) dimmed_made offers .folder (makes_dimmed _) "/a"
    (Path.normalize_isNormal spelled) (Path.within_refl _)
  exact ⟨n, found⟩

theorem dimmed_found_where_made : ∃ n l, dimTree.Reached dimScope ∧ dimTree.Bars "/a" ∧
    dimmed.store.record? "/a" = some n ∧ dimmed.Finds "/a" .primary n ∧
    dimmed.Misses "/a" (.named "dim") "/a" ∧
    (dimmed.after (.createFolder "/" (.named "dim") "a") (.still dimmed.store)).Finds "/a"
      (.named "dim") l := by
  have reached : dimTree.Reached dimScope := ⟨_, dimTree_begins, .none _⟩
  have again := dimmed_answers.2.2.1
  obtain ⟨n, found⟩ := dimmed_record
  have offers : dimTree.engine.worlds.Offers .primary := trivial
  have spelled : Path.normalize "/a" = .ok "/a" := by rfl
  have known := creation_found_where_made reached offers .folder (makes_dimmed _) (fits_dimmed _)
    (Site.still_store _) (Site.still_timely _) dimmed_made dimTree_bars (.here found) spelled
  obtain ⟨misses, _, shows⟩ := known.2.2 "dim" dim_listed nofun
  obtain ⟨l, finds⟩ :=
    shows _ (.still dimmed.store) (fits_dimmed (.named "dim")) (Site.still_store _)
      (Site.still_timely _) ⟨rfl, rfl, makes_dimmed _⟩ again
  exact ⟨n, l, reached, dimTree_bars, found, known.1, misses (fun _ => nofun) dim_listed, finds⟩

/-- The same store, opened again without the other world. -/
def undimmed : Session := opened newTree.engine dimmed.paths {} (.still dimmed.store)

/-- A world that was listed when a folder was made elsewhere, and is not listed any more, does not
miss it. -/
theorem undimmed_refuses : dimTree.Reached dimScope ∧ "dim" ∈ dimTree.engine.worlds.entries ∧
    (((Operation.createFolder "/" .primary "a").run dimTree.engine).runOn
      (.still dimTree.store)).1.isOk = true ∧ dimTree.Bars "/a" ∧
    Turn dimScope none dimmed undimmed ∧ undimmed.store.record? "/a" ≠ none ∧
    ((undimmed.engine.getNode "/a" (.named "dim")).runOn (.still undimmed.store)).1
      = .error (.invalidConfig (.world (.unknown "dim" [World.primaryName]))) := by
  have shape : ({} : Config).parameters = dimmed.engine.config.parameters := rfl
  have within : ({} : Config).Within dimScope :=
    fun _ member => absurd member Std.ExtTreeMap.not_mem_empty
  have good := dimmed_answers.2.2.2
  have valid := dimmed_reached.valid
  obtain ⟨turn, same⟩ : Turn dimScope none dimmed undimmed ∧
    dimmed.store.SameNodes undimmed.store := by
    have known := valid.restarts shape (Site.still_store dimmed.store) (Site.still_timely _)
    cases started : ((Engine.start {}).runOn (.still dimmed.store)).1 with
    | error failure =>
      rw [started] at good
      cases good
    | ok engine =>
      rw [started] at known
      rw [known.engine] at started
      exact ⟨.reopens shape within (Site.still_store _) (Site.still_timely _) started,
        (valid.reopened shape (Site.still_store _) (Site.still_timely _) started).1⟩
  have there : undimmed.store.record? "/a" ≠ none := by
    obtain ⟨n, found⟩ := dimmed_record
    rw [same.record?, found]
    exact Option.some_ne_none n
  refine ⟨⟨_, dimTree_begins, .none _⟩, dim_listed, dimmed_made, dimTree_bars, turn, there, ?_⟩
  exact refuses_unlisted (by decide) Std.ExtTreeMap.not_mem_empty "/a" (.still undimmed.store)

end Session

end SeedTree
