import SeedTree.Proofs.Coherence
import SeedTree.Proofs.Creation
import SeedTree.Proofs.Emptiness
import SeedTree.Proofs.Engine.Entering
import SeedTree.Proofs.Openings

/- Making a node at a free place and deleting it again. What is left in the store is what a lookup
   that misses the node would have left: the folders above it are expanded, and nothing tells that
   it was there. -/
namespace SeedTree

open Attempt

variable {e : Engine} {m : Materializer} {scope : Scope} {p : Parameters} {origin s t : Store}
  {n k top host parent : Node} {input spelling name folder path target : String}
  {world : World} {r : Operation}

/-- One record in place of another. Its time of writing is its own only where an earlier store had
none. -/
structure Store.Rewrites (origin : Store) (n k : Node) : Prop where
  twins : n.Twins k
  kept : origin.record? n.path ≠ none → k = n

theorem Node.Twins.samePlace (twins : n.Twins k) : n.SamePlace k := by
  rw [show k = { n with updated := k.updated } from twins]
  exact ⟨rfl, rfl, rfl, rfl⟩

namespace Store

def SamePlaces (s t : Store) : Prop :=
  ∀ path, Option.Rel Node.SamePlace (s.record? path) (t.record? path)

namespace SamePlaces

theorem symm (same : s.SamePlaces t) : t.SamePlaces s := by
  intro path
  have known := same path
  generalize s.record? path = first at known ⊢
  generalize t.record? path = second at known ⊢
  cases known with
  | none => exact .none
  | some place => exact .some ⟨place.path.symm, place.name.symm, place.parent.symm, place.id.symm⟩

theorem holds (same : s.SamePlaces t) (sound : t.Sound scope p) (holds : s.Holds n) :
    ∃ k, t.Holds k ∧ n.SamePlace k := by
  have known := same n.path
  rw [holds] at known
  generalize found : t.record? n.path = other at known
  cases known with
  | some place => exact ⟨_, sound.holds found, place⟩

variable (same : s.SamePlaces t) (regular : s.Regular scope p) (regular' : t.Regular scope p)

include same regular regular'

theorem children : t.children = s.children := by
  have indexes : ∀ {s t : Store}, s.SamePlaces t → t.Sound scope p → ∀ key,
      (∃ n, s.Holds n ∧ indexKey? n = some key) → ∃ n, t.Holds n ∧ indexKey? n = some key := by
    rintro s t same sound key ⟨n, holds, indexed⟩
    obtain ⟨k, holds', place⟩ := same.holds sound holds
    exact ⟨k, holds', by rw [indexKey?, place.parent, place.name]; exact indexed⟩
  refine Std.ExtTreeMap.ext_getElem? fun key => Option.ext fun value => ?_
  rw [regular.indexed, regular'.indexed]
  exact and_congr_right fun _ =>
    ⟨indexes same.symm regular.sound key, indexes same regular'.sound key⟩

omit regular in
theorem ids (regular : s.Regular scope p) (identified : s.Identified) (identified' : t.Identified) :
    t.ids = s.ids := by
  have leads : ∀ {s t : Store}, s.SamePlaces t → t.Sound scope p → ∀ key value,
      (∃ n, s.Holds n ∧ key = n.id.bytes ∧ value = utf8 n.path) →
        ∃ n, t.Holds n ∧ key = n.id.bytes ∧ value = utf8 n.path := by
    rintro s t same sound key value ⟨n, holds, rfl, rfl⟩
    obtain ⟨k, holds', place⟩ := same.holds sound holds
    exact ⟨k, holds', by rw [place.id], by rw [place.path]⟩
  refine Std.ExtTreeMap.ext_getElem? fun key => Option.ext fun value => ?_
  rw [identified, identified']
  exact ⟨leads same.symm regular.sound key value, leads same regular'.sound key value⟩

end SamePlaces

theorem WellFormed.childless_insertNode (wf : s.WellFormed scope p) (proper : n.Proper scope p)
    (absent : s.record? n.path = none) :
    ∀ k, (s.insertNode n).Holds k → k.parent ≠ some n.path := by
  intro k stands inside
  rcases (holds_insertNode proper absent).mp stands with rfl | old
  · obtain ⟨normal, named, same⟩ := proper.shaped.placed k.path inside
    exact Path.join_ne normal named same.symm
  · exact not_holdsOpen_of_absent absent (wf.parented k n.path old inside)

/-- The same entries in all parts of two stores, but for the times of writing of what an earlier
store lacks. The identity indexes are compared where no two paths share an identity. -/
structure Matches (origin : Store) (distinct : Prop) (s t : Store) : Prop where
  nodes : ∀ key : Bytes, Option.Rel (fun first second => ∃ n k, first = Record.encode n ∧
    second = Record.encode k ∧ origin.Rewrites n k) s.nodes[key]? t.nodes[key]?
  children : t.children = s.children
  ids : distinct → t.ids = s.ids
  marks : t.marks = s.marks

theorem rewritten_nodes
    (records : ∀ path, Option.Rel origin.Rewrites (s.record? path) (t.record? path))
    (sound : s.Sound scope p) (sound' : t.Sound scope p) (key : Bytes) :
    Option.Rel (fun first second => ∃ n k, first = Record.encode n ∧ second = Record.encode k ∧
      origin.Rewrites n k) s.nodes[key]? t.nodes[key]? := by
  have encoded : ∀ path, Option.Rel (fun first second => ∃ n k, first = Record.encode n ∧
      second = Record.encode k ∧ origin.Rewrites n k) s.nodes[utf8 path]? t.nodes[utf8 path]? := by
    intro path
    have known := records path
    rw [sound.nodes, sound'.nodes]
    generalize s.record? path = first at known
    generalize t.record? path = second at known
    cases known with
    | none => exact .none
    | some rewrites => exact .some ⟨_, _, rfl, rfl, rewrites⟩
  cases first : s.nodes[key]? with
  | some record =>
    obtain ⟨n, _, rfl, _⟩ := sound key record first
    rw [← first]
    exact encoded n.path
  | none =>
    cases second : t.nodes[key]? with
    | none => exact .none
    | some record =>
      obtain ⟨n, _, rfl, _⟩ := sound' key record second
      rw [← first, ← second]
      exact encoded n.path

theorem matches_of_rewrites {distinct : Prop}
    (records : ∀ path, Option.Rel origin.Rewrites (s.record? path) (t.record? path))
    (wf : s.WellFormed scope p)
    (wf' : t.WellFormed scope p) (identified : distinct → s.Identified ∧ t.Identified)
    (marks : t.marks = s.marks) : origin.Matches distinct s t := by
  have same : s.SamePlaces t := by
    intro path
    have known := records path
    generalize s.record? path = first at known ⊢
    generalize t.record? path = second at known ⊢
    cases known with
    | none => exact .none
    | some rewrites => exact .some rewrites.twins.samePlace
  exact ⟨rewritten_nodes records wf.regular.sound wf'.regular.sound,
    same.children wf.regular wf'.regular,
    fun apart => same.ids wf'.regular wf.regular (identified apart).1 (identified apart).2, marks⟩

end Store

namespace Picture

variable {v : Picture} (looked : v.getNode e input world = .ok host)
  (normalized : Path.normalize input = .ok folder)

include looked normalized

theorem walk_of_getNode : ∃ top, v Path.root = .ok (some top) ∧
    v.walk e.materializer world (Path.components folder) top = .ok host := by
  obtain ⟨path, accepted, resolves⟩ := of_bind_ok looked
  have same := (Engine.accept_ok_iff.mp accepted).2
  rw [normalized] at same
  cases same
  obtain ⟨top, root, walks⟩ := of_bind_ok resolves
  cases top with
  | none => cases walks
  | some top => exact ⟨top, root, walks⟩

theorem getNode_vacant (offers : e.worlds.Offers world) (isFolder : host.isFolder = true)
    (named : Path.IsName name) (spelled : Path.normalize spelling = .ok (Path.join folder name))
    (vacant : v (Path.join host.path name) = .ok none) :
    v.getNode e spelling world = .error (.missing (Path.join host.path name)) := by
  obtain ⟨top, root, walks⟩ := walk_of_getNode looked normalized
  rw [getNode, Engine.accept_ok_iff.mpr ⟨WorldTable.check_of_offers offers, spelled⟩,
    Except.bind, resolve, root,
    Path.components_join (Path.normalize_isNormal normalized) named]
  change v.walk e.materializer world (Path.components folder ++ [name]) top = _
  rw [walk_concat walks, walk, isFolder, vacant]
  rfl

end Picture

theorem Engine.runOn_inParent {f : Node → Attempt Node} {site later : Site}
    {post : Except Failure Node → Store → Prop} (offers : e.worlds.Offers world)
    (named : Path.IsName name)
    (opened : (e.openParent input world).runOn site = (.ok parent, later)) (timely : later.Timely)
    (wf : later.store.WellFormed scope e.materializer.parameters) (holds : later.store.Holds parent)
    (ends : (f parent).Ends (Setting.alone scope e.materializer.parameters)
      [parent.path] later.store post) :
    let run :=
      (fromWorld (e.worlds.check world) >>= fun _ => fromPath (Path.checkName name) >>= fun _ =>
        e.openParent input world >>= fun parent => withLock parent.path
          (discard (getOr parent.path (.missing parent.path)) >>= fun _ => f parent)).runOn site
    post run.1 run.2.store := by
  have locked := (ends_underLock wf holds ends).runOn timely
  have known := runOn_bind (e.openParent input world) (fun parent => withLock parent.path
    (discard (getOr parent.path (.missing parent.path)) >>= fun _ => f parent)) site
  rw [opened] at known
  rw [WorldTable.check_of_offers offers, show Path.checkName name = .ok () from named]
  change (e.openParent input world >>= _).runOn site = _ at known
  intro run
  have same : run = _ := known
  rw [same]
  exact locked

namespace Session

variable {a b c : Session} {site later : Site}

/-- The traces that a lookup of a path in a session's tree would leave. -/
abbrev Leaving (a : Session) (spelling : String) (world : World) : Trace → Prop :=
  Picture.Passes (a.engine.materializer.shows a.store) a.engine spelling world

/-- A store that has been walked through as a lookup of a path walks through it. -/
structure Walked (a : Session) (scope : Scope) (spelling : String)
    (world : World) (t : Store) : Prop where
  moves : Moves a.engine.materializer scope Deed.Walks a.store t
  trodden : a.engine.materializer.Trodden scope (a.Leaving spelling world) a.store t
  bears : ∀ trace, a.Leaving spelling world trace → a.engine.materializer.Bears a.store t trace

theorem Walked.rewrites (first : a.Walked scope spelling world s)
    (second : a.Walked scope spelling world t) (valid : a.Valid scope) (path : String) :
    Option.Rel a.store.Rewrites (s.record? path) (t.record? path) := by
  have wf := valid.wellFormed
  have twins := first.trodden.twins wf second.trodden second.bears first.bears path
  have ages := first.moves.ages valid.ready.within wf fun _ walks => Deed.passes_of_walks walks path
  have ages' := second.moves.ages valid.ready.within wf fun _ walks =>
    Deed.passes_of_walks walks path
  generalize found : s.record? path = record at twins ages
  generalize t.record? path = record' at twins ages'
  cases twins with
  | none => exact .none
  | @some n k twins =>
    refine .some ⟨twins, fun there => ?_⟩
    rw [(first.trodden.holds found).2] at there
    obtain ⟨old, early⟩ := Option.ne_none_iff_exists'.mp there
    rw [early] at ages ages'
    cases ages with
    | aged aged =>
      cases ages' with
      | aged aged' =>
        have updated : k.updated = n.updated := aged'.updated.trans aged.updated.symm
        rw [show k = { n with updated := k.updated } from twins, updated]

theorem Sound.walked (sound : a.Sound scope) (here : site.store = a.store)
    (timely : site.Timely) (spelling : String)
    (world : World) : a.Walked scope spelling world
    (a.after (.getNode spelling world) site).store := by
  have wf := sound.valid.wellFormed
  have ready := sound.valid.ready
  have ends : (a.engine.getNode spelling world).Ends
    (Setting.alone scope a.engine.materializer.parameters) []
      a.store _ := ends_getNode wf ready
  have trodden : a.engine.materializer.Trodden scope (a.Leaving spelling world) a.store a.store :=
    .self wf sound.clear
  rw [← here] at ends
  have shut : ∀ path, site.store.Shut path := by
    rw [here]
    exact wf.shut
  have looks : (Operation.getNode spelling world).Looks := trivial
  obtain ⟨trodden', _, _, reports⟩ :=
    looks_alone wf ready.within looks (by rw [here]; exact trodden) shut timely
      fun _ left => left
  have moves := (ends.runOn timely).moves
  rw [here] at moves
  exact ⟨moves, trodden', reports.bears⟩

theorem Valid.deletes_made (valid : b.Valid scope) (offers : b.engine.worlds.Offers world)
    (makes : b.engine.Makes scope parent world name n)
    (wf : s.WellFormed scope b.engine.materializer.parameters)
    (absent : s.record? n.path = none) (left : b.store = s.insertNode n)
    (attests : b.store.Attests world n.path) (spelled : Path.normalize spelling = .ok n.path)
    (here : site.store = b.store) (timely : site.Timely) :
    ((b.engine.deleteNode spelling world).runOn site).1 = .ok () ∧
      ∀ path, (b.after (.deleteNode spelling world) site).store.record? path = s.record? path := by
  have proper := makes.handmade.proper
  have inner : n.path ≠ Path.root := by
    intro same
    apply makes.below
    rw [proper.shaped.parent, same, Path.parent?_root]
  have empty := wf.childless_insertNode proper absent
  have wf' := valid.wellFormed
  have holds : b.store.record? n.path = some n := by
    rw [left]
    exact makes.holds
  rw [← left] at empty
  rw [← here] at wf' attests holds empty
  have ends : (b.engine.deleteNode spelling world).Ends
    (Setting.alone scope b.engine.materializer.parameters) []
      site.store _ := Engine.ends_deleteNode_attested wf' offers spelled inner attests holds
    (fun isFolder => makes.handmade.complete.trans isFolder) empty
  obtain ⟨ok, erased⟩ := ends.runOn timely
  refine ⟨ok, fun path => ?_⟩
  change ((b.engine.deleteNode spelling world).runOn site).2.store.record? path = _
  rw [erased, here, left, Store.record?_eraseNode, Store.record?_insertNode proper]
  split
  · rename_i same
    rw [same, absent]
  · rfl

theorem Valid.marks (valid : a.Valid scope) (fits : r.Fits)
    (here : site.store = a.store) (timely : site.Timely) :
    (a.after r site).store.marks = a.store.marks := (valid.moves fits here timely).marks

section Making

variable (sound : a.Sound scope) (offers : a.engine.worlds.Offers world)
  (normalized : Path.normalize input = .ok folder) (named : Path.IsName name)
  (looked : Picture.getNode (a.engine.materializer.shows a.store) a.engine input world = .ok host)
  (isFolder : host.isFolder = true) (free : a.Bars (Path.join folder name))
  (spelled : Path.normalize spelling = .ok (Path.join folder name))
  (here : site.store = a.store) (timely : site.Timely)

include sound offers normalized named looked isFolder free spelled here timely

theorem Sound.opens_parent :
    ∃ parent later, (a.engine.openParent input world).runOn site = (.ok parent, later) ∧
    later.Timely ∧ a.Walked scope spelling world later.store ∧ parent.path = folder ∧
      later.store.Hosts parent := by
  have wf := sound.valid.wellFormed
  have ready := sound.valid.ready
  have normal := Path.normalize_isNormal normalized
  obtain ⟨top, root, walks⟩ := Picture.walk_of_getNode looked normalized
  have accepted' : a.engine.accept spelling world = .ok (Path.join folder name) :=
    Engine.accept_ok_iff.mpr ⟨WorldTable.check_of_offers offers, spelled⟩
  have passes : ∀ trace, a.Leaving spelling world trace ↔
    Picture.Treads (a.engine.materializer.shows a.store)
      a.engine.materializer world (Path.components folder ++ [name]) top trace := by
    intro trace
    rw [← Path.components_join normal named]
    constructor
    · rintro ⟨path, top', accepted, root', treads⟩
      rw [accepted'] at accepted
      rw [root] at root'
      cases accepted
      cases root'
      exact treads
    · exact fun treads => ⟨_, top, accepted', root, treads⟩
  have trodden : a.engine.materializer.Trodden scope
      (a.Leaving spelling world) a.store site.store := by
    rw [here]
    exact .self wf sound.clear
  obtain ⟨parent, ok, trodden', bears⟩ :=
    openParent_alone wf ready.within trodden normalized root walks isFolder
      named free (fun trace treads => (passes trace).mpr treads)
        rfl (by rw [here]; exact wf.shut) timely
  have ends : (a.engine.openParent input world).Ends
    (Setting.alone scope a.engine.materializer.parameters) []
      a.store _ := ends_openParent_attests wf ready offers
  rw [← here] at ends
  obtain ⟨moves, opened⟩ := ends.runOn timely
  obtain ⟨same, _, hosts⟩ := opened parent ok
  rw [normalized] at same
  rw [here] at moves
  have walked : a.Walked scope spelling world
      ((a.engine.openParent input world).runOn site).2.store :=
    ⟨moves, trodden', fun trace leaves => bears trace ((passes trace).mp leaves)⟩
  have timely' : ((a.engine.openParent input world).runOn site).2.Timely := timely.run _
  generalize (a.engine.openParent input world).runOn site = ended at ok timely' walked hosts
  exact ⟨parent, ended.2, Prod.ext ok rfl, timely', walked, (Except.ok.inj same).symm, hosts⟩

theorem Sound.makes_there (creates : r.Creates input world name) (fits : r.Fits) :
    ((r.run a.engine).runOn site).1.isOk = true ∧ ∃ t parent n, a.Walked scope spelling world t ∧
      a.engine.Makes scope parent world name n ∧ n.path = Path.join folder name ∧
      t.record? (Path.join folder name) = none ∧ (a.after r site).store = t.insertNode n := by
  have wf := sound.valid.wellFormed
  have ready := sound.valid.ready
  have normal := Path.isNormal_join (Path.normalize_isNormal normalized) named
  obtain ⟨parent, later, opened, timely', walked, rfl, hosts⟩ :=
    sound.opens_parent offers normalized named looked isFolder free spelled here timely
  have wf' := walked.moves.wellFormed ready.within wf
  have unmade : ¬ Deed.Walks (.made (Path.join parent.path name)) := id
  have absent :=
    (Materializer.Bars.moves ready.within walked.moves wf free normal unmade).absent wf' normal
  have short : IsShort (Path.join parent.path name) :=
    fits _ ((creates.makes _).mpr ⟨_, normalized, named, rfl⟩)
  cases creates with
  | folder =>
    obtain ⟨n, makes, _, ok, left⟩ := Engine.runOn_inParent
      (f := fun parent => a.engine.createFolderLocked parent world name) offers named
        opened timely' wf' hosts.holds
      (ends_createFolderLocked_absent wf' ready named hosts.holds short absent)
    refine ⟨?_, later.store, parent, n, walked, makes, makes.place, absent, left⟩
    change ((a.engine.createFolder input world name).runOn site).1.isOk = true
    rw [show ((a.engine.createFolder input world name).runOn site).1 = .ok n from ok]
    rfl
  | file data =>
    obtain ⟨n, makes, _, ok, left⟩ := Engine.runOn_inParent
      (f := fun parent => a.engine.uploadLocked parent world name data) offers named
        opened timely' wf' hosts.holds
      (ends_uploadLocked_absent wf' ready named hosts.holds short absent data)
    refine ⟨?_, later.store, parent, n, walked, makes, makes.place, absent, left⟩
    change ((a.engine.uploadFile input world name data).runOn site).1.isOk = true
    rw [show ((a.engine.uploadFile input world name data).runOn site).1 = .ok n from ok]
    rfl

theorem Sound.undoes {second : Site} (creates : r.Creates input world name)
    (fits : r.Fits) {other : String}
    (spelled' : Path.normalize other = .ok (Path.join folder name))
    (later : second.store = (a.after r site).store)
    (later_timely : second.Timely) : ((r.run a.engine).runOn site).1.isOk = true ∧
    ((a.engine.deleteNode other world).runOn second).1 = .ok () ∧
      ∃ t, a.Walked scope spelling world t ∧
      ∀ path, ((a.after r site).after (.deleteNode other world) second).store.record? path =
        t.record? path := by
  obtain ⟨made, t, parent, n, walked, makes, same, absent, left⟩ :=
    sound.makes_there offers normalized named looked isFolder free spelled here timely creates fits
  have turn : Turn scope (some r) a (a.after r site) := .operates r fits here timely
  have attests := sound.valid.attests_created fits here timely made offers creates
    ((creates.makes _).mpr ⟨_, normalized, named, rfl⟩)
  rw [← same] at absent attests spelled'
  have wf := walked.moves.wellFormed sound.valid.ready.within sound.valid.wellFormed
  obtain ⟨gone, records⟩ :=
    (turn.valid sound.valid).deletes_made offers makes wf absent left attests
      spelled' later later_timely
  exact ⟨made, gone, t, walked, records⟩

end Making

/-- A node that is made under a free name in a folder, and deleted again, has left in no part of the
store more than a lookup that misses it. -/
theorem deletion_undoes_creation {spelling' : String} {first second third : Site}
    (reached : a.Reached scope)
    (offers : a.engine.worlds.Offers world) (early : first.store = a.store)
    (early_timely : first.Timely)
    (found : ((a.engine.getNode input world).runOn first).1 = .ok host)
    (isFolder : host.isFolder = true)
    (named : Path.IsName name) (free : a.Bars (Path.join host.path name))
    (creates : r.Creates input world name) (fits : r.Fits)
    (here : site.store = a.store) (timely : site.Timely)
    (spelled : Path.normalize spelling = .ok (Path.join host.path name))
    (later : second.store = (a.after r site).store) (later_timely : second.Timely)
    (spelled' : Path.normalize spelling' = .ok (Path.join host.path name))
    (instead : third.store = a.store) (instead_timely : third.Timely) :
    let undone := (a.after r site).after (.deleteNode spelling world) second
    let looked := a.after (.getNode spelling' world) third
    ((r.run a.engine).runOn site).1.isOk = true ∧
    ((a.engine.deleteNode spelling world).runOn second).1 = .ok () ∧
    ((a.engine.getNode spelling' world).runOn third).1 =
      .error (.missing (Path.join host.path name)) ∧
    a.store.Matches (Store.Distinct a.engine.config.parameters.seed looked.paths ∧
      Store.Distinct a.engine.config.parameters.seed undone.paths) looked.store undone.store := by
  intro undone looked
  have sound := reached.sound
  have depicts := Materializer.Depicts.self a.engine.materializer a.store
  obtain ⟨drawn, shown, place, kind, normalized⟩ := sound.pictured depicts early early_timely found
  rw [kind] at isFolder
  obtain ⟨made, gone, t, walked, records⟩ :=
    sound.undoes offers normalized named shown isFolder free spelled' here
      timely creates fits spelled later later_timely
  have misses := (sound.looks depicts instead instead_timely spelling' world).1
  rw [Picture.getNode_vacant shown normalized offers isFolder named spelled'
    (by rw [← place]; exact free), ← place]
    at misses
  have fits' : (Operation.deleteNode spelling world).Fits := fun _ makes => makes.elim
  have fits'' : (Operation.getNode spelling' world).Fits := Operation.fits_of_reads trivial
  have turn : Turn scope (some r) a (a.after r site) := .operates r fits here timely
  have valid := turn.valid sound.valid
  have turn' : Turn scope _ (a.after r site) undone := .operates _ fits' later later_timely
  have turn'' : Turn scope _ a looked := .operates _ fits'' instead instead_timely
  have valid' := turn'.valid valid
  have valid'' := turn''.valid sound.valid
  refine ⟨made, gone, misses.of_eq_error,
    Store.matches_of_rewrites (fun path => ?_) valid''.wellFormed valid'.wellFormed ?_ ?_⟩
  · rw [records path]
    exact (sound.walked instead instead_timely spelling' world).rewrites walked sound.valid path
  · rw [sound.valid.ready.config]
    rintro ⟨distinct, distinct'⟩
    exact ⟨valid''.wellFormed.identified (valid''.tracked distinct),
      valid'.wellFormed.identified (valid'.tracked distinct')⟩
  · rw [valid.marks fits' later later_timely, sound.valid.marks fits here timely,
      sound.valid.marks fits'' instead instead_timely]

def dimUndone : Session := dimAbove.after (.deleteNode "/a" (.named "dim")) (.still dimAbove.store)

def dimLooked : Session := dimTree.after (.getNode "/a" (.named "dim")) (.still dimTree.store)

theorem dimTree_opens : ∃ host,
    ((dimTree.engine.getNode "/" (.named "dim")).runOn (.still dimTree.store)).1 = .ok host ∧
      host.isFolder = true ∧ Path.join host.path "a" = "/a" := by
  have reached : dimTree.Reached dimScope := ⟨_, dimTree_begins, .none _⟩
  have opens :
    ((dimTree.engine.getNode "/" (.named "dim")).runOn (.still dimTree.store)).1.toOption.any
      Node.isFolder = true := by decide +kernel
  cases found : ((dimTree.engine.getNode "/" (.named "dim")).runOn (.still dimTree.store)).1 with
  | error failure =>
    rw [found] at opens
    cases opens
  | ok host =>
    rw [found] at opens
    obtain ⟨_, _, _, _, normalized⟩ :=
      reached.sound.pictured (.self _ _) (Site.still_store _) (Site.still_timely _) found
    refine ⟨host, rfl, opens, ?_⟩
    rw [← Except.ok.inj normalized]
    decide +kernel

theorem dimUndone_matches : dimTree.Reached dimScope ∧ dimTree.Bars "/a" ∧
    dimTree.store.Matches True dimLooked.store dimUndone.store := by
  have reached : dimTree.Reached dimScope := ⟨_, dimTree_begins, .none _⟩
  have offers : dimTree.engine.worlds.Offers (.named "dim") := dim_listed
  have distinct : Store.Distinct dimTree.engine.config.parameters.seed dimLooked.paths ∧
    Store.Distinct dimTree.engine.config.parameters.seed dimUndone.paths := by decide +kernel
  obtain ⟨host, found, isFolder, joined⟩ := dimTree_opens
  have free : dimTree.Bars (Path.join host.path "a") := by
    rw [joined]
    exact dimTree_bars
  have spelled : Path.normalize "/a" = .ok (Path.join host.path "a") := by
    rw [joined]
    rfl
  obtain ⟨_, _, _, known⟩ :=
    deletion_undoes_creation reached offers (Site.still_store _) (Site.still_timely _) found
      isFolder (by decide +kernel) free .folder (fits_dimmed _) (Site.still_store _)
        (Site.still_timely _) spelled
      (Site.still_store _) (Site.still_timely _) spelled (Site.still_store _) (Site.still_timely _)
  rw [dimLooked, dimUndone, dimAbove] at distinct ⊢
  exact ⟨reached, dimTree_bars, known.nodes, known.children,
    fun _ => known.ids distinct, known.marks⟩

end Session

end SeedTree
