import SeedTree.Proofs.Coupling
import SeedTree.Proofs.Crowd

/- A world that is added late. Nothing that was read before has decided for it, and what is decided
   later, be it in an expansion or when the world is first asked, is the one draw of a node. So the
   world shows what it would have shown had it been there from the beginning, and what its answers
   rest on is on record afterwards. -/
namespace SeedTree.Session

variable {scope : Scope} {a b d g : Session} {kind : Option Operation} {c : Config} {r : Operation}
  {site : Site} {n : Node} {world path : String} {p : Binary64}

/-- A session that has only read, in any number of openings of its store, and in none of them with a
certain world. -/
inductive Unaware (scope : Scope) (world : String) : Session → Prop where
  | begins {a : Session} (begins : Begins scope a)
    (unlisted : a.engine.worlds.entries[world]? = none) :
      Unaware scope world a
  | turns {kind : Option Operation} {a b : Session}
    (rest : Unaware scope world a) (gentle : Gentle kind)
      (turn : Turn scope kind a b) (unlisted : b.engine.worlds.entries[world]? = none) :
      Unaware scope world b

/-- Once an operation has answered in a world, each decision that the answer rests on is on record:
for the nodes on the way, and for the children of a folder that is listed. -/
def Records (a : Session) (world : String) (probability : Binary64) : Prop :=
  ∀ r site path, site.store = a.store → site.Timely →
    Picture.Leaves a.picture a.engine r (.decided path world) →
      ∃ n, (a.after r site).store.record? path = some n ∧ n.parent ≠ none ∧
        n.existence[world]? = some (existsIn n.id world probability)

theorem Turn.undecided (turn : Turn scope kind a b) (gentle : Gentle kind) (valid : a.Valid scope)
    (unlisted : a.engine.worlds.entries[world]? = none)
    (undecided : a.store.Obeys fun n => n.existence[world]? = none) :
    b.store.Obeys fun n => n.existence[world]? = none := by
  cases turn with
  | operates operation fits here timely =>
    exact valid.reads_keep (gentle operation rfl) fits here timely
      (fun _ _ _ reads move wf => move.undecided valid.ready.within reads wf unlisted) undecided
  | reopens shape _ here timely started =>
    have same := (valid.reopened shape here timely started).1
    exact fun n holds => undecided n ((same.holds_iff n).mp holds)

theorem Turn.reopening (turn : Turn scope none a b) (valid : a.Valid scope) :
    b.engine = ⟨b.engine.config, b.engine.config.materializer⟩ ∧ b.engine.config.check = .ok () ∧
      b.engine.config.Within scope ∧ a.store.SameNodes b.store := by
  cases turn with
  | reopens shape within here timely started =>
    have same := (valid.reopened shape here timely started).1
    have known := valid.restarts shape here timely
    rw [started] at known
    obtain rfl := known.engine
    exact ⟨rfl, (known.suits_iff.mp rfl).checked, within, same⟩

namespace Unaware

variable (unaware : Unaware scope world a)

include unaware

theorem unlisted : a.engine.worlds.entries[world]? = none := by
  cases unaware with
  | begins _ unlisted => exact unlisted
  | turns _ _ _ unlisted => exact unlisted

theorem reached : a.Reached scope := by
  induction unaware with
  | begins begins => exact ⟨_, begins, .none _⟩
  | turns _ _ turn _ ih =>
    obtain ⟨start, begins, turns⟩ := ih
    exact ⟨start, begins, .more turns trivial turn⟩

theorem undecided : a.store.Obeys fun n => n.existence[world]? = none := by
  induction unaware with
  | begins begins => exact begins.undecided world
  | turns rest gentle turn _ ih => exact turn.undecided gentle rest.reached.valid rest.unlisted ih

theorem origin : ∃ start, Begins scope start ∧
    start.engine.materializer.parameters = a.engine.materializer.parameters ∧
      start.picture.Outlines a.picture := by
  induction unaware with
  | begins begins => exact ⟨_, begins, rfl, .of_depicts (.self _ _)⟩
  | turns rest gentle turn _ ih =>
    obtain ⟨start, begins, shape, outlines⟩ := ih
    have valid := rest.reached.valid
    exact ⟨start, begins, shape.trans (turn.parameters valid).symm,
      outlines.trans (turn.outlines gentle valid)⟩

theorem explored (turn : Turn scope none a b) (later : Turns scope Reads b d) :
    Explored scope b.engine.config world d := by
  have valid := unaware.reached.valid
  have valid' := turn.valid valid
  have gentle : Gentle none := nofun
  obtain ⟨engine, checked, _, same⟩ := turn.reopening valid
  obtain ⟨start, begins, shape, outlines⟩ := unaware.origin
  refine ⟨(unaware.reached.sound.turn turn).turns later, later.engine.trans engine, checked, ?_,
    start, begins, ?_, ?_⟩
  · refine later.fair valid' fun n holds => ?_
    exact Materializer.fair_of_undecided (unaware.undecided n ((same.holds_iff n).mp holds))
  · rw [shape, ← turn.parameters valid]
    exact valid'.ready.config.symm
  · exact (outlines.trans (turn.outlines gentle valid)).trans
      (later.outlines (fun _ => gentle_of_reads) valid')

end Unaware

theorem Valid.shown_child (valid : a.Valid scope) {folder name : String}
    (normal : Path.IsNormal folder)
    (named : Path.IsName name) (found : a.picture (Path.join folder name) = .ok (some n)) :
    Path.IsNormal n.path ∧ a.picture n.path = .ok (some n) ∧ n.parent ≠ none := by
  have normal' := Path.isNormal_join normal named
  have below := valid.wellFormed.shown_below normal named found
  rw [valid.placed normal' found]
  exact ⟨normal', found, below⟩

theorem Valid.treads_child (valid : a.Valid scope) {m : Materializer}
    {names : List String} {here : Node}
    {seer : World} (named : ∀ name ∈ names, Path.IsName name) (normal : Path.IsNormal here.path)
    (treads : a.picture.Treads m seer names here (.decided path world)) :
    ∃ n, a.picture path = .ok (some n) ∧ n.parent ≠ none := by
  induction names generalizing here with
  | nil => cases treads
  | cons name more ih =>
    obtain ⟨first, named⟩ := List.forall_mem_cons.mp named
    cases treads with
    | decides _ found =>
      obtain ⟨_, shown, below⟩ := valid.shown_child normal first found
      exact ⟨_, shown, below⟩
    | onward _ found _ rest =>
      exact ih named (valid.shown_child normal first found).1 rest

theorem Valid.leaves_child (valid : a.Valid scope)
    (leaves : Picture.Leaves a.picture a.engine r (.decided path world)) :
    r.Looks ∧ ∃ n, a.picture path = .ok (some n) ∧ n.parent ≠ none := by
  have passes : ∀ input seer, a.picture.Passes a.engine input seer (.decided path world) →
      ∃ n, a.picture path = .ok (some n) ∧ n.parent ≠ none := by
    rintro input seer ⟨full, top, accepted, root, treads⟩
    have normal := Path.normalize_isNormal (Engine.accept_ok_iff.mp accepted).2
    refine valid.treads_child normal.components.1 ?_ treads
    rw [valid.placed Path.isNormal_root root]
    exact Path.isNormal_root
  cases r with
  | getNode input seer => exact ⟨trivial, passes input seer leaves⟩
  | listChildren input seer =>
    refine ⟨trivial, ?_⟩
    rcases leaves with onTheWay | ⟨folder, found, _, scans⟩
    · exact passes input seer onTheWay
    · cases scans with
      | decides named lies =>
        obtain ⟨_, shown, below⟩ := valid.shown_child (valid.normal_of_found found) named lies
        exact ⟨_, shown, below⟩
  | _ => exact leaves.elim

theorem Explored.records (explored : Explored scope c world d)
    (listed : c.worlds[world]? = some p) : d.Records world p := by
  intro r site path here timely leaves
  have sound := explored.sound
  have wf := sound.valid.wellFormed
  have table : d.engine.materializer.worlds.entries[world]? = some p := explored.table ▸ listed
  obtain ⟨looks, drawn, shown, below⟩ := sound.valid.leaves_child leaves
  have trodden : d.engine.materializer.Trodden scope (Picture.Leaves d.picture d.engine r) d.store
      site.store := by
    rw [here]
    exact .self wf sound.clear
  obtain ⟨trodden', _, _, reports⟩ := looks_alone wf sound.valid.ready.within looks trodden
    (fun path => by rw [here]; exact wf.shut path) timely fun _ left => left
  have draws := Materializer.draws_configured d.engine.materializer drawn.id table
  obtain ⟨n, found, decided⟩ := reports.bears _ leaves drawn _ shown below draws
  have place := (trodden'.regular.sound.proper found).2
  have holds := trodden'.regular.sound.holds found
  obtain ⟨origin, first, traced⟩ := trodden'.shown n holds
  have same : origin = drawn := by
    rw [place] at first
    exact Option.some.inj (Except.ok.inj (first.symm.trans shown))
  have below' : n.parent ≠ none := by
    rw [traced.like.place.parent, same]
    exact below
  -- The traces tell that there is a decision; which one it is follows as reading keeps decisions
  -- fair.
  have reads : Reads (some r) := Operation.reads_of_looks looks
  have turn : Turn scope (some r) d (d.after r site) :=
    .operates r (Operation.fits_of_reads reads) here timely
  have fair := Turns.fair (.more (.none _) reads turn) sound.valid explored.fair n holds below'
  obtain ⟨present, known⟩ := Option.ne_none_iff_exists'.mp decided
  refine ⟨n, found, below', ?_⟩
  change d.engine.materializer.sees n (.named world) =
    d.engine.materializer.draws n.id world at fair
  rw [Materializer.sees_decided _ below' known, Materializer.draws_configured _ _ table] at fair
  rw [known, Except.ok.inj fair]

/-- A store has only been read, without a certain world. Then it is opened again with a table that
lists the world, and read further. In every lookup and every listing the world shows what it shows
in a new store that is opened with the same configuration and has only been read as well, with the
same errors, and what an answer has rested on is on record afterwards. -/
theorem late_world_catches_up (unaware : Unaware scope world a) (turn : Turn scope none a b)
    (listed : b.engine.worlds.entries[world]? = some p) (later : Turns scope Reads b d)
    (empty : site.store = Store.empty) (timely : site.Timely)
    (fresh : Turns scope Reads (opened b.engine [] b.engine.config site) g) :
    ((Engine.start b.engine.config).runOn site).1 = .ok b.engine ∧
      d.Compares .same (.named world) g (.named world) ∧ d.Records world p := by
  obtain ⟨engine, checked, within, _⟩ := turn.reopening unaware.reached.valid
  have started : ((Engine.start b.engine.config).runOn site).1 = .ok b.engine :=
    (started_of_check checked empty timely).trans (congrArg Except.ok engine.symm)
  have listed : b.engine.config.worlds[world]? = some p := by
    rw [engine] at listed
    exact listed
  have late := unaware.explored turn later
  have anew := (Explores.began within empty timely started fresh).explored world
  exact ⟨started, late.compares_same anew rfl listed listed rfl, late.records listed⟩

def halfConfig : Config := { worlds := (∅ : NameMap Binary64).insert "dim" ⟨0x3FE0000000000000⟩ }

def halfEngine : Engine := ⟨halfConfig, halfConfig.materializer⟩

/-- The root has been expanded without the world. -/
def newListed : Session := newTree.after (.listChildren "/" .primary) (.still newTree.store)

def halfAdded : Session := opened halfEngine newListed.paths halfConfig (.still newListed.store)

def halfAsked : Session :=
  halfAdded.after (.listChildren "/" (.named "dim")) (.still halfAdded.store)

theorem newListed_unaware : Unaware dimScope "dim" newListed := by
  have missing : newTree.engine.worlds.entries["dim"]? = none := Std.ExtTreeMap.getElem?_empty
  have begins : Begins dimScope newTree :=
    begins_opened rfl rfl (Site.still_timely _) fun _ member =>
      absurd member Std.ExtTreeMap.not_mem_empty
  have reads : Reads (some (.listChildren "/" .primary)) := trivial
  have turn : Turn dimScope (some (.listChildren "/" .primary)) newTree newListed :=
    .operates _ (Operation.fits_of_reads reads) (Site.still_store _) (Site.still_timely _)
  exact .turns (.begins begins missing) (gentle_of_reads reads) turn missing

theorem halfAdded_turn : Turn dimScope none newListed halfAdded := by
  have good : ((Engine.start halfConfig).runOn (.still newListed.store)).1.isOk = true := by
    decide +kernel
  have shape : halfConfig.parameters = newListed.engine.config.parameters := rfl
  have known := newListed_unaware.reached.valid.restarts shape (Site.still_store newListed.store)
    (Site.still_timely _)
  cases started : ((Engine.start halfConfig).runOn (.still newListed.store)).1 with
  | error failure =>
    rw [started] at good
    cases good
  | ok engine =>
    rw [started] at known
    rw [known.engine] at started
    exact .reopens shape (within_dim _) (Site.still_store _) (Site.still_timely _) started

theorem halfAdded_catches_up :
    Unaware dimScope "dim" newListed ∧ Turn dimScope none newListed halfAdded ∧
    halfAsked.Compares .same (.named "dim")
      (opened halfEngine [] halfConfig (.still .empty)) (.named "dim") ∧
    halfAsked.Records "dim" ⟨0x3FE0000000000000⟩ := by
  have listed : halfEngine.worlds.entries["dim"]? = some ⟨0x3FE0000000000000⟩ :=
    Std.ExtTreeMap.getElem?_insert_self
  have reads : Reads (some (.listChildren "/" (.named "dim"))) := trivial
  have asked : Turns dimScope Reads halfAdded halfAsked := .more (.none _) reads
    (.operates _ (Operation.fits_of_reads reads) (Site.still_store _) (Site.still_timely _))
  have caught := late_world_catches_up newListed_unaware halfAdded_turn listed asked
    (Site.still_store _) (Site.still_timely _) (.none _)
  exact ⟨newListed_unaware, halfAdded_turn, caught.2⟩

end SeedTree.Session
