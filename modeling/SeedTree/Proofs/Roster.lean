import SeedTree.Proofs.Creation
import SeedTree.Proofs.Excerpt
import SeedTree.Proofs.Outline

/- The worlds that the fields of a node list. They are taken from the decisions that the node
   carried when it was read, so that a world which decides later is left out, and at the root every
   world but the primary one. -/
namespace SeedTree

open Attempt

variable {m : Materializer} {e : Engine} {scope : Scope} {s t : Store} {n k : Node}
  {world : World} {v : String}

theorem WorldTable.mem_names {table : WorldTable} :
    v ∈ table.names ↔ v = World.primaryName ∨ v ∈ table.entries := by
  rw [WorldTable.names, List.mem_cons, NameMap.names, List.mem_map]
  refine or_congr_right ⟨?_, fun listed => ?_⟩
  · rintro ⟨⟨name, p⟩, member, rfl⟩
    exact (mem_iff_getElem?_some _ _).mpr
      ⟨p, Std.ExtTreeMap.mem_toList_iff_getElem?_eq_some.mp member⟩
  · obtain ⟨p, found⟩ := (mem_iff_getElem?_some _ _).mp listed
    exact ⟨(v, p), Std.ExtTreeMap.mem_toList_iff_getElem?_eq_some.mpr found, rfl⟩

namespace Node

variable {table : WorldTable}

theorem mem_worldsShown : v ∈ n.worldsShown table ↔
    v ∈ table.names ∧ (v = World.primaryName ∨ n.existence[v]? = some true) := by
  rw [worldsShown, List.mem_filter]
  refine and_congr_right fun _ => ?_
  rw [Bool.or_eq_true, decide_eq_true_eq]
  refine or_congr_right ?_
  cases n.existence[v]? <;> simp

theorem primary_mem_worldsShown : World.primaryName ∈ n.worldsShown table :=
  mem_worldsShown.mpr ⟨WorldTable.mem_names.mpr (Or.inl rfl), Or.inl rfl⟩

theorem mem_worldsShown_of_decision (below : n.parent ≠ none) (offers : table.Offers world)
    (decided : n.decision? world = some true) : world.name ∈ n.worldsShown table := by
  cases world with
  | primary => exact primary_mem_worldsShown
  | named name =>
    have known : n.existence[name]? = some true := by
      simpa only [decision?, isRoot_eq_false below, Bool.false_eq_true, if_false] using decided
    exact mem_worldsShown.mpr ⟨WorldTable.mem_names.mpr (Or.inr offers), Or.inr known⟩

theorem RootUndecided.before (clear : k.RootUndecided) (aged : n.Aged m k) : n.RootUndecided := by
  intro top
  refine Std.ExtTreeMap.ext_getElem? fun v => ?_
  rw [Std.ExtTreeMap.getElem?_empty, Option.eq_none_iff_forall_ne_some]
  intro decided known
  have kept := aged.decided v decided known
  rw [clear (aged.like.place.parent.trans top), Std.ExtTreeMap.getElem?_empty] at kept
  cases kept

theorem worldsShown_congr (same : ∀ v ∈ table.entries, k.existence[v]? = n.existence[v]?) :
    k.worldsShown table = n.worldsShown table := by
  refine List.filter_congr fun v member => ?_
  rcases WorldTable.mem_names.mp member with rfl | listed
  · simp
  · rw [same v listed]

end Node

/-- A world that is listed is shown by the node's fields exactly if it shows the node, has decided
so before the node was read, and the node is not the root. -/
theorem Materializer.mem_worldsShown_iff (clear : n.RootUndecided) (listed : v ∈ m.worlds.entries)
    (secondary : v ≠ World.primaryName) : v ∈ n.worldsShown m.worlds ↔
      m.sees n (.named v) = .ok true ∧ n.parent ≠ none ∧ n.existence[v]? ≠ none := by
  rw [Node.mem_worldsShown]
  constructor
  · rintro ⟨_, same | decided⟩
    · exact absurd same secondary
    · have below : n.parent ≠ none := by
        intro top
        rw [clear top, Std.ExtTreeMap.getElem?_empty] at decided
        cases decided
      exact ⟨m.sees_decided below decided, below, by rw [decided]; exact Option.some_ne_none _⟩
  · rintro ⟨sees, below, known⟩
    obtain ⟨decided, found⟩ := Option.ne_none_iff_exists'.mp known
    rw [m.sees_decided below found] at sees
    rw [Except.ok.inj sees] at found
    exact ⟨WorldTable.mem_names.mpr (Or.inr listed), Or.inr found⟩

namespace Command

def Lists (e : Engine) (world : World) (input format : String) (site : Site)
    (shown : List String) : Prop :=
  ∀ disk, ∃ rows, ((run e world disk (.stat input format)).runOn site).1 = .ok
    (Table.text Table.grid ["Field", "Value"]
      (rows ++ [["Worlds", String.intercalate ", " shown]]), disk)

variable {site : Site} {input format : String}

theorem runOn_stat (e : Engine) (world : World) (disk : Disk)
    (input format : String) (site : Site) :
    (run e world disk (.stat input format)).runOn site =
      (((e.getNode input world).runOn site).1.map fun n =>
      (n.fieldsText e.worlds format, disk), ((e.getNode input world).runOn site).2) := by
  change ((e.getNode input world >>=
    fun n => pure (n.fieldsText e.worlds format, disk)).runOn site) = _
  rw [runOn_bind]
  cases ((e.getNode input world).runOn site).1 <;> rfl

theorem lists_of_answer (plain : format ≠ documentFormat)
    (answered : ((e.getNode input world).runOn site).1 = .ok n) :
    Lists e world input format site (n.worldsShown e.worlds) := by
  intro disk
  refine ⟨(n.fieldRows e.worlds).dropLast, ?_⟩
  rw [runOn_stat, answered, Except.map, Node.fieldsText, if_neg plain]
  rfl

end Command

namespace Session

variable {a : Session} {site : Site} {input format : String}

theorem Sound.attested (sound : a.Sound scope) (offers : a.engine.worlds.Offers world)
    (here : site.store = a.store) (timely : site.Timely)
    (answered : ((a.engine.getNode input world).runOn site).1 = .ok n) :
    Path.normalize input = .ok n.path ∧
      (a.after (.getNode input world) site).store.Attests world n.path := by
  have wf := sound.valid.wellFormed
  rw [← here] at wf
  have ends : (a.engine.getNode input world).Ends
    (Setting.alone scope a.engine.materializer.parameters) []
      site.store _ := Engine.ends_getNode_attests wf sound.valid.ready.within offers
  exact ends.runOn timely n answered

theorem Sound.looks_along (sound : a.Sound scope) (offers : a.engine.worlds.Offers world)
    (normalized : Path.normalize input = .ok k.path) (attests : a.store.Attests world k.path)
    (holds : a.store.Holds k) (here : site.store = a.store) (timely : site.Timely) :
    ((a.engine.getNode input world).runOn site).1 = .ok k ∧
      ((a.engine.getNode input world).runOn site).2.store = site.store := by
  have wf := sound.valid.wellFormed
  rw [← here] at wf attests holds
  have ends : (a.engine.getNode input world).Ends
    (Setting.alone scope a.engine.materializer.parameters) []
      site.store _ := Engine.ends_getNode_attested wf offers normalized attests holds
  exact (ends.runOn timely).symm

theorem Sound.decides (sound : a.Sound scope) (holds : a.store.Holds k)
    (like : n.Like a.engine.materializer k)
    (world : World) (here : site.store = a.store) (timely : site.Timely) :
    ((a.engine.materializer.isVisible n world).runOn site).1 =
      a.engine.materializer.sees n world := by
  have wf := sound.valid.wellFormed
  rw [← here] at wf holds
  have found : site.store.record? n.path = some k := by rw [← like.place.path, holds]
  have ends : (a.engine.materializer.isVisible n world).Ends
      (Setting.alone scope a.engine.materializer.parameters) [] site.store
        fun result _ => result = a.engine.materializer.sees n world :=
    ends_isVisible wf sound.valid.ready.within found like fun _ _ => rfl
  exact ends.runOn timely

theorem Sound.carries (sound : a.Sound scope) (here : site.store = a.store) (timely : site.Timely)
    (answered : ((a.engine.getNode input world).runOn site).1 = .ok n)
    (listed : v ∈ a.engine.worlds.entries)
    (before : ∀ k, a.store.record? n.path = some k → k.existence[v]? ≠ none) :
    n.existence[v]? ≠ none := by
  have wf := sound.valid.wellFormed
  rw [← here] at wf
  have ages := ages_getNode wf sound.valid.ready timely answered
  rw [here] at ages
  generalize there : a.store.record? n.path = found at ages
  cases ages with
  | @aged k _ aged =>
    obtain ⟨decided, known⟩ := Option.ne_none_iff_exists'.mp (before k there)
    rw [aged.decided v decided known]
    exact Option.some_ne_none _
  | @born folder _ time specs spec _ _ _ aged =>
    obtain ⟨p, configured⟩ := (mem_iff_getElem?_some _ _).mp listed
    have decided := a.engine.materializer.existence_generatedChild v folder time spec
    have same : a.engine.materializer.worlds.entries[v]? = some p := configured
    rw [same] at decided
    rw [aged.decided v _ decided]
    exact Option.some_ne_none _

/-- The fields of a node list the primary world and the worlds that show the node, but for those
that had not decided when the node was read, and at the root for all. Where none of this is the case
the list is exact, and the world that was asked in is on it. When the command is repeated, it prints
one and the same list ever after, with that world. -/
theorem worlds_listed (reached : a.Reached scope) (offers : a.engine.worlds.Offers world)
    (here : site.store = a.store) (timely : site.Timely)
    (answered : ((a.engine.getNode input world).runOn site).1 = .ok n)
    (plain : format ≠ documentFormat) :
    ∃ shown again, Command.Lists a.engine world input format site shown ∧
      (∀ disk, ((Command.run a.engine world disk (.stat input format)).runOn site).2.store
        = (a.after (.getNode input world) site).store) ∧
      shown.Sublist a.engine.worlds.names ∧ World.primaryName ∈ shown ∧ shown ⊆ again ∧
      (n.path ≠ Path.root → world.name ∈ again) ∧
      (∀ there : Site, there.store = (a.after (.getNode input world) site).store → there.Timely →
        Command.Lists a.engine world input format there again ∧
        (∀ disk, ((Command.run a.engine world disk (.stat input format)).runOn there).2.store =
          there.store) ∧
        ∀ v ∈ a.engine.worlds.entries, ∃ visible,
          ((a.engine.materializer.isVisible n (.named v)).runOn there).1 = .ok visible ∧
          (v ∈ shown ↔ visible = true ∧ n.path ≠ Path.root ∧ n.existence[v]? ≠ none)) ∧
      (n.path ≠ Path.root →
        (∀ k, a.store.record? n.path = some k →
          ∀ v ∈ a.engine.worlds.entries, k.existence[v]? ≠ none) →
        again = shown ∧ world.name ∈ shown ∧
          ∀ v ∈ a.engine.worlds.entries, n.existence[v]? ≠ none) := by
  have sound := reached.sound
  have fits : (Operation.getNode input world).Fits := Operation.fits_of_reads trivial
  have later : (a.after (.getNode input world) site).Sound scope :=
    sound.turn (.operates _ fits here timely)
  obtain ⟨k, holds, aged⟩ := sound.looked_up here timely answered
  obtain ⟨normalized, attests⟩ := sound.attested offers here timely answered
  have place := aged.like.place
  have shaped := later.valid.wellFormed.shaped holds
  rw [← place.path] at normalized attests
  have root : n.parent = none ↔ n.path = Path.root := by
    rw [← place.parent, ← place.path]
    exact shaped.parent_eq_none_iff
  have asked : n.path ≠ Path.root → world.name ∈ k.worldsShown a.engine.worlds := by
    intro inner
    obtain ⟨l, found, decided⟩ := attests.record shaped.normal
    cases Store.Holds.unique holds found
    exact k.mem_worldsShown_of_decision
      (place.parent ▸ fun top => inner (root.mp top)) offers decided
  refine ⟨n.worldsShown a.engine.worlds, k.worldsShown a.engine.worlds,
    Command.lists_of_answer plain answered, ?_,
    List.filter_sublist, Node.primary_mem_worldsShown, ?_, asked, ?_, ?_⟩
  · intro disk
    rw [Command.runOn_stat]
    rfl
  · intro v member
    obtain ⟨listed, known⟩ := Node.mem_worldsShown.mp member
    exact Node.mem_worldsShown.mpr ⟨listed, known.imp_right (aged.decided v true)⟩
  · intro there same timely'
    obtain ⟨found, kept⟩ := later.looks_along offers normalized attests holds same timely'
    refine ⟨Command.lists_of_answer plain found,
      fun disk => by rw [Command.runOn_stat]; exact kept, ?_⟩
    intro v listed
    have clear := (later.clear k holds).before aged
    have offers' : a.engine.materializer.worlds.Offers (.named v) := listed
    obtain ⟨visible, sees⟩ := Materializer.told_of_offers offers' n
    refine ⟨visible, (later.decides holds aged.like (.named v) same timely').trans sees, ?_⟩
    have row := a.engine.materializer.mem_worldsShown_iff clear listed (reached.secondary listed)
    rw [sees, Except.ok.injEq, ne_eq, root] at row
    exact row
  · intro inner before
    have carried : ∀ v ∈ a.engine.worlds.entries, n.existence[v]? ≠ none := fun v listed =>
      sound.carries here timely answered listed fun k found => before k found v listed
    have same : k.worldsShown a.engine.worlds = n.worldsShown a.engine.worlds := by
      refine Node.worldsShown_congr fun v listed => ?_
      obtain ⟨decided, known⟩ := Option.ne_none_iff_exists'.mp (carried v listed)
      rw [known, aged.decided v decided known]
    exact ⟨same, same ▸ asked inner, carried⟩

theorem dimTree_lists : ∃ n shown, dimTree.Reached dimScope ∧
    ((dimTree.engine.getNode "/harbor.txt" (.named "dim")).runOn (.still dimTree.store)).1 = .ok n ∧
    Command.Lists dimTree.engine (.named "dim") "/harbor.txt" "text" (.still dimTree.store) shown ∧
    "dim" ∈ shown ∧ ∀ there : Site,
      there.store =
        (dimTree.after (.getNode "/harbor.txt" (.named "dim")) (.still dimTree.store)).store →
      there.Timely → Command.Lists dimTree.engine
        (.named "dim") "/harbor.txt" "text" there shown := by
  have reached : dimTree.Reached dimScope := ⟨_, dimTree_begins, .none _⟩
  have offers : dimTree.engine.worlds.Offers (.named "dim") := Std.ExtTreeMap.mem_insert_self
  have plain : "text" ≠ documentFormat := by decide
  have runs : (((dimTree.engine.getNode "/harbor.txt" (.named "dim")).runOn
      (.still dimTree.store)).1.toOption.any fun n => n.path = "/harbor.txt" &&
        !n.isFolder) = true := by
    decide +kernel
  obtain ⟨n, answered, place, _⟩ := answers_file _ _ runs
  have missing : (dimTree.store.record? "/harbor.txt").isNone = true := by decide +kernel
  have inner : n.path ≠ Path.root := by
    rw [place]
    decide
  obtain ⟨shown, again, lists, _, _, _, _, _, repeats, settled⟩ := worlds_listed reached offers
    (Site.still_store _) (Site.still_timely _) answered plain
  obtain ⟨same, asked, _⟩ := settled inner fun k found => by
    rw [place, Option.isNone_iff_eq_none.mp missing] at found
    cases found
  rw [same] at repeats
  exact ⟨n, shown, reached, answered, lists, asked,
    fun there here timely => (repeats there here timely).1⟩

end Session

end SeedTree
