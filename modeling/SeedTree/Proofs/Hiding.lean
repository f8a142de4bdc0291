import SeedTree.Proofs.Session
import SeedTree.Proofs.Engine.PairedWalks

/- What a world does not show is as good as absent: whoever reads in that world finds what would be
   found in a store without it. -/
namespace SeedTree.Session

variable {scope : Scope} {a : Session} {site site' : Site} {h : Node} {world : String}

theorem Valid.paired (valid : a.Valid scope) (holds : a.store.Holds h) (below : h.parent ≠ none)
    (hidden : h.existence[world]? = some false) (here : site.store = a.store)
    (there : site'.store = a.store.without h.path) (timely : site.Timely)
    (clock : site'.clock = site.clock) (ticks : site'.ticks = site.ticks) :
    Site.Paired scope a.engine.materializer.parameters world h.path
      (Store.Distinct a.engine.materializer.parameters.seed a.paths) site site' := by
  refine ⟨timely, clock, ticks, ?_⟩
  rw [here, there]
  exact valid.wellFormed.pruned holds below hidden fun distinct =>
    ⟨a.paths, distinct, valid.tracked distinct⟩

/-- In a world that does not show a node, looking up a node, listing a folder and asking for a
checksum answer what they answer on the store without the node and all below it. For the checksum,
no two paths of the session may share an identity. -/
theorem hidden_absent (reached : a.Reached scope) (holds : a.store.Holds h)
    (below : h.parent ≠ none)
    (hidden : h.existence[world]? = some false) (here : site.store = a.store)
    (there : site'.store = a.store.without h.path) (timely : site.Timely)
    (clock : site'.clock = site.clock) (ticks : site'.ticks = site.ticks) (input : String) :
    ((a.engine.getNode input (.named world)).runOn site').1
        = ((a.engine.getNode input (.named world)).runOn site).1 ∧
      ((a.engine.listChildren input (.named world)).runOn site').1
        = ((a.engine.listChildren input (.named world)).runOn site).1 ∧
      (Store.Distinct a.engine.config.parameters.seed a.paths →
        ((a.engine.checksum input (.named world)).runOn site').1
          = ((a.engine.checksum input (.named world)).runOn site).1) := by
  have valid := reached.valid
  have within := valid.ready.within
  have normal := (valid.wellFormed.shaped holds).normal
  have paired := valid.paired holds below hidden here there timely clock ticks
  refine ⟨(pairs_getNode paired within normal).1, (pairs_listChildren paired within normal).1, ?_⟩
  intro distinct
  rw [valid.ready.config] at distinct
  exact (pairs_checksum paired within normal distinct).1

theorem isShort_dim : ∀ world ∈ [World.primaryName, "dim"], IsShort world := by
  intro world member
  rcases List.mem_cons.mp member with rfl | other
  · decide +kernel
  · rw [List.mem_singleton.mp other]
    decide +kernel

def dimScope : Scope where
  worlds := [World.primaryName, "dim"]
  primary := List.mem_cons_self
  few := by decide
  short := isShort_dim

def dimConfig : Config := { worlds := (∅ : NameMap Binary64).insert "dim" (.ofNat 1) }

theorem within_dim (probability : Binary64) :
    ({ worlds := (∅ : NameMap Binary64).insert "dim" probability } : Config).Within dimScope := by
  intro name member
  rcases (Std.ExtTreeMap.mem_insert.mp member) with same | none
  · rw [← Std.LawfulEqCmp.eq_of_compare same]
    exact List.mem_cons_of_mem _ List.mem_cons_self
  · exact absurd none Std.ExtTreeMap.not_mem_empty

def dimTree : Session := opened ⟨dimConfig, dimConfig.materializer⟩ [] dimConfig (.still .empty)

/-- A folder made in the primary world, which the other world does not show. -/
def dimmed : Session := dimTree.after (.createFolder "/" .primary "a") (.still dimTree.store)

theorem dimTree_begins : Begins dimScope dimTree := by
  have checked : dimConfig.check = .ok () := by decide +kernel
  exact begins_opened checked rfl (Site.still_timely _) (within_dim _)

theorem dimmed_reached : dimmed.Reached dimScope := by
  have short : IsShort (Path.join "/" "a") := by decide +kernel
  have fits : (Operation.createFolder "/" .primary "a").Fits :=
    Operation.fits_createFolder (by rfl) short
  exact ⟨_, dimTree_begins, .more (.none _) trivial
    (.operates _ fits (Site.still_store _) (Site.still_timely _))⟩

theorem dimmed_absent : ∃ h, dimmed.Reached dimScope ∧ dimmed.store.Holds h ∧ h.path = "/a" ∧
    h.parent ≠ none ∧ h.existence["dim"]? = some false ∧
    ((dimmed.engine.listChildren "/" (.named "dim")).runOn (.still (dimmed.store.without h.path))).1
      = ((dimmed.engine.listChildren "/" (.named "dim")).runOn (.still dimmed.store)).1 := by
  have seen : (dimmed.store.record? "/a").any (fun h =>
      h.path = "/a" && h.parent.isSome && h.existence["dim"]? = some false) = true := by
    decide +kernel
  obtain ⟨h, found, known⟩ := Option.any_eq_true _ _ |>.mp seen
  simp only [Bool.and_eq_true, decide_eq_true_iff] at known
  obtain ⟨⟨path, some⟩, hidden⟩ := known
  have holds : dimmed.store.Holds h := by rw [Store.Holds, path, found]
  have below : h.parent ≠ none := Option.isSome_iff_ne_none.mp some
  have known :=
    hidden_absent dimmed_reached holds below hidden (Site.still_store _) (Site.still_store _)
      (Site.still_timely _) (Site.still_clock _ _) (Site.still_ticks _ _) "/"
  exact ⟨h, dimmed_reached, holds, path, below, hidden, known.2.1⟩

end SeedTree.Session
