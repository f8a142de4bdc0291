import SeedTree.Proofs.Engine.Blame
import SeedTree.Proofs.LateWorld

/- Worlds that pass the check. A world passes by its name, but is looked up as it was given; the two
   agree for the primary world and for every listed one. The primary world's name given as that of a
   named world passes too, and is then found on no table. -/
namespace SeedTree

variable {t : WorldTable} {world : World} {name : String}

theorem WorldTable.resolve_primaryName (t : WorldTable) :
    t.resolve World.primaryName = .ok .primary := if_pos rfl

theorem WorldTable.check_ok_iff :
    t.check world = .ok () ↔ ∃ found, t.resolve world.name = .ok found := by
  unfold check
  cases t.resolve world.name with
  | error fault => exact ⟨nofun, fun ⟨_, impossible⟩ => by cases impossible⟩
  | ok found => exact ⟨fun _ => ⟨found, rfl⟩, fun _ => rfl⟩

theorem WorldTable.mem_of_check (checked : t.check (.named name) = .ok ())
    (other : name ≠ World.primaryName) : name ∈ t.entries := by
  obtain ⟨found, resolved⟩ := check_ok_iff.mp checked
  rw [World.name, resolve, if_neg other] at resolved
  split at resolved
  · exact Std.ExtTreeMap.contains_iff_mem.mp ‹_›
  · cases resolved

theorem WorldTable.resolve_of_check (checked : t.check world = .ok ())
    (other : world ≠ .named World.primaryName) : t.resolve world.name = .ok world := by
  cases world with
  | primary => exact t.resolve_primaryName
  | named name =>
    have secondary : name ≠ World.primaryName := fun same => other (by rw [same])
    have listed := Std.ExtTreeMap.contains_iff_mem.mpr (mem_of_check checked secondary)
    rw [World.name, resolve, if_neg secondary, if_pos listed]
    rfl

theorem WorldTable.Lacks.primary {fault : ConfigFault} (lacks : t.Lacks world fault)
    (checked : t.check world = .ok ()) :
    world = .named World.primaryName ∧ fault = .world (.unconfigured World.primaryName) := by
  obtain ⟨name, rfl, missing, rfl⟩ := lacks
  by_cases same : name = World.primaryName
  · subst same
    exact ⟨rfl, rfl⟩
  · obtain ⟨probability, listed⟩ := (mem_iff_getElem?_some _ _).mp (mem_of_check checked same)
    rw [missing] at listed
    cases listed

section Refusing

variable {m : Materializer} {scope : Scope} {s : Store} {n here child : Node} {path below : String}
  (wf : s.WellFormed scope m.parameters) (unlisted : m.worlds.entries[name]? = none)
  (undecided : s.Obeys fun n => n.existence[name]? = none)

include wf unlisted undecided

theorem Store.WellFormed.sees_unlisted (settled : s.Settled here) (named : Path.IsName below)
    (shown : m.lookup s here below = .ok (some child)) :
    m.sees child (.named name) = .error (.invalidConfig (.world (.unconfigured name))) := by
  have open_ : child.parent ≠ none ∧ child.existence[name]? = none := by
    cases ready : here.generated with
    | true =>
      rw [m.lookup_generated s ready] at shown
      have found := Except.ok.inj shown
      exact ⟨wf.below_join settled.normal named found, undecided child (wf.holds found).1⟩
    | false =>
      rw [m.lookup_fresh s ready] at shown
      obtain ⟨specs, _, spec, _, _, rfl⟩ := Materializer.promised_some shown
      rw [m.existence_generatedChild, unlisted]
      exact ⟨Option.some_ne_none _, rfl⟩
  rw [m.sees_open open_.1 open_.2, m.draws_unconfigured child.id unlisted]

theorem Store.WellFormed.resolved_unlisted (normal : Path.IsNormal path) (inner : path ≠ Path.root)
    (resolved : m.resolved s world path = .ok n) :
    m.resolved s (.named name) path = .error (.invalidConfig (.world (.unconfigured name))) := by
  obtain ⟨top, root⟩ := wf.root
  rw [Materializer.resolved, root] at resolved ⊢
  have valid := normal.components.1
  cases names : Path.components path with
  | nil =>
    rw [← Path.components_root] at names
    exact absurd (normal.eq_of_components Path.isNormal_root names) inner
  | cons below more =>
    rw [names] at resolved valid
    simp only [Materializer.walk] at resolved ⊢
    split at resolved
    · cases resolved
    · rename_i isFolder
      rw [if_neg isFolder]
      obtain ⟨found, shown, _⟩ := of_bind_ok resolved
      rw [shown] at resolved ⊢
      cases found with
      | none => cases resolved
      | some child =>
        have settled := wf.settled (wf.holds root).1
        simp only [Except.bind, wf.sees_unlisted unlisted undecided settled
          (valid below List.mem_cons_self) shown]

end Refusing

namespace Session

variable {scope : Scope} {a : Session} {site : Site} {input : String} {n : Node}

theorem Reached.configured (reached : a.Reached scope) : a.engine.config.check = .ok () ∧
    a.engine = ⟨a.engine.config, a.engine.config.materializer⟩ := by
  obtain ⟨start, begins, turns⟩ := reached
  induction turns with
  | none a =>
    cases begins with
    | @opened config site engine _ empty timely started =>
      have regular : site.store.Regular scope config.parameters := by
        rw [empty]
        exact Store.Blank.regular (.refl _)
      have known := Started.of_runOn timely fun _ => regular
      rw [started] at known
      obtain rfl := known.engine
      exact ⟨(known.suits_iff.mp rfl).checked, rfl⟩
  | more rest _ turn ih =>
    cases turn with
    | operates => exact ih begins
    | reopens shape within here timely started =>
      have turn : Turn scope none _ _ := .reopens shape within here timely started
      obtain ⟨engine, checked, _⟩ := turn.reopening (rest.valid begins.valid)
      exact ⟨checked, engine⟩

theorem Reached.refuses_primaryName (reached : a.Reached scope)
    (undecided : a.store.Obeys fun n => n.existence[World.primaryName]? = none)
    (here : site.store = a.store) (timely : site.Timely)
    (found : ((a.engine.getNode input .primary).runOn site).1 = .ok n)
    (inner : n.path ≠ Path.root) :
    ((a.engine.getNode input (.named World.primaryName)).runOn site).1
      = .error (.invalidConfig (.world (.unconfigured World.primaryName))) := by
  have valid := reached.valid
  have wf := valid.wellFormed
  obtain ⟨checked, engine⟩ := reached.configured
  have unlisted : a.engine.materializer.worlds.entries[World.primaryName]? = none := by
    rw [engine]
    exact Config.primary_unlisted checked
  rw [← here] at wf undecided
  have walked : ∀ world : World, Walked a.engine.materializer scope site.store
      ((a.engine.accept input world).bind fun path =>
        a.engine.materializer.resolved site.store world path)
      ((a.engine.getNode input world).runOn site).1
        ((a.engine.getNode input world).runOn site).2.store := by
    intro world
    have ends : (a.engine.getNode input world).Ends
        (Setting.alone scope a.engine.materializer.parameters) [] site.store _ :=
          ends_getNode wf valid.ready
    exact ends.runOn timely
  have primary := (walked .primary).answer
  rw [found] at primary
  obtain ⟨shown, answered, u, _, _, _, alike⟩ := primary.of_ok
  obtain ⟨path, accepted, resolved⟩ := of_bind_ok answered
  have normalized := (Engine.accept_ok_iff.mp accepted).2
  have normal := Path.normalize_isNormal normalized
  have passes : a.engine.worlds.check (.named World.primaryName) = .ok () :=
    WorldTable.check_ok_iff.mpr ⟨_, a.engine.worlds.resolve_primaryName⟩
  have inner' : path ≠ Path.root := by
    rw [← wf.resolved_path normal resolved, ← alike.like.place.path]
    exact inner
  have expected : ((a.engine.accept input (.named World.primaryName)).bind fun path =>
      a.engine.materializer.resolved site.store (.named World.primaryName) path)
        = .error (.invalidConfig (.world (.unconfigured World.primaryName))) := by
    rw [Engine.accept_ok_iff.mpr ⟨passes, normalized⟩]
    exact wf.resolved_unlisted unlisted undecided normal inner' resolved
  have answer := (walked (.named World.primaryName)).answer
  rw [expected] at answer
  exact answer.of_eq_error

end Session

namespace Engine

/-- In every world that passes the check, other than the primary one given as a named one, no
operation blames the configuration, and the world is the one that its name stands for. The exception
passes the check for the primary world, but where no record has a decision under its name it is
refused for every node that the primary world finds below the root; nothing else is blamed. -/
theorem checked_world_usable {e : Engine} {world : World}
    (checked : e.worlds.check world = .ok ()) :
    (world ≠ .named World.primaryName → e.worlds.resolve world.name = .ok world ∧
      ∀ r : Operation, r.world? = some world → ∀ site fault,
        ((r.run e).runOn site).1 ≠ .error (.invalidConfig fault)) ∧
    (world = .named World.primaryName → e.worlds.resolve world.name = .ok .primary ∧
      (∀ r : Operation, r.world? = some world → ∀ site fault,
        ((r.run e).runOn site).1 = .error (.invalidConfig fault) →
          fault = .world (.unconfigured World.primaryName)) ∧
      ∀ (scope : Scope) (a : Session), a.Reached scope → a.engine = e →
        (a.store.Obeys fun n => n.existence[World.primaryName]? = none) →
          ∀ (site : Site) (input : String) (n : Node), site.store = a.store → site.Timely →
            ((e.getNode input .primary).runOn site).1 = .ok n → n.path ≠ Path.root →
              ((e.getNode input world).runOn site).1
                = .error (.invalidConfig (.world (.unconfigured World.primaryName)))) := by
  have blamed : ∀ r : Operation, r.world? = some world → ∀ site fault,
      ((r.run e).runOn site).1 = .error (.invalidConfig fault) →
        world = .named World.primaryName ∧ fault = .world (.unconfigured World.primaryName) := by
    intro r acts site fault failed
    exact ((blames_run checked r acts).runOn site fault failed).primary checked
  constructor
  · intro other
    constructor
    · exact WorldTable.resolve_of_check checked other
    · intro r acts site fault failed
      exact other (blamed r acts site fault failed).1
  · rintro rfl
    refine ⟨e.worlds.resolve_primaryName, ?_, ?_⟩
    · intro r acts site fault failed
      exact (blamed r acts site fault failed).2
    · rintro scope a reached rfl undecided site input n here timely found inner
      exact reached.refuses_primaryName undecided here timely found inner

end Engine

namespace Session

theorem dimTree_usable : dimTree.engine.worlds.check (.named "dim") = .ok () ∧
    (∀ site fault, ((dimTree.engine.getNode "/kelp_nectar" (.named "dim")).runOn site).1
      ≠ .error (.invalidConfig fault)) ∧
    dimTree.engine.worlds.check (.named World.primaryName) = .ok () ∧
    ∃ n, ((dimTree.engine.getNode "/kelp_nectar" .primary).runOn (.still dimTree.store)).1 = .ok n ∧
      n.path ≠ Path.root ∧
      ((dimTree.engine.getNode "/kelp_nectar" (.named World.primaryName)).runOn
        (.still dimTree.store)).1
        = .error (.invalidConfig (.world (.unconfigured World.primaryName))) := by
  have dim : dimTree.engine.worlds.check (.named "dim") = .ok () := by decide +kernel
  have primary : dimTree.engine.worlds.check (.named World.primaryName) = .ok () :=
    WorldTable.check_ok_iff.mpr ⟨_, dimTree.engine.worlds.resolve_primaryName⟩
  have other : World.named "dim" ≠ .named World.primaryName := by decide
  have reached : dimTree.Reached dimScope := ⟨_, dimTree_begins, .none _⟩
  have seen :
    (((dimTree.engine.getNode "/kelp_nectar" .primary).runOn (.still dimTree.store)).1.toOption.any
      fun n => n.path ≠ Path.root) = true := by
    decide +kernel
  have serves := (Engine.checked_world_usable dim).1 other
  have refuses := (Engine.checked_world_usable primary).2 rfl
  cases found :
    ((dimTree.engine.getNode "/kelp_nectar" .primary).runOn (.still dimTree.store)).1 with
  | error failure =>
    rw [found] at seen
    cases seen
  | ok n =>
    rw [found] at seen
    have inner : n.path ≠ Path.root := of_decide_eq_true seen
    refine ⟨dim, ?_, primary, n, rfl, inner, ?_⟩
    · exact serves.2 (.getNode "/kelp_nectar" (.named "dim")) rfl
    · exact refuses.2.2 dimScope dimTree reached rfl (dimTree_begins.undecided _) _ _ n
        (Site.still_store _)
        (Site.still_timely _) found inner

end Session

end SeedTree
