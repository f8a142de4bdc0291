import SeedTree.Proofs.Engine.Barred
import SeedTree.Proofs.Frame

/- Deletion is permanent. The place of a deleted node is barred, and every turn but one that makes a
   node there keeps it barred: the generator never brings the node back. -/
namespace SeedTree

/-- Why a world finds nothing at a path: it shows nothing there or at a place above, a file is
above, or the world is not configured. -/
inductive WorldTable.Misses (t : WorldTable) (world : World) (path : String) : Failure → Prop where
  | missing {above : String} (inside : Path.Within above path) :
    Misses t world path (.missing above)
  | file {above name : String} (inside : Path.Within (Path.join above name) path) :
      Misses t world path (.notADirectory above)
  | refused {fault : WorldFault} (unlisted : ¬ t.Offers world) :
      Misses t world path (.invalidConfig (.world fault))

section Missing

variable {e : Engine} {m : Materializer} {scope : Scope} {s : Store} {n : Node} {path : String}
  {world : World} {failure : Failure}

theorem Materializer.refused_of_sees (untold : m.sees n world = .error failure) :
    m.worlds.Misses world path failure := by
  have unlisted : ¬ m.worlds.Offers world := fun offers => by
    obtain ⟨visible, told⟩ := m.told_of_offers offers n
    rw [told] at untold
    cases untold
  unfold Materializer.sees Materializer.draws at untold
  split at untold
  · cases untold
  · cases untold
  · split at untold
    · cases untold
      exact .refused unlisted
    · cases untold

theorem Store.WellFormed.walk_barred (wf : s.WellFormed scope m.parameters) {names : List String}
    (normal : Path.IsNormal n.path) (valid : ∀ name ∈ names, Path.IsName name)
    (bars : m.view s names n = .ok none) (world : World) : ∃ failure,
      m.walk s world names n = .error failure ∧
        m.worlds.Misses world (names.foldl Path.join n.path) failure := by
  induction names generalizing n with
  | nil => cases bars
  | cons name more ih =>
    obtain ⟨named, rest⟩ := List.forall_mem_cons.mp valid
    have normal' := Path.isNormal_join normal named
    have inside := Path.within_foldl normal' rest
    rw [List.foldl_cons]
    cases isFolder : n.isFolder with
    | false => exact ⟨.notADirectory n.path, by simp [Materializer.walk, isFolder], .file inside⟩
    | true =>
      rw [m.view_cons s isFolder] at bars
      simp only [Materializer.walk, isFolder, Bool.not_true, Bool.false_eq_true, if_false]
      cases looked : m.lookup s n name with
      | error failure =>
        rw [looked] at bars
        cases bars
      | ok child =>
        rw [looked] at bars
        cases child with
        | none => exact ⟨_, rfl, .missing inside⟩
        | some child =>
          have place : child.path = Path.join n.path name := by
            cases ready : n.generated with
            | true =>
              rw [m.lookup_generated s ready] at looked
              exact (wf.holds (Except.ok.inj looked)).2
            | false =>
              rw [m.lookup_fresh s ready] at looked
              obtain ⟨_, _, spec, _, rfl, rfl⟩ := Materializer.promised_some looked
              rfl
          dsimp only [Except.bind] at bars ⊢
          cases seen : m.sees child world with
          | error failure => exact ⟨failure, rfl, Materializer.refused_of_sees seen⟩
          | ok visible =>
            cases visible with
            | false => exact ⟨_, rfl, .missing inside⟩
            | true =>
              rw [← place]
              exact ih (place ▸ normal') rest bars

theorem Materializer.Bars.misses (wf : s.WellFormed scope m.parameters) (bars : m.Bars s path)
    (normal : Path.IsNormal path) (world : World) : ∃ failure,
      m.resolved s world path = .error failure ∧ m.worlds.Misses world path failure := by
  obtain ⟨top, root⟩ := wf.root
  have place := (wf.holds root).2
  have whole : (Path.components path).foldl Path.join top.path = path := by
    rw [place, normal.foldl_join]
  rw [Bars, m.shows_root root] at bars
  simp only [resolved, root]
  have missed := wf.walk_barred (place ▸ Path.isNormal_root) normal.components.1 bars world
  rw [whole] at missed
  exact missed

theorem Engine.misses_of_accept {input : String} (normalized : Path.normalize input = .ok path)
    (refused : e.accept input world = .error failure) : e.worlds.Misses world path failure := by
  unfold Engine.accept at refused
  cases checked : e.worlds.check world with
  | ok _ =>
    rw [checked, normalized] at refused
    cases refused
  | error fault =>
    rw [checked] at refused
    cases refused
    refine .refused fun offers => ?_
    rw [WorldTable.check_of_offers offers] at checked
    cases checked

end Missing

namespace Session

variable {scope : Scope} {a b c : Session} {path : String}

def Bars (a : Session) (path : String) : Prop := a.engine.materializer.Bars a.store path

/-- A kind of turn that does not make a node at a path by hand. -/
def Avoids (path : String) (kind : Option Operation) : Prop := ∀ r, kind = some r → ¬ r.Makes path

theorem Turn.bars {kind : Option Operation} (turn : Turn scope kind a b) (valid : a.Valid scope)
    (bars : a.Bars path) (normal : Path.IsNormal path) (avoids : Avoids path kind) :
    b.Bars path := by
  have next := turn.valid valid
  have parameters := turn.parameters valid
  cases turn with
  | operates operation fits here timely =>
    exact bars.moves valid.ready.within (valid.moves fits here timely) valid.wellFormed normal
      (avoids operation rfl)
  | reopens shape within here timely started =>
    have same := (valid.reopened shape here timely started).1
    refine Materializer.Bars.spared valid.wellFormed (same.wellFormed valid.wellFormed) parameters
      normal bars fun at_ => ?_
    rw [same.record?]
    cases a.store.record? at_ with
    | none => exact .gone
    | some n => exact .kept (.refl n)

theorem Turns.bars (turns : Turns scope (Avoids path) a b) (valid : a.Valid scope)
    (bars : a.Bars path) (normal : Path.IsNormal path) : b.Bars path := by
  induction turns with
  | none a => exact bars
  | more rest avoids turn ih => exact turn.bars (rest.valid valid) (ih valid bars) normal avoids

theorem Valid.bars_of_deleted {input : String} {world : World} {site : Site}
    (valid : a.Valid scope) (here : site.store = a.store) (timely : site.Timely)
    (normalized : Path.normalize input = .ok path)
    (deleted : ((a.engine.deleteNode input world).runOn site).1 = .ok ()) :
    (a.after (.deleteNode input world) site).Bars path := by
  have wf := valid.wellFormed
  rw [← here] at wf
  have ends : (a.engine.deleteNode input world).Ends
    (Setting.alone scope a.engine.materializer.parameters) [] site.store _ :=
    ends_deleteNode wf valid.ready (.self _ _)
  rcases (ends.runOn timely).outcome
    with ⟨failure, failed, _⟩ | ⟨_, u, n, same, moves, holds, below, empty, left⟩
  · rw [deleted] at failed
    cases failed
  · rw [normalized] at same
    cases same
    have wf' := moves.wellFormed valid.ready.within wf
    have bars := Store.WellFormed.bars_removed valid.ready.within wf' holds below empty
    rw [← left] at bars
    exact bars

/-- Nothing is found at a path in any way: there is no record, no world shows a node, and nothing
can be read by the identity, unless the path of another record shares it. -/
structure Lacks (a : Session) (path : String) : Prop where
  record : a.store.record? path = none
  hidden : ∀ input world site, Path.normalize input = .ok path → site.store = a.store →
    site.Timely → ∃ failure, ((a.engine.getNode input world).runOn site).1 = .error failure ∧
      a.engine.worlds.Misses world path failure
  unread : ∀ id site, id = nodeIdOf a.engine.config.parameters.seed path →
    (∀ n, a.store.Holds n → nodeIdOf a.engine.config.parameters.seed n.path = id →
      n.path = path) → site.store = a.store → site.Timely →
    ((a.engine.readContent id).runOn site).1 = .error (.notFound (.id id))

section Barring

variable (bars : a.Bars path) (valid : a.Valid scope) (normal : Path.IsNormal path)

include bars valid normal

theorem Bars.hidden {input : String} {world : World} {site : Site}
    (normalized : Path.normalize input = .ok path) (here : site.store = a.store)
    (timely : site.Timely) :
    ∃ failure, ((a.engine.getNode input world).runOn site).1 = .error failure ∧
      a.engine.worlds.Misses world path failure := by
  have wf := valid.wellFormed
  rw [← here] at wf
  have ends : (a.engine.getNode input world).Ends
    (Setting.alone scope a.engine.materializer.parameters) [] site.store _ :=
    ends_getNode wf valid.ready
  obtain ⟨failure, fails, misses⟩ : ∃ failure,
      ((a.engine.accept input world).bind fun path =>
        a.engine.materializer.resolved site.store world path) = .error failure ∧
          a.engine.worlds.Misses world path failure := by
    cases accepted : a.engine.accept input world with
    | error failure => exact ⟨failure, rfl, Engine.misses_of_accept normalized accepted⟩
    | ok path' =>
      have same := (Engine.accept_ok_iff.mp accepted).2
      rw [normalized] at same
      cases same
      rw [Session.Bars, ← here] at bars
      exact Materializer.Bars.misses wf bars normal world
  have known := (ends.runOn timely).answer
  rw [fails] at known
  exact ⟨failure, known.of_eq_error, misses⟩

theorem Bars.unread {id : NodeId} {site : Site}
    (distinct : ∀ n, a.store.Holds n → nodeIdOf a.engine.config.parameters.seed n.path = id →
      n.path = path)
    (here : site.store = a.store) (timely : site.Timely) :
    ((a.engine.readContent id).runOn site).1 = .error (.notFound (.id id)) := by
  have wf := valid.wellFormed
  have absent := Materializer.Bars.absent wf normal bars
  rw [← here] at wf distinct absent
  rw [valid.ready.config] at distinct
  have apart : ∀ n, site.store.Holds n → n.id ≠ id := by
    intro n holds same
    rw [(wf.shaped holds).id] at same
    rw [Store.Holds, distinct n holds same, absent] at holds
    cases holds
  have ends : (a.engine.readContent id).Ends
    (Setting.alone scope a.engine.materializer.parameters) [] site.store _ :=
    ends_readContent wf valid.ready id
  obtain ⟨_, read, _⟩ := ends.runOn timely
  generalize ((a.engine.readContent id).runOn site).1 = result at read
  cases read with
  | missing => rfl
  | folder holds same => exact absurd same (apart _ holds)
  | file holds same => exact absurd same (apart _ holds)

theorem Bars.lacks : a.Lacks path where
  record := Materializer.Bars.absent valid.wellFormed normal bars
  hidden := fun _ _ _ normalized here timely => bars.hidden valid normal normalized here timely
  unread := fun _ _ _ distinct here timely => bars.unread valid normal distinct here timely

end Barring

/-- A deleted node stays away through any turns that do not make a node at its path by hand. -/
theorem deleted_forever {input : String} {world : World} {site : Site} (reached : a.Reached scope)
    (here : site.store = a.store) (timely : site.Timely)
    (normalized : Path.normalize input = .ok path)
    (deleted : ((a.engine.deleteNode input world).runOn site).1 = .ok ())
    (turns : Turns scope (Avoids path) (a.after (.deleteNode input world) site) c) :
    c.Lacks path := by
  have normal := Path.normalize_isNormal normalized
  have valid := reached.valid
  have turn : Turn scope (some (.deleteNode input world)) a
      (a.after (.deleteNode input world) site) :=
    .operates _ (fun _ makes => makes.elim) here timely
  have next := turn.valid valid
  have bars := valid.bars_of_deleted here timely normalized deleted
  exact (turns.bars next bars normal).lacks (turns.valid next) normal

def emptied : Session := newFolder.after (.deleteNode "/a" .primary) (.still newFolder.store)

theorem emptied_deleted : ((newFolder.engine.deleteNode "/a" .primary).runOn
    (.still newFolder.store)).1 = .ok () := by
  have succeeded : ((newFolder.engine.deleteNode "/a" .primary).runOn
      (.still newFolder.store)).1.isOk = true := by
    decide +kernel
  generalize ((newFolder.engine.deleteNode "/a" .primary).runOn (.still newFolder.store)).1 = result
    at succeeded ⊢
  cases result with
  | ok answer => rfl
  | error failure => cases succeeded

theorem emptied_turns : Turns .bare (Avoids "/a") emptied
    (emptied.after (.listChildren "/" .primary) (.still emptied.store)) := by
  refine .more (.none _) ?_ (.operates _ ?_ (Site.still_store _) (Site.still_timely _))
  · rintro r same makes
    cases same
    exact makes
  · exact fun _ makes => makes.elim

theorem emptied_lacks : newFolder.Reached .bare ∧
    ((newFolder.engine.deleteNode "/a" .primary).runOn (.still newFolder.store)).1 = .ok () ∧
    (emptied.after (.listChildren "/" .primary) (.still emptied.store)).Lacks "/a" :=
  ⟨newFolder_reached, emptied_deleted, deleted_forever newFolder_reached (Site.still_store _)
    (Site.still_timely _) (by rfl) emptied_deleted emptied_turns⟩

end Session

end SeedTree
