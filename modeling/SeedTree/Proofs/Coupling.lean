import SeedTree.Proofs.Comparison
import SeedTree.Proofs.Hiding

/- Worlds are coupled. One draw for each node and world decides, whatever the table says besides: a
   greater probability shows more, an equal one the same, none of it the root alone, and all of it
   the primary world. -/
namespace SeedTree

section Drawing

variable {p q : Binary64} {id : NodeId} {world : String}

theorem Draw.always_unit53 : Draw.Always Draw.unit53 (· < twoTo 53) := by
  refine Draw.always_bind (Draw.always_any _) fun w _ => Draw.always_pure ?_
  have bound := w.toNat_lt
  change w.toNat / 2 ^ 11 < 2 ^ 53
  omega

theorem worldDraw_lt (id : NodeId) (world : String) : worldDraw id world < twoTo 53 := by
  unfold worldDraw
  split
  · rename_i n _ drawn
    exact Draw.always_unit53 _ _ _ _ drawn
  · exact twoTo_pos 53

/-- A node exists in a world if and only if its draw is less than the world's probability. -/
theorem existsIn_iff (finite : p.isFinite = true) :
    existsIn id world p = true ↔ ((worldDraw id world * twoTo 1021 : Nat) : Int) < p.value := by
  rw [existsIn, Binary64.exceeds, if_pos finite, decide_eq_true_iff, Int.natCast_mul]

theorem existsIn_mono (finite : p.isFinite = true) (finite' : q.isFinite = true)
    (le : p.value ≤ q.value) : existsIn id world p = true → existsIn id world q = true := by
  rw [existsIn_iff finite, existsIn_iff finite']
  exact fun less => Int.lt_of_lt_of_le less le

theorem existsIn_congr (finite : p.isFinite = true) (finite' : q.isFinite = true)
    (same : p.value = q.value) : existsIn id world p = existsIn id world q := by
  rw [Bool.eq_iff_iff, existsIn_iff finite, existsIn_iff finite', same]

theorem existsIn_zero (finite : p.isFinite = true) (zero : p.value = 0) :
    existsIn id world p = false := by
  rw [Bool.eq_false_iff]
  intro shown
  have less := (existsIn_iff finite).mp shown
  rw [zero] at less
  exact absurd less (Int.not_lt.mpr (Int.natCast_nonneg _))

theorem existsIn_one (finite : p.isFinite = true) (one : p.value = Binary64.one) :
    existsIn id world p = true := by
  rw [existsIn_iff finite, one, Int.ofNat_lt]
  have draw := worldDraw_lt id world
  have split : Binary64.one = twoTo 53 * twoTo 1021 := twoTo_add 53 1021
  rw [split]
  exact Nat.mul_lt_mul_of_pos_right draw (twoTo_pos 1021)

theorem Config.finite_of_check {c : Config} (checked : c.check = .ok ())
    (listed : c.worlds[world]? = some p) : p.isFinite = true := by
  have passed := Config.faultless_of_check checked listed
  unfold WorldTable.entryFault? at passed
  split at passed
  · cases passed
  · split at passed
    · cases passed
    · split at passed
      · cases passed
      · rename_i inside
        have inside : p.inUnitInterval = true := by simpa using inside
        rw [Binary64.inUnitInterval, Bool.and_eq_true, Bool.and_eq_true] at inside
        exact inside.1.1

end Drawing

section Knowing

variable {e : Engine} {world : World} {input path : String}

theorem Engine.accept_known (known : e.worlds.check world = .ok ()) (input : String) :
    e.accept input world = (Path.normalize input).mapError Failure.invalidPath := by
  rw [accept, known]
  rfl

theorem WorldTable.check_listed {table : WorldTable} {name : String} {p : Binary64}
    (listed : table.entries[name]? = some p) : table.check (.named name) = .ok () := by
  have resolves : ∃ world, table.resolve name = .ok world := by
    unfold resolve
    split
    · exact ⟨_, rfl⟩
    · rw [if_pos
        (Std.ExtTreeMap.contains_iff_mem.mpr ((mem_iff_getElem?_some _ _).mpr ⟨p, listed⟩))]
      exact ⟨_, rfl⟩
  obtain ⟨world, resolved⟩ := resolves
  change (discard (table.resolve name) : Except WorldFault Unit) = .ok ()
  rw [resolved]
  rfl

end Knowing

section Hiding

variable {v : Picture} {m : Materializer} {world : World}

theorem Picture.walk_hidden {name : String} {here : Node} (more : List String)
    (hidden : ∀ child, v (Path.join here.path name) = .ok (some child) →
      m.sees child world = .ok false) :
    (v.walk m world (name :: more) here).isOk = false := by
  unfold Picture.walk
  split
  · rfl
  · cases lies : v (Path.join here.path name) with
    | error failure => rfl
    | ok found =>
      cases found with
      | none => rfl
      | some child =>
        simp only [Except.bind]
        rw [hidden child lies]
        rfl

theorem Materializer.visibles_hidden {nodes : List Node}
    (hidden : ∀ n ∈ nodes, m.sees n world = .ok false) : m.visibles world nodes = .ok [] := by
  induction nodes with
  | nil => rfl
  | cons n more ih =>
    obtain ⟨first, rest⟩ := List.forall_mem_cons.mp hidden
    rw [visibles, first, ih rest]
    rfl

theorem Picture.Gathers.member {folder n : Node} {children : List Node}
    (gathers : v.Gathers m folder (.ok children)) (member : n ∈ children) :
    ∃ drawn, Path.IsName n.name ∧ v (Path.join folder.path n.name) = .ok (some drawn) ∧
      drawn.StandsFor m n := by
  cases gathers with
  | children sorted named shown =>
    have own : children.find? (·.name = n.name) = some n :=
      find?_of_distinct sorted.distinct member
    have known := shown n.name (named n member)
    rw [own] at known
    obtain ⟨_, lies, rel⟩ := known.of_ok
    cases rel with
    | some stands => exact ⟨_, named n member, lies, stands⟩

end Hiding

namespace Session

variable {scope : Scope} {c d : Config} {a b : Session} {world : String} {p q : Binary64}

/-- A session that has only read since it began on an empty store. -/
inductive Explores (scope : Scope) (config : Config) : Session → Prop where
  | began {site : Site} {engine : Engine} {b : Session} (within : config.Within scope)
      (empty : site.store = Store.empty) (timely : site.Timely)
      (started : ((Engine.start config).runOn site).1 = .ok engine)
      (turns : Turns scope Reads (opened engine [] config site) b) : Explores scope config b

/-- A named world shows nothing but the root. -/
def ShowsRootAlone (a : Session) (world : String) : Prop :=
  ∀ input site, site.store = a.store → site.Timely →
    (((a.engine.getNode input (.named world)).runOn site).1.isOk = true ↔
      Path.normalize input = .ok Path.root) ∧
    ∀ nodes, ((a.engine.listChildren input (.named world)).runOn site).1 = .ok nodes → nodes = []

def Hides (a : Session) (seer : World) : Prop := ∀ folder name child, Path.IsNormal folder →
  Path.IsName name → a.picture (Path.join folder name) = .ok (some child) →
    a.engine.materializer.sees child seer = .ok false

namespace Hides

variable {seer : World} {path input : String} (hides : a.Hides seer) (valid : a.Valid scope)

include hides valid

theorem resolves_root_alone (normal : Path.IsNormal path) :
    (a.picture.resolve a.engine.materializer seer path).isOk = true ↔ path = Path.root := by
  obtain ⟨top, root⟩ := valid.wellFormed.root
  have lies : a.picture Path.root = .ok (some top) :=
    valid.wellFormed.shows_record Path.isNormal_root root
  rw [Picture.resolve, lies]
  change (a.picture.walk _ _ (Path.components path) top).isOk = true ↔ _
  cases names : Path.components path with
  | nil =>
    have same : path = Path.root :=
      normal.eq_of_components Path.isNormal_root (by rw [names, Path.components_root])
    exact iff_of_true rfl same
  | cons name more =>
    have named := normal.components.1 name (by rw [names]; exact List.mem_cons_self)
    have start : Path.IsNormal top.path := by
      rw [valid.placed Path.isNormal_root lies]
      exact Path.isNormal_root
    have shut : (a.picture.walk a.engine.materializer seer (name :: more) top).isOk = false :=
      Picture.walk_hidden more fun child => hides top.path name child start named
    rw [shut]
    refine iff_of_false Bool.false_ne_true ?_
    rintro rfl
    rw [Path.components_root] at names
    cases names

theorem lists_nothing {nodes : List Node}
    (lists : a.picture.Lists a.engine input seer (.ok nodes)) : nodes = [] := by
  obtain ⟨folder, children, found, _, gathers, visible⟩ := lists.of_ok
  have none : a.engine.materializer.visibles seer children = .ok [] := by
    refine Materializer.visibles_hidden fun n member => ?_
    obtain ⟨drawn, named, lies, stands⟩ := gathers.member member
    rw [stands.like.sees]
    exact hides folder.path n.name drawn (valid.normal_of_found found) named lies
  exact Except.ok.inj (visible.symm.trans none)

end Hides

/-- A session that shows the tree of a configuration, with fair decisions of a world. -/
structure Explored (scope : Scope) (config : Config) (world : String) (a : Session) : Prop where
  sound : a.Sound scope
  engine : a.engine = ⟨config, config.materializer⟩
  checked : config.check = .ok ()
  fair : a.store.Obeys (a.engine.materializer.Fair world)
  origin : ∃ start, Begins scope start ∧ start.engine.materializer.parameters = config.parameters ∧
    start.picture.Outlines a.picture

theorem Explores.explored (explores : Explores scope c a) (world : String) :
    Explored scope c world a := by
  cases explores with
  | @began site engine _ within empty timely started turns =>
    have begins : Begins scope (opened engine [] c site) := .opened within empty timely started
    have regular : site.store.Regular scope c.parameters := by
      rw [empty]
      exact Store.Blank.regular (.refl _)
    have known := Started.of_runOn timely fun _ => regular
    rw [started] at known
    have same := turns.engine.trans known.engine
    refine ⟨?_, same, (known.suits_iff.mp rfl).checked, ?_, _, begins, ?_,
      turns.outlines (fun _ => gentle_of_reads) begins.valid⟩
    · exact Reached.sound ⟨_, begins, turns.mono fun _ _ => trivial⟩
    · exact turns.fair begins.valid fun n holds =>
        Materializer.fair_of_undecided (begins.undecided world n holds)
    · rw [← turns.engine, same]
      rfl

namespace Explored

variable (explored : Explored scope c world a)

include explored

theorem table : a.engine.worlds.entries = c.worlds := by
  rw [explored.engine]
  rfl

theorem outlines (explored' : Explored scope d world b) (shape : d.parameters = c.parameters) :
    a.picture.Outlines b.picture := by
  obtain ⟨start, begins, own, shown⟩ := explored.origin
  obtain ⟨start', begins', own', shown'⟩ := explored'.origin
  refine shown.symm.trans ((begins.outlines begins' ?_).trans shown')
  rw [own, own', shape]

theorem sees (listed : c.worlds[world]? = some p) {path : String} {n : Node}
    (normal : Path.IsNormal path) (shown : a.picture path = .ok (some n)) :
    a.engine.materializer.sees n (.named world) = .ok (n.isRoot || existsIn n.id world p) := by
  refine explored.sound.valid.sees_shown explored.fair ?_ normal shown
  change a.engine.worlds.entries[world]? = _
  rw [explored.table, listed]

theorem known (listed : c.worlds[world]? = some p) :
    a.engine.worlds.check (.named world) = .ok () := by
  refine WorldTable.check_listed (p := p) ?_
  rw [explored.table, listed]

theorem compares {how : Comparison} {first second : World} (explored' : Explored scope d world b)
    (shape : d.parameters = c.parameters) (known : a.engine.worlds.check first = .ok ())
    (known' : b.engine.worlds.check second = .ok ())
    (decides : ∀ path n k, Path.IsNormal path → a.picture path = .ok (some n) →
      b.picture path = .ok (some k) → k.id = n.id → k.isRoot = n.isRoot →
        how.Holds how.Orders (a.engine.materializer.sees n first)
          (b.engine.materializer.sees k second)) :
    a.Compares how first b second := by
  have outlines := explored.outlines explored' shape
  refine explored.sound.compares explored'.sound ⟨outlines, ?_, ?_, ?_⟩
  · exact fun path n normal shown => explored.sound.valid.placed normal shown
  · intro input
    rw [Engine.accept_known known, Engine.accept_known known']
  · intro path n k normal shown shown'
    have same := outlines path normal
    rw [shown, shown'] at same
    cases same with
    | some same =>
      refine decides path n k normal shown shown' (Node.id_of_essence same) ?_
      rw [Node.isRoot, Node.isRoot, Node.parent_of_essence same]

theorem compares_same (explored' : Explored scope d world b) (shape : d.parameters = c.parameters)
    (listed : c.worlds[world]? = some p) (listed' : d.worlds[world]? = some q)
    (equal : p.value = q.value) : a.Compares .same (.named world) b (.named world) := by
  have finite := Config.finite_of_check explored.checked listed
  have finite' := Config.finite_of_check explored'.checked listed'
  refine explored.compares explored' shape (explored.known listed) (explored'.known listed') ?_
  intro path n k normal shown shown' id root
  rw [explored.sees listed normal shown, explored'.sees listed' normal shown', id, root,
    existsIn_congr finite finite' equal]
  exact Comparison.holds_ok rfl

theorem showsRootAlone (listed : c.worlds[world]? = some p) (zero : p.value = 0) :
    a.ShowsRootAlone world := by
  have sound := explored.sound
  have finite := Config.finite_of_check explored.checked listed
  have hides : a.Hides (.named world) := by
    intro folder name child normal named shown
    have below := sound.valid.wellFormed.shown_below normal named shown
    rw [explored.sees listed (Path.isNormal_join normal named) shown, Node.isRoot_eq_false below,
      existsIn_zero finite zero]
    rfl
  intro input site here timely
  refine ⟨?_, fun nodes ok => ?_⟩
  · rw [← (sound.answers_node here timely input (.named world)).isOk, Picture.getNode,
      Engine.accept_known (explored.known listed)]
    cases normalized : Path.normalize input with
    | error fault => exact iff_of_false Bool.false_ne_true fun impossible => by cases impossible
    | ok path =>
      rw [Except.ok.injEq]
      exact hides.resolves_root_alone sound.valid (Path.normalize_isNormal normalized)
  · have lists := sound.answers_listing here timely input (.named world)
    rw [ok] at lists
    exact hides.lists_nothing sound.valid lists

end Explored

/-- Two sessions have each only read since they began on an empty store, with configurations that
shape one tree and tables that both list a world. What the world shows depends on nothing but its
probability: with a greater one it shows no less, with the same one the same, with none the root
alone, and with one all that the primary world shows, which is never less than it shows. -/
theorem worlds_coupled (explores : Explores scope c a) (explores' : Explores scope d b)
    (shape : d.parameters = c.parameters) (listed : c.worlds[world]? = some p)
    (listed' : d.worlds[world]? = some q) :
    (p.value ≤ q.value → a.Compares .noMore (.named world) b (.named world)) ∧
    (p.value = q.value → a.Compares .same (.named world) b (.named world)) ∧
    (p.value = 0 → a.ShowsRootAlone world) ∧
    (p.value = Binary64.one → a.Compares .same (.named world) b .primary) ∧
    a.Compares .noMore (.named world) b .primary := by
  have first := explores.explored world
  have second := explores'.explored world
  have finite := Config.finite_of_check first.checked listed
  have finite' := Config.finite_of_check second.checked listed'
  refine ⟨fun le => ?_, fun equal => ?_, first.showsRootAlone listed, fun one => ?_, ?_⟩
  · refine first.compares second shape (first.known listed) (second.known listed') ?_
    intro path n k normal shown shown' id root
    rw [first.sees listed normal shown, second.sees listed' normal shown', id, root]
    refine Comparison.holds_ok fun visible => ?_
    rw [Bool.or_eq_true] at visible ⊢
    exact visible.imp_right (existsIn_mono finite finite' le)
  · exact first.compares_same second shape listed listed' equal
  · refine first.compares second shape (first.known listed) rfl ?_
    intro path n k normal shown shown' id root
    rw [first.sees listed normal shown, existsIn_one finite one, Bool.or_true]
    exact Comparison.holds_ok rfl
  · refine first.compares second shape (first.known listed) rfl ?_
    intro path n k normal shown shown' id root
    rw [first.sees listed normal shown]
    exact Comparison.holds_ok fun _ => rfl

/-- The world that shows all in `dimConfig` shows nothing here. -/
def faintConfig : Config := { worlds := (∅ : NameMap Binary64).insert "dim" (.ofNat 0) }

def faintTree : Session :=
  opened ⟨faintConfig, faintConfig.materializer⟩ [] faintConfig (.still .empty)

def dimListed : Session := dimTree.after (.listChildren "/" (.named "dim")) (.still dimTree.store)

theorem faintTree_explores : Explores dimScope faintConfig faintTree :=
  .began (within_dim _) (Site.still_store _) (Site.still_timely _)
    (started_of_check (by decide +kernel) (Site.still_store _) (Site.still_timely _)) (.none _)

theorem dimListed_explores : Explores dimScope dimConfig dimListed := by
  have reads : Reads (some (.listChildren "/" (.named "dim"))) := trivial
  have turn : Turn dimScope (some (.listChildren "/" (.named "dim"))) dimTree dimListed :=
    .operates _ (fun _ makes => makes.elim) (Site.still_store _) (Site.still_timely _)
  exact .began (within_dim _) (Site.still_store _) (Site.still_timely _)
    (started_of_check (by decide +kernel) (Site.still_store _) (Site.still_timely _))
    (.more (.none _) reads turn)

theorem faint_coupled : Explores dimScope faintConfig faintTree ∧
    Explores dimScope dimConfig dimListed ∧
    faintTree.Compares .noMore (.named "dim") dimListed (.named "dim") ∧
      faintTree.ShowsRootAlone "dim" ∧
    dimListed.Compares .same (.named "dim") dimListed .primary := by
  have listed : faintConfig.worlds["dim"]? = some (.ofNat 0) := Std.ExtTreeMap.getElem?_insert_self
  have listed' : dimConfig.worlds["dim"]? = some (.ofNat 1) := Std.ExtTreeMap.getElem?_insert_self
  have zero : (Binary64.ofNat 0).value = 0 := by decide +kernel
  have one : (Binary64.ofNat 1).value = Binary64.one := by decide +kernel
  have le : (Binary64.ofNat 0).value ≤ (Binary64.ofNat 1).value := by decide +kernel
  have coupled := worlds_coupled faintTree_explores dimListed_explores rfl listed listed'
  have alone := worlds_coupled dimListed_explores dimListed_explores rfl listed' listed'
  exact ⟨faintTree_explores, dimListed_explores, coupled.1 le, coupled.2.2.1 zero,
    alone.2.2.2.1 one⟩

end Session

end SeedTree
