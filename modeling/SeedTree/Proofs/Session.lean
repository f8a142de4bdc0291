import SeedTree.Proofs.Engine.Starting

/- Sessions: a store from its first opening on, through any operations and reopenings one after
   another. At the end of each the store is well-formed, and it can be described exactly. -/
namespace SeedTree

theorem Operation.leaves_runOn {scope : Scope} {engine : Engine}
    {site : Site} {operation : Operation}
    (wf : site.store.WellFormed scope engine.materializer.parameters)
    (ready : engine.Ready scope engine.materializer.parameters) (fits : operation.Fits)
    (timely : site.Timely) :
    operation.Leaves engine.materializer scope ((operation.run engine).runOn site).1.isOk site.store
      ((operation.run engine).runOn site).2.store := by
  have ends : (operation.run engine).Ends
      (Setting.alone scope engine.materializer.parameters) [] site.store fun result t =>
        operation.Leaves engine.materializer scope result.isOk site.store t :=
    ends_run wf ready operation fits
  exact ends.runOn timely

theorem Started.of_runOn {scope : Scope} {config : Config} {site : Site} (timely : site.Timely)
    (regular : config.Suits site.store → site.store.Regular scope config.parameters) :
    Started config site.store ((Engine.start config).runOn site).1
      ((Engine.start config).runOn site).2.store := by
  have ends : (Engine.start config).Ends (Setting.alone scope config.parameters) [] site.store
    (Started config site.store) := ends_start regular
  exact ends.runOn timely

structure Session where
  engine : Engine
  store : Store
  /-- The paths that nodes have been put at so far. -/
  paths : List String

namespace Session

def opened (engine : Engine) (paths : List String) (config : Config) (site : Site) : Session :=
  ⟨engine, ((Engine.start config).runOn site).2.store, paths ++ (Engine.start config).puts site⟩

def after (a : Session) (operation : Operation) (site : Site) : Session :=
  ⟨a.engine, ((operation.run a.engine).runOn site).2.store,
    a.paths ++ (operation.run a.engine).puts site⟩

inductive Begins (scope : Scope) : Session → Prop where
  | opened {config : Config} {site : Site} {engine : Engine} (within : config.Within scope)
      (empty : site.store = Store.empty) (timely : site.Timely)
      (started : ((Engine.start config).runOn site).1 = .ok engine) :
      Begins scope (opened engine [] config site)

/-- One turn of a session: an operation is run, or the store is opened again for a tree of the same
shape. -/
inductive Turn (scope : Scope) : Option Operation → Session → Session → Prop where
  | operates {a : Session} {site : Site} (operation : Operation) (fits : operation.Fits)
      (here : site.store = a.store) (timely : site.Timely) :
      Turn scope (some operation) a (a.after operation site)
  | reopens {a : Session} {config : Config} {site : Site} {engine : Engine}
      (shape : config.parameters = a.engine.config.parameters) (within : config.Within scope)
      (here : site.store = a.store) (timely : site.Timely)
      (started : ((Engine.start config).runOn site).1 = .ok engine) :
      Turn scope none a (opened engine a.paths config site)

inductive Turns (scope : Scope) (may : Option Operation → Prop) : Session → Session → Prop where
  | none (a : Session) : Turns scope may a a
  | more {kind : Option Operation} {a b c : Session}
    (rest : Turns scope may a b) (permitted : may kind)
      (turn : Turn scope kind b c) : Turns scope may a c

def Reached (scope : Scope) (a : Session) : Prop :=
  ∃ start, Begins scope start ∧ Turns scope (fun _ => True) start a

structure Valid (scope : Scope) (a : Session) : Prop where
  ready : a.engine.Ready scope a.engine.materializer.parameters
  wellFormed : a.store.WellFormed scope a.engine.materializer.parameters
  tracked : Store.Distinct a.engine.materializer.parameters.seed a.paths → a.store.Tracked a.paths

variable {scope : Scope} {a b : Session}

theorem valid_of_start {config : Config} {site : Site} {engine : Engine} {paths : List String}
    (within : config.Within scope) (timely : site.Timely)
    (whole : site.store.Blank ∨ site.store.WellFormed scope config.parameters)
    (tracked : Store.Distinct config.parameters.seed paths → site.store.Tracked paths)
    (started : ((Engine.start config).runOn site).1 = .ok engine) :
    Valid scope (opened engine paths config site) := by
  have regular : site.store.Regular scope config.parameters := by
    rcases whole with blank | wf
    · exact Store.Blank.regular blank
    · exact wf.regular
  have ends : (Engine.start config).Ends (Setting.alone scope config.parameters) [] site.store
    (Started config site.store) := ends_start fun _ => regular
  have known := ends.runOn timely
  have tracks := fun distinct : Store.Distinct config.parameters.seed
      (paths ++ (Engine.start config).puts site) =>
    ends.tracked timely regular (tracked distinct.left) distinct
  rw [started] at known
  obtain rfl := known.engine
  exact ⟨within.ready, known.wellFormed whole, tracks⟩

theorem Begins.valid (begins : Begins scope a) : a.Valid scope := by
  cases begins with
  | @opened config site engine within empty timely started =>
    refine valid_of_start within timely (Or.inl ?_) (fun _ => ?_) started
    · rw [empty]
      exact .refl _
    · rw [empty]
      exact Store.Blank.tracked (.refl _)

section Beginning

variable {config : Config} {site : Site} (checked : config.check = .ok ())
  (empty : site.store = Store.empty) (timely : site.Timely)

include checked empty timely

theorem started_of_check :
    ((Engine.start config).runOn site).1 = .ok ⟨config, config.materializer⟩ := by
  have regular : site.store.Regular Scope.bare config.parameters := by
    rw [empty]
    exact Store.Blank.regular (.refl _)
  have known := Started.of_runOn timely fun _ => regular
  rw [empty] at known
  exact known.ok_of_empty checked

theorem begins_opened (within : config.Within scope) :
    Begins scope (opened ⟨config, config.materializer⟩ [] config site) :=
  .opened within empty timely (started_of_check checked empty timely)

end Beginning

theorem Valid.leaves {site : Site} {operation : Operation} (valid : a.Valid scope)
    (fits : operation.Fits) (here : site.store = a.store) (timely : site.Timely) :
    operation.Leaves a.engine.materializer scope
      ((operation.run a.engine).runOn site).1.isOk a.store
      ((operation.run a.engine).runOn site).2.store := by
  have wf := valid.wellFormed
  rw [← here] at wf ⊢
  exact Operation.leaves_runOn wf valid.ready fits timely

theorem Valid.moves {site : Site} {operation : Operation} (valid : a.Valid scope)
    (fits : operation.Fits) (here : site.store = a.store) (timely : site.Timely) :
    Moves a.engine.materializer scope operation.May a.store
      ((operation.run a.engine).runOn site).2.store := (valid.leaves fits here timely).moves

section Restarting

variable {config : Config} {site : Site} (valid : a.Valid scope)
  (shape : config.parameters = a.engine.config.parameters) (here : site.store = a.store)
  (timely : site.Timely)

include valid shape here timely

theorem Valid.restarts : Started config a.store ((Engine.start config).runOn site).1
    ((Engine.start config).runOn site).2.store := by
  have regular : site.store.Regular scope config.parameters := by
    rw [here, shape.trans valid.ready.config]
    exact valid.wellFormed.regular
  have known := Started.of_runOn timely fun _ => regular
  rw [here] at known
  exact known

theorem Valid.reopened {engine : Engine}
    (started : ((Engine.start config).runOn site).1 = .ok engine) :
    a.store.SameNodes (opened engine a.paths config site).store ∧
      engine.materializer = config.materializer := by
  have known := valid.restarts shape here timely
  rw [started] at known
  unfold opened
  generalize ((Engine.start config).runOn site).2.store = t at known
  cases known with
  | kept => exact ⟨a.store.sameNodes_claimed config, rfl⟩
  | fresh suits absent =>
    obtain ⟨root, there⟩ := valid.wellFormed.root
    rw [absent] at there
    cases there

end Restarting

theorem Turn.parameters {kind : Option Operation} (turn : Turn scope kind a b)
    (valid : a.Valid scope) :
    b.engine.materializer.parameters = a.engine.materializer.parameters := by
  cases turn with
  | operates => rfl
  | @reopens _ config site engine shape within here timely started =>
    have materializer := (valid.reopened shape here timely started).2
    change engine.materializer.parameters = _
    rw [materializer]
    exact shape.trans valid.ready.config

theorem Turn.valid {kind : Option Operation} (turn : Turn scope kind a b) (valid : a.Valid scope) :
    b.Valid scope := by
  cases turn with
  | operates operation fits here timely =>
    refine ⟨valid.ready, (valid.moves fits here timely).wellFormed valid.ready.within
      valid.wellFormed, fun distinct => ?_⟩
    have ends : (operation.run a.engine).Ends
        (Setting.alone scope a.engine.materializer.parameters) [] a.store fun result t =>
          operation.Leaves a.engine.materializer scope result.isOk a.store t :=
      ends_run valid.wellFormed valid.ready operation fits
    have tracked := valid.tracked distinct.left
    have regular := valid.wellFormed.regular
    rw [← here] at ends tracked regular
    exact ends.tracked timely regular tracked distinct
  | reopens shape within here timely started =>
    have same := shape.trans valid.ready.config
    refine valid_of_start within timely (Or.inr ?_) (fun distinct => ?_) started
    · rw [here, same]
      exact valid.wellFormed
    · rw [here]
      rw [same] at distinct
      exact valid.tracked distinct

theorem Turns.valid {may : Option Operation → Prop} (turns : Turns scope may a b)
    (valid : a.Valid scope) : b.Valid scope := by
  induction turns with
  | none a => exact valid
  | more rest permitted turn ih => exact turn.valid (ih valid)

theorem Reached.valid (reached : a.Reached scope) : a.Valid scope := by
  obtain ⟨start, begins, turns⟩ := reached
  exact turns.valid begins.valid

theorem Begins.root (begins : Begins scope a) {n : Node} (holds : a.store.Holds n) :
    ∃ time, n = Node.root (nodeIdOf a.engine.materializer.parameters.seed Path.root) time := by
  cases begins with
  | @opened config site engine within empty timely started =>
    have regular : site.store.Regular scope config.parameters := by
      rw [empty]
      exact Store.Blank.regular (.refl _)
    have known := Started.of_runOn timely fun _ => regular
    rw [started] at known
    change Store.Holds ((Engine.start config).runOn site).2.store n at holds
    change ∃ time, n = Node.root (nodeIdOf engine.materializer.parameters.seed Path.root) time
    generalize ((Engine.start config).runOn site).2.store = t at known holds
    have blank : site.store.Blank := by
      rw [empty]
      exact .refl _
    have same := site.store.sameNodes_claimed config
    cases known with
    | kept suits there => exact absurd (blank.record? _) there
    | @fresh time suits absent valid =>
      have missing := (same.record? Path.root).trans absent
      have proper : (Node.root _ time).Proper scope config.parameters := Node.proper_root valid
      rcases (Store.holds_insertNode proper missing).mp holds with rfl | old
      · exact ⟨time, rfl⟩
      · rw [Store.Holds, same.record?, blank.record?] at old
        cases old

section Obeying

variable {rule : Parameters → Node → Prop} (kept : ∀ p, NodeRule scope p (rule p))

include kept

theorem Begins.obeys (begins : Begins scope a) :
    a.store.Obeys (rule a.engine.materializer.parameters) := by
  intro n holds
  obtain ⟨time, rfl⟩ := begins.root holds
  exact (kept _).root time

/-- A rule that holds of every node from its beginning on holds of all records. -/
theorem Turn.obeys {kind : Option Operation} (turn : Turn scope kind a b) (valid : a.Valid scope)
    (obeys : a.store.Obeys (rule a.engine.materializer.parameters)) :
    b.store.Obeys (rule b.engine.materializer.parameters) := by
  rw [turn.parameters valid]
  cases turn with
  | operates operation fits here timely =>
    exact (valid.moves fits here timely).obeys (kept _) valid.ready.within valid.wellFormed obeys
  | reopens shape within here timely started =>
    have same := (valid.reopened shape here timely started).1
    exact fun n holds => obeys n ((same.holds_iff n).mp holds)

theorem Reached.obeys (reached : a.Reached scope) :
    a.store.Obeys (rule a.engine.materializer.parameters) := by
  obtain ⟨start, begins, turns⟩ := reached
  induction turns with
  | none a => exact begins.obeys kept
  | more rest permitted turn ih => exact turn.obeys kept (rest.valid begins.valid) (ih begins)

end Obeying

end Session

def Site.still (s : Store) : Site := .fresh s fun _ => Moment.epoch

@[simp] theorem Site.still_store (s : Store) : (Site.still s).store = s := rfl

theorem Site.still_clock (s t : Store) : (Site.still s).clock = (Site.still t).clock := rfl

theorem Site.still_ticks (s t : Store) : (Site.still s).ticks = (Site.still t).ticks := rfl

theorem Site.still_timely (s : Store) : (Site.still s).Timely := fun _ => rfl

namespace Session

def newTree : Session := opened ⟨{}, ({} : Config).materializer⟩ [] {} (.still .empty)

theorem newTree_begins : Begins .bare newTree :=
  begins_opened rfl rfl (Site.still_timely _)
    fun _ member => absurd member Std.ExtTreeMap.not_mem_empty

def newFolder : Session :=
  newTree.after (.createFolder "/" .primary "a") (.still newTree.store)

theorem newFolder_turn : Turn .bare (some (.createFolder "/" .primary "a")) newTree newFolder := by
  have short : IsShort (Path.join "/" "a") := by decide +kernel
  have fits : (Operation.createFolder "/" .primary "a").Fits :=
    (Operation.fits_createFolder (by rfl) short)
  exact .operates _ fits (Site.still_store _) (Site.still_timely _)

theorem newFolder_reached : newFolder.Reached .bare :=
  ⟨_, newTree_begins, .more (.none _) trivial newFolder_turn⟩

end Session

end SeedTree
