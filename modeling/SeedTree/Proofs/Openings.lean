import SeedTree.Proofs.Bytes.Words
import SeedTree.Proofs.Session

/- One store and all its openings. Whoever opens it first settles the numbers that shape its tree.
   Later openings with the same numbers are let in, all others are turned away, and neither leave
   anything behind. -/
namespace SeedTree

theorem Parameters.fingerprintMessage_injective : Function.Injective fingerprintMessage := by
  intro p q same
  simp only [fingerprintMessage, List.flatMap_cons, List.flatMap_nil, List.append_nil,
    List.append_assoc] at same
  rw [← List.append_nil (Bytes.le64 p.contentSeed),
    ← List.append_nil (Bytes.le64 q.contentSeed)] at same
  obtain ⟨depth, same⟩ := Bytes.le32_append_inj same
  obtain ⟨fewFolders, same⟩ := Bytes.le32_append_inj same
  obtain ⟨manyFolders, same⟩ := Bytes.le32_append_inj same
  obtain ⟨fewFiles, same⟩ := Bytes.le32_append_inj same
  obtain ⟨manyFiles, same⟩ := Bytes.le32_append_inj same
  obtain ⟨seed, same⟩ := Bytes.le64_append_inj same
  obtain ⟨contentSeed, _⟩ := Bytes.le64_append_inj same
  cases p
  cases q
  simp_all

section Marks

variable {m : Materializer} {scope : Scope} {s t : Store}

theorem Store.marks_insertAll (s : Store) (nodes : List Node) :
    (s.insertAll nodes).marks = s.marks := by
  unfold Store.insertAll
  induction nodes generalizing s with
  | nil => rfl
  | cons n nodes ih => exact ih (s.insertNode n)

theorem Move.marks {deed : Deed} (move : Move m scope deed s t) : t.marks = s.marks := by
  cases move with
  | expanded => exact s.marks_insertAll _
  | changed => rfl
  | made => rfl
  | removed => rfl

theorem Moves.marks {may : Deed → Prop} (moves : Moves m scope may s t) : t.marks = s.marks := by
  induction moves with
  | none => rfl
  | more permitted move rest ih => exact ih.trans move.marks

end Marks

section Claiming

variable {s : Store} {c d : Config}

theorem Config.suits_iff_of_marked
    (marked : s.marks[Store.fingerprintKey]? = some d.parameters.fingerprint.bytes) :
    c.Suits s ↔ c.check = .ok () ∧ c.parameters.fingerprint = d.parameters.fingerprint := by
  have accepts : (s.ensureFingerprint c.parameters.fingerprint).1 = true ↔
      c.parameters.fingerprint = d.parameters.fingerprint := by
    rw [Store.ensureFingerprint, marked, decide_eq_true_iff]
    exact ⟨fun same => Digest.ext_bytes same.symm, fun same => by rw [same]⟩
  exact ⟨fun suits => ⟨suits.checked, accepts.mp suits.accepted⟩,
    fun good => ⟨good.1, accepts.mpr good.2⟩⟩

end Claiming

/-- A store, the engines that have been opened on it, and the configurations it was tried with. The
latest come first. -/
structure Workplace where
  store : Store
  engines : List Engine
  tried : List Config

namespace Workplace

def vacant : Workplace := ⟨.empty, [], []⟩

def opened (a : Workplace) (config : Config) (site : Site) : Workplace where
  store := ((Engine.start config).runOn site).2.store
  engines := ((Engine.start config).runOn site).1.toOption.toList ++ a.engines
  tried := config :: a.tried

def worked (a : Workplace) (engine : Engine) (operation : Operation) (site : Site) : Workplace :=
  { a with store := ((operation.run engine).runOn site).2.store }

/-- Somebody tries to open the store, or an engine that was opened before runs an operation. -/
inductive Step (scope : Scope) : Workplace → Workplace → Prop where
  | opens {a : Workplace} {config : Config} {site : Site} (within : config.Within scope)
      (here : site.store = a.store) (timely : site.Timely) : Step scope a (a.opened config site)
  | works {a : Workplace} {engine : Engine} {site : Site} (operation : Operation)
      (among : engine ∈ a.engines) (fits : operation.Fits) (here : site.store = a.store)
      (timely : site.Timely) : Step scope a (a.worked engine operation site)

def Comes (scope : Scope) (a : Workplace) : Prop := Relation.ReflTransGen (Step scope) vacant a

/-- Among the configurations in order that were tried, fingerprints collide only where the messages
are one. -/
def Distinct (a : Workplace) : Prop :=
  ∀ c ∈ a.tried, ∀ d ∈ a.tried, c.check = .ok () → d.check = .ok () →
    c.parameters.fingerprint = d.parameters.fingerprint →
      c.parameters.fingerprintMessage = d.parameters.fingerprintMessage

/-- What the first opening has settled. -/
structure Founded (scope : Scope) (a : Workplace) (first : Engine) : Prop where
  tried : first.config ∈ a.tried
  checked : first.config.check = .ok ()
  wellFormed : a.store.WellFormed scope first.config.parameters
  marked : a.store.marks[Store.fingerprintKey]? = some first.config.parameters.fingerprint.bytes
  ready : ∀ engine ∈ a.engines, engine.Ready scope first.config.parameters

/-- As long as no opening has succeeded the store is empty; after that the first one has settled
it. -/
def Sound (scope : Scope) (a : Workplace) : Prop :=
  match a.engines.getLast? with
  | none => a.store = .empty
  | some first => a.Founded scope first

variable {scope : Scope} {a b : Workplace} {config : Config} {site : Site} {first : Engine}

theorem Founded.suits_iff (founded : a.Founded scope first)
    (distinct : (a.opened config site).Distinct) : config.Suits a.store ↔
      config.check = .ok () ∧ config.parameters = first.config.parameters := by
  rw [Config.suits_iff_of_marked founded.marked]
  refine and_congr_right fun checked => ⟨fun same => ?_, fun same => by rw [same]⟩
  exact Parameters.fingerprintMessage_injective (distinct config List.mem_cons_self first.config
    (List.mem_cons_of_mem _ founded.tried) checked founded.checked same)

theorem Sound.suits_iff (sound : a.Sound scope) (distinct : (a.opened config site).Distinct) :
    config.Suits a.store ↔ config.check = .ok () ∧
      ∀ first ∈ a.engines.getLast?, config.parameters = first.config.parameters := by
  unfold Sound at sound
  cases last : a.engines.getLast? with
  | none =>
    rw [last] at sound
    rw [sound, Config.suits_empty_iff]
    simp
  | some first =>
    rw [last] at sound
    rw [sound.suits_iff distinct]
    simp

theorem Sound.started (sound : a.Sound scope) (distinct : (a.opened config site).Distinct)
    (here : site.store = a.store) (timely : site.Timely) :
    Started config a.store ((Engine.start config).runOn site).1
      ((Engine.start config).runOn site).2.store := by
  have regular : config.Suits a.store → a.store.Regular scope config.parameters := by
    intro suits
    have good := (sound.suits_iff distinct).mp suits
    unfold Sound at sound
    cases last : a.engines.getLast? with
    | none =>
      rw [last] at sound
      rw [sound]
      exact Store.Blank.regular (.refl _)
    | some first =>
      rw [last] at sound
      rw [good.2 first last]
      exact sound.wellFormed.regular
  rw [← here] at regular ⊢
  exact Started.of_runOn timely regular

section Opening

variable {failure : Failure} {engine : Engine}

theorem opened_of_refused (refused : ((Engine.start config).runOn site).1 = .error failure) :
    (a.opened config site).engines = a.engines := by
  rw [opened, refused]
  rfl

theorem opened_of_ok (ok : ((Engine.start config).runOn site).1 = .ok engine) :
    (a.opened config site).engines = engine :: a.engines := by
  rw [opened, ok]
  rfl

end Opening

theorem Founded.unchanged {result : Except Failure Engine} {t : Store}
    (founded : a.Founded scope first)
    (started : Started config a.store result t) : t = a.store := by
  cases started with
  | refused => rfl
  | kept => exact Store.claimed_of_marked founded.marked
  | fresh suits absent =>
    obtain ⟨root, there⟩ := founded.wellFormed.root
    rw [absent] at there
    cases there

theorem Founded.opened (founded : a.Founded scope first) (within : config.Within scope)
    (distinct : (a.opened config site).Distinct)
    (started : Started config a.store ((Engine.start config).runOn site).1
      (a.opened config site).store) : (a.opened config site).Founded scope first := by
  have same := founded.unchanged started
  refine ⟨List.mem_cons_of_mem _ founded.tried, founded.checked, ?_, ?_, ?_⟩
  · rw [same]
    exact founded.wellFormed
  · rw [same]
    exact founded.marked
  · cases result : ((Engine.start config).runOn site).1 with
    | error failure =>
      rw [opened_of_refused result]
      exact founded.ready
    | ok engine =>
      rw [result] at started
      obtain ⟨_, shape⟩ := (founded.suits_iff distinct).mp (started.suits_iff.mp rfl)
      rw [opened_of_ok result, started.engine, ← shape]
      exact List.forall_mem_cons.mpr ⟨within.ready, shape ▸ founded.ready⟩

/-- The first opening that succeeds settles the shape. -/
theorem founded_first {engine : Engine} (vacant : a.store = .empty) (unopened : a.engines = [])
    (within : config.Within scope) (ok : ((Engine.start config).runOn site).1 = .ok engine)
    (started : Started config a.store (.ok engine) (a.opened config site).store) :
    (a.opened config site).Founded scope engine := by
  have whole : a.store.Blank ∨ a.store.WellFormed scope config.parameters := by
    rw [vacant]
    exact Or.inl (.refl _)
  have wf := started.wellFormed whole
  have marked := started.marked
  have checked := (started.suits_iff.mp rfl).checked
  have engines := opened_of_ok (a := a) ok
  rw [unopened] at engines
  obtain rfl := started.engine
  refine ⟨List.mem_cons_self, checked, wf, marked, ?_⟩
  rw [engines]
  exact List.forall_mem_singleton.mpr within.ready

theorem Sound.opened (sound : a.Sound scope) (within : config.Within scope)
    (distinct : (a.opened config site).Distinct) (here : site.store = a.store)
    (timely : site.Timely) : (a.opened config site).Sound scope := by
  have started := sound.started distinct here timely
  unfold Sound at sound ⊢
  cases last : a.engines.getLast? with
  | none =>
    rw [last] at sound
    have unopened := List.getLast?_eq_none_iff.mp last
    cases result : ((Engine.start config).runOn site).1 with
    | error failure =>
      rw [opened_of_refused result, last]
      rw [result] at started
      exact started.unchanged.trans sound
    | ok engine =>
      rw [opened_of_ok result, unopened]
      rw [result] at started
      exact founded_first sound unopened within result started
  | some first =>
    rw [last] at sound
    have founded := sound.opened within distinct started
    cases result : ((Engine.start config).runOn site).1 with
    | error failure =>
      rw [opened_of_refused result, last]
      exact founded
    | ok engine =>
      rw [opened_of_ok result, List.getLast?_cons, last]
      exact founded

theorem Sound.worked {engine : Engine} {operation : Operation} (sound : a.Sound scope)
    (among : engine ∈ a.engines) (fits : operation.Fits) (here : site.store = a.store)
    (timely : site.Timely) : (a.worked engine operation site).Sound scope := by
  unfold Sound at sound ⊢
  change match a.engines.getLast? with
    | none => _
    | some first => (a.worked engine operation site).Founded scope first
  cases last : a.engines.getLast? with
  | none =>
    rw [List.getLast?_eq_none_iff.mp last] at among
    cases among
  | some first =>
    rw [last] at sound
    have ready := sound.ready engine among
    have wf := sound.wellFormed
    rw [← ready.parameters] at wf ready
    rw [← here] at wf
    have moves := (Operation.leaves_runOn wf ready fits timely).moves
    have wf' := moves.wellFormed ready.within wf
    rw [(sound.ready engine among).parameters] at wf'
    have marks := moves.marks
    rw [here] at marks
    refine ⟨sound.tried, sound.checked, wf', ?_, sound.ready⟩
    change ((operation.run engine).runOn site).2.store.marks[Store.fingerprintKey]? = _
    rw [marks]
    exact sound.marked

theorem Step.tried (step : Step scope a b) : a.tried ⊆ b.tried := by
  cases step with
  | opens => exact List.subset_cons_self _ _
  | works => exact List.Subset.refl _

theorem Step.sound (step : Step scope a b) (distinct : b.Distinct) (sound : a.Sound scope) :
    b.Sound scope := by
  cases step with
  | opens within here timely => exact sound.opened within distinct here timely
  | works operation among fits here timely => exact sound.worked among fits here timely

theorem Comes.sound (comes : a.Comes scope) (distinct : a.Distinct) : a.Sound scope := by
  induction comes with
  | refl => rfl
  | tail rest step ih =>
    have earlier : Distinct _ := fun c known d known' =>
      distinct c (step.tried known) d (step.tried known')
    exact step.sound distinct (ih earlier)

/-- After any history, an opening succeeds if and only if its configuration is in order and has the
numbers of the first opening that succeeded. One that fails changes nothing in the store, and
neither does one that succeeds later than another. No fingerprints may collide. -/
theorem openings_guarded (comes : a.Comes scope) (distinct : (a.opened config site).Distinct)
    (here : site.store = a.store) (timely : site.Timely) :
    (((Engine.start config).runOn site).1.isOk = true ↔ config.check = .ok () ∧
        ∀ first ∈ a.engines.getLast?, config.parameters = first.config.parameters) ∧
      (∀ engine, ((Engine.start config).runOn site).1 = .ok engine → engine.config = config) ∧
      (((Engine.start config).runOn site).1.isOk = false ∨ a.engines ≠ [] →
        ((Engine.start config).runOn site).2.store = a.store) := by
  have earlier : a.Distinct := fun c known d known' =>
    distinct c (List.mem_cons_of_mem _ known) d (List.mem_cons_of_mem _ known')
  have sound := comes.sound earlier
  have started := sound.started distinct here timely
  refine ⟨started.suits_iff.trans (sound.suits_iff distinct), ?_, ?_⟩
  · intro engine ok
    rw [ok] at started
    rw [started.engine]
  · rintro (failed | opened)
    · cases result : ((Engine.start config).runOn site).1 with
      | error failure =>
        rw [result] at started
        exact started.unchanged
      | ok engine =>
        rw [result] at failed
        cases failed
    · unfold Sound at sound
      cases last : a.engines.getLast? with
      | none => exact absurd (List.getLast?_eq_none_iff.mp last) opened
      | some first =>
        rw [last] at sound
        exact sound.unchanged started

def begun : Workplace := vacant.opened {} (.still .empty)

def defaultEngine : Engine := ⟨{}, ({} : Config).materializer⟩

theorem begun_engines : begun.engines = [defaultEngine] := by
  have checked : ({} : Config).check = .ok () := by decide +kernel
  have started : ((Engine.start {}).runOn (.still .empty)).1 = .ok defaultEngine :=
    Session.started_of_check checked (Site.still_store _) (Site.still_timely _)
  rw [begun, opened_of_ok started]
  rfl

def settled : Workplace :=
  begun.worked defaultEngine (.createFolder "/" .primary "a") (.still begun.store)

theorem settled_engines : settled.engines = [defaultEngine] := begun_engines

def otherSeed : Config := { parameters := { seed := 43 } }

theorem settled_comes : settled.Comes .bare := by
  have within : Config.Within .bare {} := fun _ member => absurd member Std.ExtTreeMap.not_mem_empty
  have short : IsShort (Path.join "/" "a") := by decide +kernel
  have among : defaultEngine ∈ begun.engines := by
    rw [begun_engines]
    exact List.mem_singleton_self _
  have opens : Step .bare vacant begun := .opens within (Site.still_store _) (Site.still_timely _)
  have works : Step .bare begun settled :=
    .works _ among (Operation.fits_createFolder (by rfl) short)
      (Site.still_store _) (Site.still_timely _)
  exact .tail (.tail .refl opens) works

theorem otherSeed_distinct : (settled.opened otherSeed (.still settled.store)).Distinct := by
  have apart : otherSeed.parameters.fingerprint ≠ ({} : Config).parameters.fingerprint := by
    decide +kernel
  have tried : (settled.opened otherSeed (.still settled.store)).tried = [otherSeed, {}] := rfl
  intro c known d known' _ _ same
  rw [tried, List.mem_cons, List.mem_singleton] at known known'
  rcases known with rfl | rfl <;> rcases known' with rfl | rfl
  · rfl
  · exact absurd same apart
  · exact absurd same.symm apart
  · rfl

theorem otherSeed_refused : settled.Comes .bare ∧
    (settled.opened otherSeed (.still settled.store)).Distinct ∧ otherSeed.check = .ok () ∧
    ((Engine.start otherSeed).runOn (.still settled.store)).1.isOk = false ∧
    ((Engine.start otherSeed).runOn (.still settled.store)).2.store = settled.store := by
  have known := openings_guarded settled_comes otherSeed_distinct (Site.still_store _)
    (Site.still_timely _)
  have other : otherSeed.parameters ≠ ({} : Config).parameters := by decide
  have failed : ((Engine.start otherSeed).runOn (.still settled.store)).1.isOk = false := by
    rw [Bool.eq_false_iff]
    intro ok
    refine other ((known.1.mp ok).2 defaultEngine ?_)
    rw [settled_engines]
    exact List.getLast?_singleton
  exact ⟨settled_comes, otherSeed_distinct, by decide +kernel, failed, known.2.2 (Or.inl failed)⟩

end Workplace

end SeedTree
