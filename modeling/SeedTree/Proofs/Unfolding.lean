import SeedTree.Proofs.Blueprint
import SeedTree.Proofs.Session

/- A session that only reads unfolds the tree that its configuration describes: whatever has been
   read before, an answer is what the blueprint says. -/
namespace SeedTree

/-- A node as it is planned: with the decisions of all named worlds, unless it is the root. -/
def Materializer.planned (m : Materializer) (n : Node) : Node :=
  { n.lasting with existence := if n.isRoot then ∅ else m.worlds.decideAll n.id }

/-- A node has the decisions that it was generated with, and no others. -/
def Node.Decided (m : Materializer) (n : Node) : Prop :=
  n.existence = if n.isRoot then ∅ else m.worlds.decideAll n.id

def Store.Decided (m : Materializer) (s : Store) : Prop := ∀ n, s.Holds n → n.Decided m

variable {m : Materializer} {c : Config} {scope : Scope} {s t : Store} {n k : Node} {name : String}
  {world : World}

theorem Node.Decided.lasting (decided : n.Decided m) : n.lasting = m.planned n := by
  have decided : n.existence = if n.isRoot then ∅ else m.worlds.decideAll n.id := decided
  rw [Materializer.planned, ← decided]
  rfl

theorem Node.Like.planned (like : n.Like m k) : m.planned k = m.planned n := by
  unfold Materializer.planned Node.lasting Node.isRoot
  simp only [like.place.id, like.place.path, like.place.name, like.place.parent, like.depth,
    like.kind, like.size, like.upload]

theorem Materializer.planned_generatedChild (folder : Node) (time : Moment) (spec : ChildSpec) :
    c.materializer.planned (c.materializer.generatedChild folder time spec)
      = Blueprint.child c (c.materializer.planned folder) spec := by
  have size : spec.kind.size = Blueprint.size spec.kind := by
    cases spec.kind <;> rfl
  unfold Materializer.planned Materializer.generatedChild Node.child Node.lasting Blueprint.child
  simp only [size, Node.isRoot, Option.isNone_some, Bool.false_eq_true, if_false]
  rfl

theorem Materializer.decided_generatedChild (folder : Node) (time : Moment) (spec : ChildSpec) :
    (m.generatedChild folder time spec).Decided m := rfl

theorem Materializer.sees_planned (decided : n.Decided c.materializer) (world : World) :
    c.materializer.sees n world = Blueprint.shows c world (c.materializer.planned n) := by
  cases world with
  | primary => rfl
  | named name =>
    have own : (c.materializer.planned n).isRoot = n.isRoot := rfl
    have same : (c.materializer.planned n).id = n.id := rfl
    rw [Blueprint.shows, own, same]
    cases top : n.isRoot with
    | true =>
      have none : n.parent = none := by simpa [Node.isRoot] using top
      exact c.materializer.sees_root none _
    | false =>
      have below : n.parent ≠ none := by
        intro none
        rw [Node.isRoot, none] at top
        cases top
      rw [Node.Decided, top] at decided
      have decisions : n.existence[name]? = (c.worlds[name]?).map (existsIn n.id name) := by
        rw [decided]
        exact NameMap.getElem?_map _ _ name
      simp only [Bool.false_eq_true, if_false]
      cases configured : c.worlds[name]? with
      | none =>
        rw [configured] at decisions
        rw [c.materializer.sees_open below decisions]
        exact c.materializer.draws_unconfigured n.id configured
      | some probability =>
        rw [configured] at decisions
        exact c.materializer.sees_decided below decisions

/-- What a fresh folder would generate under a name is what the blueprint holds there. -/
theorem Materializer.promised_planned (n : Node) (name : String) :
    Agree (Option.Rel fun k a => a.generated = false ∧ a.Decided c.materializer ∧
        c.materializer.planned a = k)
      (Blueprint.child? c (c.materializer.planned n) name) (c.materializer.promised n name) := by
  cases drawn : c.materializer.specs? n with
  | none =>
    have unending : Blueprint.child? c (c.materializer.planned n) name =
        .error (.unending n.path) :=
      Blueprint.child?_unending drawn name
    rw [unending, Materializer.promised, drawn]
    rfl
  | some specs =>
    have held : Blueprint.child? c (c.materializer.planned n) name = .ok _ :=
      Blueprint.child?_drawn drawn name
    rw [held, Materializer.promised_of_drawn drawn]
    cases specs.find? (·.name = name) with
    | none => exact .none
    | some spec =>
      exact .some ⟨rfl, Materializer.decided_generatedChild ..,
        Materializer.planned_generatedChild ..⟩

theorem Materializer.visibles_planned {children : List Node}
    (decided : ∀ n ∈ children, n.Decided c.materializer) (world : World) :
    (c.materializer.visibles world children).map (List.map Node.lasting)
      = Blueprint.shown c world (children.map Node.lasting) := by
  induction children with
  | nil => rfl
  | cons n more ih =>
    obtain ⟨first, decided⟩ := List.forall_mem_cons.mp decided
    rw [List.map_cons, Blueprint.shown, Materializer.visibles, ← ih decided, first.lasting,
      Materializer.sees_planned first world]
    cases Blueprint.shows c world (c.materializer.planned n) with
    | error failure => rfl
    | ok visible =>
      cases c.materializer.visibles world more with
      | error failure => rfl
      | ok rest =>
        cases visible with
        | false => rfl
        | true => exact congrArg (fun n => Except.ok (n :: rest.map Node.lasting)) first.lasting

/-- What a store shows below a node is what the blueprint holds: it looks as if the node had not
been expanded and everything were decided. -/
structure Unfolded (c : Config) (s : Store) (k n : Node) : Prop where
  source : ∃ origin blank, blank.generated = false ∧ blank.Decided c.materializer ∧
    c.materializer.planned blank = k ∧ c.materializer.Alike origin s blank n

namespace Unfolded

variable (unfolded : Unfolded c s k n)

include unfolded

theorem planned : c.materializer.planned n = k := by
  obtain ⟨_, _, _, _, rfl, alike⟩ := unfolded.source
  exact alike.like.planned

theorem isFolder : k.isFolder = n.isFolder := by
  rw [← unfolded.planned]
  rfl

theorem path : k.path = n.path := by
  rw [← unfolded.planned]
  rfl

theorem sees (world : World) : Blueprint.shows c world k = c.materializer.sees n world := by
  obtain ⟨_, _, _, decided, rfl, alike⟩ := unfolded.source
  rw [alike.like.sees, Materializer.sees_planned decided]

theorem child? (folder : n.isFolder = true) (named : Path.IsName name) :
    Agree (Option.Rel (Unfolded c s)) (Blueprint.child? c k name)
      (c.materializer.lookup s n name) := by
  obtain ⟨origin, blank, fresh, _, rfl, alike⟩ := unfolded.source
  have known := alike.lookup (alike.like.isFolder.symm.trans folder) named
  rw [c.materializer.lookup_fresh origin fresh] at known
  refine Agree.trans ?_ (Materializer.promised_planned blank name) known
  rintro _ _ _ (⟨fresh, decided, same⟩ | _) (alike | _)
  · exact .some ⟨_, _, fresh, decided, same, alike⟩
  · exact .none

theorem walk (world : World) (names : List String) (valid : ∀ name ∈ names, Path.IsName name) :
    Agree (Unfolded c s) (Blueprint.walk c world names k)
      (c.materializer.walk s world names n) := by
  induction names generalizing k n with
  | nil => exact unfolded
  | cons name more ih =>
    obtain ⟨named, valid⟩ := List.forall_mem_cons.mp valid
    have same := unfolded.isFolder
    cases folder : n.isFolder with
    | false =>
      simp only [Blueprint.walk, Materializer.walk, same, folder, Bool.not_false, if_true]
      exact congrArg Failure.notADirectory unfolded.path
    | true =>
      simp only [Blueprint.walk, Materializer.walk, same, folder, Bool.not_true,
        Bool.false_eq_true, if_false, unfolded.path]
      refine Agree.bind (unfolded.child? folder named) ?_
      rintro _ _ (below | _)
      · simp only [below.sees]
        refine Agree.bind (Agree.refl _) ?_
        rintro visible _ rfl
        cases visible
        · rfl
        · exact ih below valid
      · rfl

end Unfolded

section Moving

variable (within : m.worlds.Within scope)

include within

theorem Move.decided {deed : Deed} (move : Move m scope deed s t) (reads : deed.Reads)
    (wf : s.WellFormed scope m.parameters) (decided : s.Decided m) : t.Decided m := by
  cases move with
  | @expanded _ folder _ _ opens =>
    intro k holds
    rcases opens.holds_cases wf within holds with rfl | member | ⟨old, _⟩
    · have own : folder.Decided m := decided folder opens.holds
      exact own
    · obtain ⟨spec, _, rfl⟩ := List.mem_map.mp member
      exact Materializer.decided_generatedChild ..
    · exact decided k old
  | @changed _ n k change holds suits new =>
    have proper := (suits.fits within).proper new (wf.regular.sound.proper holds).1
    intro other stands
    rw [Store.Holds, Store.record?_replaced proper] at stands
    split at stands
    · cases stands
      cases change with
      | checksum text computedFor =>
        simp only [Store.Change.apply] at new
        split at new
        · cases new
        · cases new
          exact decided n holds
      | decision name present =>
        obtain ⟨below, probability, configured, _⟩ := suits
        have known := decided n holds
        rw [Node.Decided, Node.isRoot_eq_false below] at known
        have listed : name ∈ n.existence := by
          rw [known]
          exact (WorldTable.mem_map_iff _ _ _).mpr
            ((mem_iff_getElem?_some _ _).mpr ⟨probability, configured⟩)
        simp only [Store.Change.apply, Std.ExtTreeMap.contains_iff_mem.mpr listed, if_true] at new
        cases new
      | markGenerated => exact reads.elim
      | content upload time => exact reads.elim
      | redecision name present => exact reads.elim
    · exact decided other stands
  | made => exact reads.elim
  | removed => exact reads.elim

theorem Moves.decided {may : Deed → Prop} (moves : Moves m scope may s t)
    (reads : ∀ deed, may deed → deed.Reads) (wf : s.WellFormed scope m.parameters)
    (decided : s.Decided m) : t.Decided m := by
  induction moves with
  | none s => exact decided
  | more permitted move rest ih =>
    exact ih (move.wellFormed within wf) (move.decided within (reads _ permitted) wf decided)

end Moving

theorem Blueprint.accept_eq (c : Config) (input : String) (world : World) :
    Blueprint.accept c input world = Engine.accept ⟨c, c.materializer⟩ input world := rfl

structure Store.Unfolds (c : Config) (scope : Scope) (s : Store) : Prop where
  wellFormed : s.WellFormed scope c.parameters
  decided : s.Decided c.materializer
  root : ∃ top, s.Holds top ∧ top.path = Path.root ∧ Unfolded c s (Blueprint.root c) top

namespace Store.Unfolds

variable {c : Config} {path : String} {k n shown : Node} {children : List Node}

theorem moves (unfolds : s.Unfolds c scope) (within : c.materializer.worlds.Within scope)
    (moves : Moves c.materializer scope Deed.Reads s t) : t.Unfolds c scope := by
  have reads : ∀ deed : Deed, deed.Reads → deed.Reads := fun _ read => read
  refine ⟨moves.wellFormed within unfolds.wellFormed,
    moves.decided within reads unfolds.wellFormed unfolds.decided, ?_⟩
  obtain ⟨top, holds, here, origin, blank, fresh, decided, same, alike⟩ := unfolds.root
  obtain ⟨k, found, keeps, alike'⟩ := moves.read within reads unfolds.wellFormed holds
  refine ⟨k, ?_, keeps.place.path.trans here, origin, blank, fresh, decided,
    same, alike.trans alike'⟩
  rw [Store.Holds, keeps.place.path, found]

theorem insertRoot {time : Moment} (blank : s.Blank) (valid : time.isValid = true) :
    (s.insertNode (Node.root (nodeIdOf c.parameters.seed Path.root) time)).Unfolds c scope := by
  have proper : (Node.root (nodeIdOf c.parameters.seed Path.root) time).Proper scope c.parameters :=
    Node.proper_root valid
  have absent := blank.record? Path.root
  have decided : (Node.root (nodeIdOf c.parameters.seed Path.root) time).Decided c.materializer :=
    rfl
  refine ⟨blank.insertRoot proper rfl ⟨rfl, rfl⟩, ?_, ?_⟩
  · intro n holds
    rcases (Store.holds_insertNode proper absent).mp holds with rfl | old
    · exact decided
    · rw [Store.Holds, blank.record?] at old
      cases old
  · exact ⟨_, (Store.holds_insertNode proper absent).mpr (Or.inl rfl), rfl, _, _, rfl, decided, rfl,
      .refl _ _⟩

theorem resolved (unfolds : s.Unfolds c scope) (world : World) (normal : Path.IsNormal path) :
    Agree (Unfolded c s) (Blueprint.walk c world (Path.components path) (Blueprint.root c))
      (c.materializer.resolved s world path) := by
  obtain ⟨top, holds, here, unfolded⟩ := unfolds.root
  rw [Store.Holds, here] at holds
  rw [Materializer.resolved, holds]
  exact unfolded.walk world (Path.components path) normal.components.1

theorem lasting_of_seen (unfolds : s.Unfolds c scope)
    (within : c.materializer.worlds.Within scope) (unfolded : Unfolded c s k shown)
    (seen : Seen c.materializer scope s t shown n) :
    n.lasting = k ∧ n.Decided c.materializer := by
  obtain ⟨u, moves, holds, _, alike⟩ := seen
  have decided := (unfolds.moves within (moves.mono fun _ walks => walks.reads)).decided n holds
  rw [decided.lasting, alike.like.planned, unfolded.planned]
  exact ⟨rfl, decided⟩

section Answers

variable {input : String} (unfolds : s.Unfolds c scope)
  (within : c.materializer.worlds.Within scope)

include unfolds

theorem found (input : String) (world : World) :
    Agree (Unfolded c s) (Blueprint.getNode c input world)
    ((Engine.accept ⟨c, c.materializer⟩ input world).bind fun path =>
      c.materializer.resolved s world path) := by
  rw [Blueprint.getNode, Blueprint.accept_eq]
  cases accepted : Engine.accept ⟨c, c.materializer⟩ input world with
  | error failure => rfl
  | ok path =>
    have normal := Path.normalize_isNormal (Engine.accept_ok_iff.mp accepted).2
    exact unfolds.resolved world normal

include within

theorem getNode {result : Except Failure Node} (walked : Walked c.materializer scope s
    ((Engine.accept ⟨c, c.materializer⟩ input world).bind fun path =>
      c.materializer.resolved s world path) result t) :
    result.map Node.lasting = Blueprint.getNode c input world := by
  refine Agree.map_eq (Agree.trans ?_ (unfolds.found input world) walked.answer)
  exact fun k shown n unfolded seen => (unfolds.lasting_of_seen within unfolded seen).1

theorem contents (unfolded : Unfolded c s k shown) (folder : shown.isFolder = true)
    (contents : Contents c.materializer scope s shown children t) :
    Blueprint.children c k = .ok (children.map Node.lasting) ∧
      ∀ n ∈ children, n.Decided c.materializer := by
  have known : ∀ name, Path.IsName name →
      Agree (Option.Rel fun k n => n.lasting = k ∧ n.Decided c.materializer)
        (Blueprint.child? c k name) (.ok (children.find? (·.name = name))) := by
    intro name named
    refine Agree.trans ?_ (unfolded.child? folder named) (contents.shown name named)
    rintro _ _ _ (below | _) (seen | _)
    · exact .some (unfolds.lasting_of_seen within below seen)
    · exact .none
  cases drawn : Children.generate? Draw.patience c.parameters k.path k.depth with
  | none =>
    have clash := known "a" (by decide +kernel)
    rw [Blueprint.child?_unending drawn] at clash
    exact clash.elim
  | some specs =>
    obtain ⟨nodes, held, perm, sorted⟩ := Blueprint.children_drawn drawn
    simp only [Blueprint.child?, held, Except.map] at known
    refine ⟨?_, fun n member => ?_⟩
    · rw [held]
      have sorted' : Blueprint.Sorted (children.map Node.lasting) :=
        List.pairwise_map.mpr contents.sorted
      refine congrArg Except.ok (sorted.ext sorted' fun n member => ?_)
      have named : Path.IsName n.name := by
        rcases List.mem_append.mp member with planned | listed
        · obtain ⟨spec, listed, rfl⟩ := List.mem_map.mp (perm.mem_iff.mp planned)
          exact Children.generate?_isName drawn listed
        · obtain ⟨child, inside, rfl⟩ := List.mem_map.mp listed
          exact contents.named child inside
      have renamed : (children.map Node.lasting).find? (·.name = n.name)
          = (children.find? (·.name = n.name)).map Node.lasting := List.find?_map
      have answers := known n.name named
      rw [renamed]
      generalize nodes.find? (·.name = n.name) = planned, children.find? (·.name = n.name) = listed
        at answers
      cases answers with
      | some same => exact congrArg some same.1.symm
      | none => rfl
    · have own := known n.name (contents.named n member)
      rw [find?_of_distinct (Blueprint.Sorted.distinct contents.sorted) member] at own
      obtain ⟨_, _, @⟨_, _, same⟩⟩ := own.of_ok
      exact same.2

theorem listChildren {input path : String} {result : Except Failure (List Node)}
    (accepted : Engine.accept ⟨c, c.materializer⟩ input world = .ok path)
    (listed : Listed c.materializer scope s world path t result) :
    result.map (List.map Node.lasting) = Blueprint.listChildren c input world := by
  have found := unfolds.found input world
  rw [accepted] at found
  change Agree _ _ (c.materializer.resolved s world path) at found
  unfold Blueprint.listChildren
  cases listed with
  | hidden resolved =>
    rw [resolved] at found
    rw [found.eq_error]
    rfl
  | file resolved isFile =>
    rw [resolved] at found
    obtain ⟨k, held, unfolded⟩ := found.of_ok
    rw [held, Except.bind]
    simp only [unfolded.isFolder, isFile, unfolded.path]
    rfl
  | @unending _ failure resolved isFolder unending =>
    rw [resolved] at found
    obtain ⟨k, held, unfolded⟩ := found.of_ok
    have named : Path.IsName "a" := by decide +kernel
    have fails := unfolded.child? isFolder named
    rw [unending "a" named, Blueprint.child?] at fails
    have known : Blueprint.children c k = .error failure := by
      cases drawn : Blueprint.children c k with
      | error other =>
        rw [drawn] at fails
        exact congrArg Except.error fails
      | ok nodes =>
        rw [drawn] at fails
        exact fails.elim
    rw [held, Except.bind]
    simp only [unfolded.isFolder, isFolder, known]
    rfl
  | folder resolved isFolder contents =>
    rw [resolved] at found
    obtain ⟨k, held, unfolded⟩ := found.of_ok
    obtain ⟨same, decided⟩ := unfolds.contents within unfolded isFolder contents
    rw [held, Except.bind]
    simp only [unfolded.isFolder, isFolder, same]
    exact Materializer.visibles_planned decided world

end Answers

end Store.Unfolds

namespace Session

variable {config : Config} {a b : Session} {site : Site}

def Reads : Option Operation → Prop
  | some operation => operation.Reads
  | none => False

theorem unfolds_opened (checked : config.check = .ok ()) (empty : site.store = Store.empty)
    (timely : site.Timely) :
    (opened ⟨config, config.materializer⟩ [] config site).store.Unfolds config scope := by
  have blank : site.store.Blank := by
    rw [empty]
    exact .refl _
  have regular : site.store.Regular scope config.parameters := Store.Blank.regular blank
  have known := Started.of_runOn timely fun _ => regular
  rw [started_of_check checked empty timely] at known
  unfold opened
  generalize ((Engine.start config).runOn site).2.store = t at known
  have same := site.store.sameNodes_claimed config
  cases known with
  | kept _ there => exact absurd (blank.record? _) there
  | fresh _ _ valid =>
    have blank' : Store.Blank _ := ⟨same.nodes.trans blank.nodes,
      same.children.trans blank.children, same.ids.trans blank.ids⟩
    exact .insertRoot blank' valid

theorem materializer_of (engine : a.engine = ⟨config, config.materializer⟩) :
    a.engine.materializer = config.materializer := by rw [engine]

theorem Turns.unfolds (turns : Turns scope Reads a b) (valid : a.Valid scope)
    (engine : a.engine = ⟨config, config.materializer⟩) (unfolds : a.store.Unfolds config scope) :
    b.engine = ⟨config, config.materializer⟩ ∧ b.store.Unfolds config scope := by
  induction turns with
  | none a => exact ⟨engine, unfolds⟩
  | more rest reads turn ih =>
    obtain ⟨engine, unfolds⟩ := ih valid engine unfolds
    have valid := rest.valid valid
    cases turn with
    | operates operation fits here timely =>
      have moves := (valid.moves fits here timely).mono fun _ may =>
        Operation.reads_of_may reads may
      have within := valid.ready.within
      rw [materializer_of engine] at moves within
      exact ⟨engine, unfolds.moves within moves⟩
    | reopens => exact reads.elim

theorem answers_planned (valid : a.Valid scope) (engine : a.engine = ⟨config, config.materializer⟩)
    (unfolds : a.store.Unfolds config scope) (same : site.store = a.store) (timely : site.Timely)
    (input : String) (world : World) :
    ((a.engine.getNode input world).runOn site).1.map Node.lasting
        = Blueprint.getNode config input world ∧
      ((a.engine.listChildren input world).runOn site).1.map (List.map Node.lasting)
        = Blueprint.listChildren config input world := by
  have wf := valid.wellFormed
  have ready := valid.ready
  have within := ready.within
  rw [← same] at wf unfolds
  rw [materializer_of engine] at within
  have found : (a.engine.getNode input world).Ends (Setting.alone scope _) [] site.store _ :=
    ends_getNode wf ready
  have listed : (a.engine.listChildren input world).Ends (Setting.alone scope _) [] site.store _ :=
    ends_listChildren wf ready
  have found := found.runOn timely
  have listed := listed.runOn timely
  rw [engine] at found listed ⊢
  refine ⟨unfolds.getNode within found, ?_⟩
  rcases listed.2 with ⟨failure, refused, fails⟩ | ⟨path, accepted, listed⟩
  · rw [fails, Blueprint.listChildren, Blueprint.getNode, Blueprint.accept_eq, refused]
    rfl
  · exact unfolds.listChildren within accepted listed

/-- A good configuration starts on an empty store, and however much is then read, a node and a
listing are what the blueprint says. -/
theorem reads_follow_blueprint (checked : config.check = .ok ()) (within : config.Within scope)
    (empty : site.store = Store.empty) (timely : site.Timely) :
    ∃ engine, ((Engine.start config).runOn site).1 = .ok engine ∧
      ∀ a, Turns scope Reads (opened engine [] config site) a →
      ∀ input world here, here.store = a.store → here.Timely →
        ((a.engine.getNode input world).runOn here).1.map Node.lasting
            = Blueprint.getNode config input world ∧
          ((a.engine.listChildren input world).runOn here).1.map (List.map Node.lasting)
            = Blueprint.listChildren config input world := by
  refine ⟨_, started_of_check checked empty timely, fun a turns input world here same ready => ?_⟩
  have begun := (begins_opened checked empty timely within).valid
  obtain ⟨engine, unfolds⟩ := turns.unfolds begun rfl (unfolds_opened checked empty timely)
  exact answers_planned (turns.valid begun) engine unfolds same ready input world

def listed : Session := newTree.after (.listChildren "/" .primary) (.still newTree.store)

theorem listed_turns : Turns .bare Reads newTree listed := by
  have turn : Turn .bare (some (.listChildren "/" .primary)) newTree listed :=
    .operates _ (fun _ makes => makes.elim) (Site.still_store _) (Site.still_timely _)
  have reads : Reads (some (.listChildren "/" .primary)) := trivial
  exact .more (.none _) reads turn

theorem listed_follows : ((listed.engine.getNode "/kelp_nectar" .primary).runOn
      (.still listed.store)).1.isOk = true ∧
    ((listed.engine.getNode "/kelp_nectar" .primary).runOn (.still listed.store)).1.map Node.lasting
      = Blueprint.getNode {} "/kelp_nectar" .primary := by
  have within : ({} : Config).Within .bare :=
    fun _ member => absurd member Std.ExtTreeMap.not_mem_empty
  have checked : ({} : Config).check = .ok () := rfl
  have timely := Site.still_timely .empty
  obtain ⟨engine, started, follows⟩ :=
    reads_follow_blueprint checked within (Site.still_store _) timely
  rw [started_of_check checked (Site.still_store _) timely] at started
  cases started
  refine ⟨by decide +kernel, ?_⟩
  exact (follows listed listed_turns _ _ _ (Site.still_store _) (Site.still_timely _)).1

end Session

end SeedTree
