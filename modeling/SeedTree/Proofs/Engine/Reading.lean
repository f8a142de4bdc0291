import SeedTree.Proofs.Engine.View

/- The moves that only read: folders are expanded, decisions and checksums are kept. They change
   nothing that a store shows. -/
namespace SeedTree

def Deed.Reads : Deed → Prop
  | .expanded _ => True
  | .changed _ (.decision _ _) => True
  | .changed _ (.checksum _ _) => True
  | _ => False

/-- What a walk does: it reads, but it computes no checksum. -/
def Deed.Walks : Deed → Prop
  | .expanded _ => True
  | .changed _ (.decision _ _) => True
  | _ => False

def Deed.Sums (files : String → Prop) : Deed → Prop
  | .changed path (.checksum _ _) => files path
  | deed => deed.Walks

namespace Deed

theorem walks_expanded (folder : String) : (expanded folder).Walks := trivial

theorem walks_decision (path world : String) (present : Bool) :
    (changed path (.decision world present)).Walks := trivial

theorem Walks.reads {deed : Deed} (walks : deed.Walks) : deed.Reads := by
  cases deed with
  | changed path change => cases change <;> first | exact walks | exact walks.elim
  | _ => exact walks

theorem Walks.sums {deed : Deed} {files : String → Prop} (walks : deed.Walks) :
    deed.Sums files := by
  cases deed with
  | changed path change => cases change <;> first | exact walks | exact walks.elim
  | _ => exact walks

theorem sums_checksum {files : String → Prop} {path : String} (member : files path) (text : String)
    (computedFor : Option Digest) : (changed path (.checksum text computedFor)).Sums files := member

theorem Sums.mono {deed : Deed} {some more : String → Prop} (wider : ∀ path, some path → more path)
    (sums : deed.Sums some) : deed.Sums more := by
  cases deed with
  | changed path change => cases change <;> first | exact sums | exact wider _ sums
  | _ => exact sums

theorem Sums.reads {deed : Deed} {files : String → Prop} (sums : deed.Sums files) : deed.Reads := by
  cases deed with
  | changed path change => cases change <;> first | exact sums | exact sums.elim | trivial
  | _ => exact sums

end Deed

variable {m : Materializer} {scope : Scope} {s t : Store} {n k folder : Node} {time : Moment}
  {specs : List ChildSpec}

/-- Pairs of alike nodes from which every name leads to such a pair again. -/
structure Materializer.Simulates (m : Materializer) (s t : Store) (pair : Node → Node → Prop) :
    Prop where
  like : ∀ n k, pair n k → n.Like m k
  lookup : ∀ n k, pair n k → n.isFolder = true → ∀ name, Path.IsName name →
    Agree (Option.Rel pair) (m.lookup s n name) (m.lookup t k name)

theorem Materializer.Simulates.alike {pair : Node → Node → Prop} (simulates : m.Simulates s t pair)
    (start : pair n k) : m.Alike s t n k := by
  intro names valid
  induction names generalizing n k with
  | nil => exact .some (simulates.like n k start)
  | cons name more ih =>
    obtain ⟨named, valid⟩ := List.forall_mem_cons.mp valid
    have same := (simulates.like n k start).isFolder
    cases isFolder : n.isFolder with
    | false =>
      rw [Materializer.view_cons_file m s isFolder,
        Materializer.view_cons_file m t (same.trans isFolder)]
      exact .none
    | true =>
      rw [Materializer.view_cons m s isFolder, Materializer.view_cons m t (same.trans isFolder)]
      refine Agree.bind (simulates.lookup n k start isFolder name named) ?_
      rintro _ _ (below | _)
      · exact ih below valid
      · exact .none

theorem Materializer.lookup_fresh (m : Materializer) (s : Store) (fresh : n.generated = false)
    (name : String) : m.lookup s n name = m.promised n name := by
  simp [Materializer.lookup, fresh]

theorem Materializer.lookup_generated (m : Materializer) (s : Store) (ready : n.generated = true)
    (name : String) : m.lookup s n name = .ok (s.record? (Path.join n.path name)) := by
  simp [Materializer.lookup, ready]

theorem Materializer.lookup_error {name : String} {failure : Failure}
    (failed : m.lookup s n name = .error failure) : failure = .unending n.path := by
  unfold Materializer.lookup Materializer.promised at failed
  split at failed
  · cases failed
  · split at failed
    · exact (Except.error.inj failed).symm
    · cases failed

theorem Materializer.promised_congr (m : Materializer) (path : k.path = n.path)
    (depth : k.depth = n.depth) (name : String) : m.promised k name = m.promised n name := by
  rw [Materializer.promised, Materializer.promised, Materializer.specs?_congr path depth, path,
    Materializer.generatedChild_congr path depth]

theorem Materializer.promised_of_drawn (drawn : m.specs? n = some specs) (name : String) :
    m.promised n name
      = .ok ((specs.find? (·.name = name)).map (m.generatedChild n Moment.epoch)) := by
  rw [Materializer.promised, drawn]

theorem Materializer.promised_some {name : String} {child : Node}
    (promised : m.promised n name = .ok (some child)) : ∃ specs, m.specs? n = some specs ∧
      ∃ spec ∈ specs, spec.name = name ∧ child = m.generatedChild n Moment.epoch spec := by
  unfold Materializer.promised at promised
  split at promised
  · cases promised
  · rename_i specs drawn
    obtain ⟨spec, found, rfl⟩ := Option.map_eq_some_iff.mp (Except.ok.inj promised)
    have same : spec.name = name := by simpa using List.find?_some found
    exact ⟨specs, drawn, spec, List.mem_of_find?_eq_some found, same, rfl⟩

theorem replaced_alike (proper : k.Proper scope m.parameters) (present : s.Holds n)
    (like : n.Like m k) (same : k.generated = n.generated) {a b : Node}
    (pair : b = a ∨ (a = n ∧ b = k)) : m.Alike s (s.replaced k) a b := by
  have simulates : m.Simulates s (s.replaced k) fun a b => b = a ∨ (a = n ∧ b = k) := by
    constructor
    · rintro a b (rfl | ⟨rfl, rfl⟩)
      · exact .refl _
      · exact like
    · intro a b here isFolder name named
      have path : b.path = a.path := by
        rcases here with rfl | ⟨rfl, rfl⟩
        · rfl
        · exact like.place.path
      have depth : b.depth = a.depth := by
        rcases here with rfl | ⟨rfl, rfl⟩
        · rfl
        · exact like.depth
      have ready : b.generated = a.generated := by
        rcases here with rfl | ⟨rfl, rfl⟩
        · rfl
        · exact same
      cases done : a.generated with
      | false =>
        rw [m.lookup_fresh s done, m.lookup_fresh _ (ready.trans done), m.promised_congr path depth]
        exact Agree.self fun _ _ => Or.inl rfl
      | true =>
        rw [m.lookup_generated s done, m.lookup_generated _ (ready.trans done), path,
          Store.record?_replaced proper]
        split
        · rename_i there
          rw [there, like.place.path, present]
          exact .some (Or.inr ⟨rfl, rfl⟩)
        · exact Agree.self (x := .ok _) fun _ _ => Or.inl rfl
  exact simulates.alike pair

/-- A node as a store shows it: if it is not expanded, nothing stands below its path. -/
structure Store.Settled (s : Store) (n : Node) : Prop where
  normal : Path.IsNormal n.path
  shut : n.generated = false → ¬ s.HoldsOpen n.path

theorem Store.WellFormed.settled (wf : s.WellFormed scope m.parameters) (holds : s.Holds n) :
    s.Settled n :=
  ⟨(wf.shaped holds).normal, Store.not_holdsOpen_of_fresh holds⟩

theorem Store.WellFormed.settled_generated (wf : s.WellFormed scope m.parameters)
    (settled : s.Settled n) (fresh : n.generated = false) (drawn : m.specs? n = some specs)
    {spec : ChildSpec} (member : spec ∈ specs) (time : Moment) :
    s.Settled (m.generatedChild n time spec) ∧ s.record? (Path.join n.path spec.name) = none := by
  have named := Children.generate?_isName drawn member
  have absent := wf.absent_below settled.normal named (settled.shut fresh)
  exact ⟨⟨Path.isNormal_join settled.normal named, fun _ => Store.not_holdsOpen_of_absent absent⟩,
    absent⟩

theorem Store.WellFormed.settled_promised (wf : s.WellFormed scope m.parameters)
    (settled : s.Settled n) (fresh : n.generated = false) {name : String}
    (promised : m.promised n name = .ok (some k)) : s.Settled k ∧ s.record? k.path = none := by
  obtain ⟨specs, drawn, spec, member, rfl, rfl⟩ := Materializer.promised_some promised
  exact wf.settled_generated settled fresh drawn member Moment.epoch

/-- The nodes that a store shows before a folder is expanded and after. The children of the folder
differ in their time of writing. -/
inductive Materializer.Opened (m : Materializer) (s : Store) (folder : Node) (time : Moment)
    (specs : List ChildSpec) : Node → Node → Prop where
  | elsewhere {n : Node} (settled : s.Settled n) (apart : n.path ≠ folder.path) :
      Opened m s folder time specs n n
  | folder : Opened m s folder time specs folder folder.expanded
  | child {spec : ChildSpec} (member : spec ∈ specs) : Opened m s folder time specs
      (m.generatedChild folder Moment.epoch spec) (m.generatedChild folder time spec)

theorem Materializer.Opened.like (opened : m.Opened s folder time specs n k) : n.Like m k := by
  cases opened with
  | elsewhere => exact .refl _
  | folder => exact ⟨⟨rfl, rfl, rfl, rfl⟩, rfl, rfl, rfl, rfl, fun _ => rfl⟩
  | child => exact ⟨⟨rfl, rfl, rfl, rfl⟩, rfl, rfl, rfl, rfl, fun _ => rfl⟩

section Opening

variable {name : String} (wf : s.WellFormed scope m.parameters) (within : m.worlds.Within scope)
  (opens : m.Opens s folder time specs)

include wf opens

/-- What is promised elsewhere has no record, so it is not the folder. -/
theorem Materializer.Opens.promised (settled : s.Settled n) (fresh : n.generated = false) :
    Agree (Option.Rel (m.Opened s folder time specs)) (m.promised n name) (m.promised n name) := by
  refine Agree.self fun child promised => ?_
  obtain ⟨next, absent⟩ := wf.settled_promised settled fresh promised
  refine .elsewhere next fun same => ?_
  rw [same, opens.holds] at absent
  cases absent

include within

theorem Materializer.Opens.lookup_elsewhere (settled : s.Settled n) (apart : n.path ≠ folder.path)
    (named : Path.IsName name) : Agree (Option.Rel (m.Opened s folder time specs))
      (m.lookup s n name) (m.lookup (s.opened m folder time specs) n name) := by
  cases done : n.generated with
  | false =>
    rw [m.lookup_fresh s done, m.lookup_fresh _ done]
    exact opens.promised wf settled done
  | true =>
    rw [m.lookup_generated s done, m.lookup_generated _ done]
    by_cases there : Path.join n.path name = folder.path
    · rw [there, opens.holds, opens.record? wf within, if_pos rfl]
      exact .some .folder
    · have above : Path.parent? (Path.join n.path name) ≠ some folder.path := by
        rw [Path.parent?_join settled.normal named]
        exact fun same => apart (Option.some.inj same)
      rw [opens.record?_elsewhere wf within there above]
      refine Agree.self fun child found => ?_
      obtain ⟨holds, path⟩ := wf.holds (Except.ok.inj found)
      exact .elsewhere (wf.settled holds) (by rw [path]; exact there)

theorem Materializer.Opens.lookup_folder (named : Path.IsName name) :
    Agree (Option.Rel (m.Opened s folder time specs)) (m.lookup s folder name)
      (m.lookup (s.opened m folder time specs) folder.expanded name) := by
  rw [m.lookup_fresh s opens.fresh, m.lookup_generated _ rfl,
    Materializer.promised_of_drawn opens.drawn]
  change Option.Rel _ _ ((s.opened m folder time specs).record? (Path.join folder.path name))
  rw [opens.record?_below wf within named]
  cases found : specs.find? (·.name = name) with
  | none => exact .none
  | some spec => exact .some (.child (List.mem_of_find?_eq_some found))

omit within in
theorem Materializer.Opens.lookup_child {spec : ChildSpec} (member : spec ∈ specs) :
    Agree (Option.Rel (m.Opened s folder time specs))
      (m.lookup s (m.generatedChild folder Moment.epoch spec) name)
      (m.lookup (s.opened m folder time specs) (m.generatedChild folder time spec) name) := by
  rw [m.lookup_fresh s rfl, m.lookup_fresh _ rfl, m.promised_congr
    (k := m.generatedChild folder time spec) (n := m.generatedChild folder Moment.epoch spec)
    rfl rfl]
  have settled := (wf.settled_generated (wf.settled opens.holds) opens.fresh opens.drawn member
    Moment.epoch).1
  exact opens.promised wf settled rfl

theorem Materializer.Opens.alike (holds : s.Holds n)
    (pair : (k = n ∧ n.path ≠ folder.path) ∨ (n = folder ∧ k = folder.expanded)) :
    m.Alike s (s.opened m folder time specs) n k := by
  have simulates :
      m.Simulates s (s.opened m folder time specs) (m.Opened s folder time specs) := by
    refine ⟨fun _ _ opened => opened.like, fun _ _ opened _ name named => ?_⟩
    cases opened with
    | elsewhere settled apart => exact opens.lookup_elsewhere wf within settled apart named
    | folder => exact opens.lookup_folder wf within named
    | child member => exact opens.lookup_child wf member
  refine simulates.alike ?_
  rcases pair with ⟨rfl, apart⟩ | ⟨rfl, rfl⟩
  · exact .elsewhere (wf.settled holds) apart
  · exact .folder

end Opening

theorem Materializer.sees_backfilled (below : n.parent ≠ none) (parent : k.parent = n.parent)
    (id : k.id = n.id) {world : String} {present : Bool} (missing : n.existence[world]? = none)
    (kept : k.existence = n.existence.insert world present)
    (drawn : m.draws n.id world = .ok present) (other : World) :
    m.sees k other = m.sees n other := by
  have below' : k.parent ≠ none := by rw [parent]; exact below
  cases other with
  | primary => rfl
  | named name =>
    have decisions := getElem?_insert_ite n.existence world name present
    rw [← kept] at decisions
    by_cases here : world = name
    · subst here
      rw [if_pos rfl] at decisions
      rw [m.sees_open below missing, drawn, m.sees_decided below' decisions]
    · rw [if_neg here] at decisions
      cases found : n.existence[name]? with
      | none => rw [m.sees_open below found, m.sees_open below' (decisions.trans found), id]
      | some decided =>
        rw [m.sees_decided below found, m.sees_decided below' (decisions.trans found)]

theorem Store.Change.like {change : Store.Change} {path : String} (suits : change.Suits m scope n)
    (new : change.apply n = some k) (reads : (Deed.changed path change).Reads) :
    n.Like m k ∧ k.generated = n.generated := by
  cases change with
  | checksum text computedFor =>
    simp only [Store.Change.apply] at new
    split at new
    · cases new
    · cases new
      exact ⟨⟨⟨rfl, rfl, rfl, rfl⟩, rfl, rfl, rfl, rfl, fun _ => rfl⟩, rfl⟩
  | decision world present =>
    obtain ⟨below, probability, configured, drawn⟩ := suits
    obtain ⟨missing, rfl⟩ := Store.Change.decision_cases new
    have draws := m.draws_configured n.id configured
    rw [← drawn] at draws
    exact ⟨⟨⟨rfl, rfl, rfl, rfl⟩, rfl, rfl, rfl, rfl,
      Materializer.sees_backfilled below rfl rfl missing rfl draws⟩, rfl⟩
  | markGenerated => exact reads.elim
  | content upload time => exact reads.elim
  | redecision world present => exact reads.elim

section Moving

variable (within : m.worlds.Within scope)

include within

/-- A record survives a move that only reads, and all it shows stays as it was. -/
theorem Move.read {deed : Deed} (move : Move m scope deed s t) (reads : deed.Reads)
    (wf : s.WellFormed scope m.parameters) (holds : s.Holds n) :
    ∃ k, t.record? n.path = some k ∧ Store.Change.Keeps n k ∧ m.Alike s t n k := by
  cases move with
  | @expanded _ folder _ _ opens =>
    by_cases here : n.path = folder.path
    · have same : n = folder := Store.Holds.unique holds (by rw [here]; exact opens.holds)
      refine ⟨folder.expanded, ?_, ?_, opens.alike wf within holds (Or.inr ⟨same, rfl⟩)⟩
      · rw [opens.record? wf within, if_pos here]
      · rw [same]
        exact ⟨⟨rfl, rfl, rfl, rfl⟩, rfl, rfl, rfl, fun _ => rfl⟩
    · exact ⟨n, opens.stays wf within holds here, .refl n,
        opens.alike wf within holds (Or.inl ⟨rfl, here⟩)⟩
  | @changed _ old new change present suits applied =>
    have proper := (suits.fits within).proper applied (wf.regular.sound.proper present).1
    obtain ⟨like, same⟩ := Store.Change.like suits applied reads
    have keeps := Store.Change.keeps applied
    have alike : ∀ b, (b = n ∨ n = old ∧ b = new) → m.Alike s (s.replaced new) n b :=
      fun b pair => replaced_alike proper present like same pair
    rw [Store.record?_replaced proper, keeps.place.path]
    by_cases here : n.path = old.path
    · have equal : n = old := Store.Holds.unique holds (by rw [here]; exact present)
      rw [if_pos here]
      refine ⟨new, rfl, ?_, alike new (Or.inr ⟨equal, rfl⟩)⟩
      rw [equal]
      exact keeps
    · rw [if_neg here]
      exact ⟨n, holds, .refl n, alike n (Or.inl rfl)⟩
  | made => exact reads.elim
  | removed => exact reads.elim

theorem Moves.read {may : Deed → Prop} (moves : Moves m scope may s t)
    (reads : ∀ deed, may deed → deed.Reads) (wf : s.WellFormed scope m.parameters)
    (holds : s.Holds n) :
    ∃ k, t.record? n.path = some k ∧ Store.Change.Keeps n k ∧ m.Alike s t n k := by
  induction moves generalizing n with
  | none s => exact ⟨n, holds, .refl n, .refl s n⟩
  | more permitted move rest ih =>
    obtain ⟨k, found, keeps, alike⟩ := move.read within (reads _ permitted) wf holds
    have next := move.wellFormed within wf
    have stands := (next.holds found).1
    obtain ⟨l, found', keeps', alike'⟩ := ih next stands
    rw [keeps.place.path] at found'
    exact ⟨l, found', keeps.trans keeps', alike.trans alike'⟩

end Moving

end SeedTree
