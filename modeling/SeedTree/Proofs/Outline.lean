import SeedTree.Proofs.Transparency
import SeedTree.Proofs.Engine.Growth
import SeedTree.Proofs.Unfolding

/- Outlines: the pictures of two stores up to what nodes remember of their reading and what worlds
   have decided about them. Neither reading nor another table of worlds changes an outline, so all
   trees of one shape that have only been read have the same. Where two outlines are the same, what
   worlds answer is compared node by node. -/
namespace SeedTree

/-- What a node is apart from its reading and from the decisions of worlds. -/
def Node.essence (n : Node) : Node := { n.lasting with existence := ∅ }

/-- The same in essence, and both with their children in the store or both without. -/
structure Node.Matches (n k : Node) : Prop where
  essence : k.essence = n.essence
  generated : k.generated = n.generated

/-- Two pictures show the same nodes, whatever worlds say of them. -/
def Picture.Outlines (v v' : Picture) : Prop := ∀ path, Path.IsNormal path →
  Agree (Option.Rel fun n k => k.essence = n.essence) (v path) (v' path)

/-- A world has decided about a node as it would now, or not at all. -/
def Materializer.Fair (m : Materializer) (world : String) (n : Node) : Prop :=
  n.parent ≠ none → m.sees n (.named world) = m.draws n.id world

theorem Agree.isOk {α β : Type} {related : α → β → Prop}
    {x : Except Failure α} {y : Except Failure β}
    (agree : Agree related x y) : x.isOk = y.isOk := by
  cases x <;> cases y <;> first | rfl | exact agree.elim

variable {m m' : Materializer} {scope : Scope} {s t : Store} {n k : Node} {v v' v'' : Picture}
  {world : String} {path : String}

namespace Node

theorem Like.essence (like : n.Like m k) : k.essence = n.essence := by
  unfold Node.essence Node.lasting
  simp only [like.place.id, like.place.path, like.place.name,
    like.place.parent, like.depth, like.kind,
    like.size, like.upload]

theorem Matches.refl (n : Node) : n.Matches n := ⟨rfl, rfl⟩

section Fields

variable (same : k.essence = n.essence)

include same

theorem isFolder_of_essence : k.isFolder = n.isFolder := (congrArg Node.isFolder same :)

theorem path_of_essence : k.path = n.path := (congrArg Node.path same :)

theorem depth_of_essence : k.depth = n.depth := (congrArg Node.depth same :)

theorem id_of_essence : k.id = n.id := (congrArg Node.id same :)

theorem parent_of_essence : k.parent = n.parent := (congrArg Node.parent same :)

end Fields

end Node

namespace Materializer

theorem generatedChild_matches (shape : m'.parameters = m.parameters) (same : k.essence = n.essence)
    (time time' : Moment) (spec : ChildSpec) :
    (m.generatedChild n time spec).Matches (m'.generatedChild k time' spec) := by
  have path := Node.path_of_essence same
  have depth := Node.depth_of_essence same
  unfold generatedChild Node.child nodeId
  refine ⟨?_, by rfl⟩
  simp only [Node.essence, Node.lasting, path, depth, shape]

theorem promised_matches (shape : m'.parameters = m.parameters) (same : k.essence = n.essence)
    (name : String) :
    Agree (Option.Rel Node.Matches) (m.promised n name) (m'.promised k name) := by
  have path := Node.path_of_essence same
  have depth := Node.depth_of_essence same
  have drawn : m'.specs? k = m.specs? n := by rw [specs?, specs?, shape, path, depth]
  rw [promised, promised, drawn, path]
  cases m.specs? n with
  | none => rfl
  | some specs =>
    cases found : specs.find? (·.name = name) with
    | none => simp only [found]; exact .none
    | some spec => simp only [found]; exact .some (generatedChild_matches shape same _ _ spec)

theorem view_matches (shape : m'.parameters = m.parameters)
    (records : ∀ path, Option.Rel Node.Matches (s.record? path) (t.record? path))
    (here : n.Matches k)
    (names : List String) : Agree (Option.Rel Node.Matches) (m.view s names n)
    (m'.view t names k) := by
  induction names generalizing n k with
  | nil => exact .some here
  | cons name more ih =>
    have same := Node.isFolder_of_essence here.essence
    cases isFolder : n.isFolder with
    | false =>
      rw [m.view_cons_file s isFolder, m'.view_cons_file t (same.trans isFolder)]
      exact .none
    | true =>
      rw [m.view_cons s isFolder, m'.view_cons t (same.trans isFolder)]
      have next : Agree (Option.Rel Node.Matches) (m.lookup s n name) (m'.lookup t k name) := by
        cases ready : n.generated with
        | false =>
          rw [m.lookup_fresh s ready, m'.lookup_fresh t (here.generated.trans ready)]
          exact promised_matches shape here.essence name
        | true =>
          rw [m.lookup_generated s ready, m'.lookup_generated t (here.generated.trans ready),
            Node.path_of_essence here.essence]
          exact records _
      refine Agree.bind next ?_
      rintro _ _ (below | _)
      · exact ih below
      · exact .none

theorem shows_matches (shape : m'.parameters = m.parameters)
    (records : ∀ path, Option.Rel Node.Matches (s.record? path) (t.record? path)) :
    Picture.Outlines (m.shows s) (m'.shows t) := by
  intro path _
  unfold shows
  have top := records Path.root
  cases found : s.record? Path.root with
  | none =>
    rw [found] at top
    cases found' : t.record? Path.root with
    | none => exact .none
    | some k =>
      rw [found'] at top
      cases top
  | some n =>
    rw [found] at top
    cases found' : t.record? Path.root with
    | none =>
      rw [found'] at top
      cases top
    | some k =>
      rw [found'] at top
      cases top with
      | some here =>
        refine Agree.trans ?_ (view_matches shape records here _) (Agree.refl _)
        rintro _ _ _ (same | _) rfl
        · exact .some same.essence
        · exact .none

end Materializer

namespace Picture.Outlines

theorem trans (first : v.Outlines v') (second : v'.Outlines v'') : v.Outlines v'' := by
  intro path normal
  refine Agree.trans ?_ (first path normal) (second path normal)
  rintro _ _ _ (left | _) (right | _)
  · exact .some (right.trans left)
  · exact .none

theorem symm (outlines : v.Outlines v') : v'.Outlines v := by
  intro path normal
  refine Agree.both (outlines path normal) (Agree.refl (v path)) ?_
  rintro _ _ _ (same | _) rfl
  · exact .some same.symm
  · exact .none

theorem of_depicts (depicts : m.Depicts v s) : v.Outlines (m.shows s) := by
  intro path normal
  refine Agree.trans ?_ (depicts path normal) (Agree.refl _)
  rintro _ _ _ (like | _) rfl
  · exact .some like.essence
  · exact .none

end Picture.Outlines

namespace Materializer

theorem existence_generatedChild (m : Materializer) (world : String) (folder : Node) (time : Moment)
    (spec : ChildSpec) : (m.generatedChild folder time spec).existence[world]?
      = (m.worlds.entries[world]?).map (existsIn (m.generatedChild folder time spec).id world) :=
  NameMap.getElem?_map _ _ world

theorem fair_generatedChild (m : Materializer) (world : String) (folder : Node) (time : Moment)
    (spec : ChildSpec) : m.Fair world (m.generatedChild folder time spec) := by
  intro below
  have decisions := m.existence_generatedChild world folder time spec
  cases configured : m.worlds.entries[world]? with
  | none =>
    rw [configured] at decisions
    exact m.sees_open below decisions
  | some probability =>
    rw [configured] at decisions
    rw [m.sees_decided below decisions, m.draws_configured _ configured]

theorem fair_of_like (like : n.Like m k) (fair : m.Fair world n) : m.Fair world k := by
  intro below
  rw [like.place.parent] at below
  rw [like.sees, like.place.id]
  exact fair below

theorem fair_of_undecided (missing : n.existence[world]? = none) : m.Fair world n :=
  fun below => m.sees_open below missing

end Materializer

theorem Store.Change.undecided {change : Store.Change} (suits : change.Suits m scope n)
    (new : change.apply n = some k) (reads : (Deed.changed n.path change).Reads)
    (unlisted : m.worlds.entries[world]? = none) (undecided : n.existence[world]? = none) :
    k.existence[world]? = none := by
  cases change with
  | checksum text computedFor =>
    simp only [Store.Change.apply] at new
    split at new
    · cases new
    · cases new
      exact undecided
  | decision other decided =>
    obtain ⟨_, probability, listed, _⟩ := suits
    obtain ⟨_, rfl⟩ := Store.Change.decision_cases new
    rw [getElem?_insert_ite, if_neg, undecided]
    rintro rfl
    rw [unlisted] at listed
    cases listed
  | markGenerated => exact reads.elim
  | content upload time => exact reads.elim
  | redecision other decided => exact reads.elim

section Reading

variable (within : m.worlds.Within scope)

include within

theorem Move.fair {deed : Deed} (move : Move m scope deed s t) (reads : deed.Reads)
    (wf : s.WellFormed scope m.parameters) (fair : s.Obeys (m.Fair world)) :
    t.Obeys (m.Fair world) := by
  intro k holds
  cases move with
  | @expanded _ folder _ _ opens =>
    rcases opens.holds_cases wf within holds with rfl | member | ⟨old, _⟩
    · exact fair folder opens.holds
    · obtain ⟨spec, _, rfl⟩ := List.mem_map.mp member
      exact m.fair_generatedChild world folder _ spec
    · exact fair k old
  | @changed _ old new change present suits applied =>
    have proper := (suits.fits within).proper applied (wf.regular.sound.proper present).1
    rcases Store.holds_replaced proper holds with rfl | stands
    · exact Materializer.fair_of_like (Store.Change.like suits applied reads).1 (fair old present)
    · exact fair k stands
  | made => exact reads.elim
  | removed => exact reads.elim

theorem Move.undecided {deed : Deed} (move : Move m scope deed s t) (reads : deed.Reads)
    (wf : s.WellFormed scope m.parameters) (unlisted : m.worlds.entries[world]? = none)
    (undecided : s.Obeys fun n => n.existence[world]? = none) :
    t.Obeys fun n => n.existence[world]? = none := by
  intro k holds
  cases move with
  | @expanded _ folder time _ opens =>
    rcases opens.holds_cases wf within holds with rfl | member | ⟨old, _⟩
    · exact undecided folder opens.holds
    · obtain ⟨spec, _, rfl⟩ := List.mem_map.mp member
      rw [m.existence_generatedChild, unlisted]
      rfl
    · exact undecided k old
  | @changed _ old new change present suits applied =>
    have proper := (suits.fits within).proper applied (wf.regular.sound.proper present).1
    rcases Store.holds_replaced proper holds with rfl | stands
    · exact Store.Change.undecided suits applied reads unlisted (undecided old present)
    · exact undecided k stands
  | made => exact reads.elim
  | removed => exact reads.elim

theorem Moves.keep {may : Deed → Prop} {holds : Store → Prop} (moves : Moves m scope may s t)
    (keeps : ∀ deed s t, may deed → Move m scope deed s t →
      s.WellFormed scope m.parameters → holds s → holds t)
    (wf : s.WellFormed scope m.parameters) (now : holds s) : holds t := by
  induction moves with
  | none s => exact now
  | more permitted move rest ih =>
    exact ih (move.wellFormed within wf) (keeps _ _ _ permitted move wf now)

omit within

theorem Store.WellFormed.shown_fair (wf : s.WellFormed scope m.parameters)
    (fair : s.Obeys (m.Fair world)) (normal : Path.IsNormal path)
    (shown : m.shows s path = .ok (some n)) : m.Fair world n := by
  rcases normal.root_or_join with rfl | ⟨folder, name, normal', named, rfl⟩
  · obtain ⟨top, root⟩ := wf.root
    rw [wf.shows_record normal root] at shown
    cases shown
    exact fair n (wf.holds root).1
  · rw [wf.shows_join normal' named] at shown
    obtain ⟨found, _, shown⟩ := of_bind_ok shown
    cases found with
    | none => cases shown
    | some here =>
      simp only at shown
      split at shown
      · cases ready : here.generated with
        | true =>
          rw [m.lookup_generated s ready] at shown
          exact fair n (wf.holds (Except.ok.inj shown)).1
        | false =>
          rw [m.lookup_fresh s ready] at shown
          obtain ⟨_, _, spec, _, _, rfl⟩ := Materializer.promised_some shown
          exact m.fair_generatedChild world here _ spec
      · cases shown

theorem Store.WellFormed.shown_below (wf : s.WellFormed scope m.parameters) {folder name : String}
    (normal : Path.IsNormal folder) (named : Path.IsName name)
    (shown : m.shows s (Path.join folder name) = .ok (some n)) : n.parent ≠ none := by
  rw [wf.shows_join normal named] at shown
  obtain ⟨found, above, shown⟩ := of_bind_ok shown
  cases found with
  | none => cases shown
  | some here =>
    simp only at shown
    split at shown
    · cases ready : here.generated with
      | true =>
        rw [m.lookup_generated s ready, (wf.shown_settled normal above).1] at shown
        exact wf.below_join normal named (Except.ok.inj shown)
      | false =>
        rw [m.lookup_fresh s ready] at shown
        obtain ⟨_, _, _, _, _, rfl⟩ := Materializer.promised_some shown
        exact Option.some_ne_none here.path
    · cases shown

end Reading

namespace Session

variable {a b c : Session}

def picture (a : Session) : Picture := a.engine.materializer.shows a.store

def Gentle (kind : Option Operation) : Prop := ∀ r, kind = some r → r.Reads

theorem gentle_of_reads {kind : Option Operation} (reads : Reads kind) : Gentle kind := by
  rintro r rfl
  exact reads

theorem Turn.outlines {kind : Option Operation} (turn : Turn scope kind a b) (gentle : Gentle kind)
    (valid : a.Valid scope) : a.picture.Outlines b.picture := by
  have shape := turn.parameters valid
  cases turn with
  | operates operation fits here timely =>
    have depicts : a.engine.materializer.Depicts a.picture a.store := .self _ _
    exact .of_depicts
      (depicts.reads valid.ready.within valid.wellFormed (valid.moves fits here timely)
      fun _ may => Operation.reads_of_may (gentle operation rfl) may)
  | reopens _ within here timely started =>
    have same := (valid.reopened ‹_› here timely started).1
    refine Materializer.shows_matches shape fun path => ?_
    rw [same.record?]
    cases a.store.record? path with
    | none => exact .none
    | some n => exact .some (.refl n)

theorem Turns.outlines {may : Option Operation → Prop} (turns : Turns scope may a b)
    (gentle : ∀ kind, may kind → Gentle kind) (valid : a.Valid scope) :
    a.picture.Outlines b.picture := by
  induction turns with
  | none a => exact .of_depicts (.self _ _)
  | more rest permitted turn ih =>
    exact (ih valid).trans (turn.outlines (gentle _ permitted) (rest.valid valid))

theorem Turns.mono {may often : Option Operation → Prop} (turns : Turns scope may a b)
    (wider : ∀ kind, may kind → often kind) : Turns scope often a b := by
  induction turns with
  | none a => exact .none a
  | more rest permitted turn ih => exact .more ih (wider _ permitted) turn

theorem Turns.engine (turns : Turns scope Reads a b) : b.engine = a.engine := by
  induction turns with
  | none a => rfl
  | more rest reads turn ih =>
    cases turn with
    | operates => exact ih
    | reopens => exact reads.elim

theorem Valid.reads_keep {site : Site} {operation : Operation}
    {holds : Store → Prop} (valid : a.Valid scope)
    (reads : operation.Reads) (fits : operation.Fits)
    (here : site.store = a.store) (timely : site.Timely)
    (keeps : ∀ deed s t, deed.Reads → Move a.engine.materializer scope deed s t →
      s.WellFormed scope a.engine.materializer.parameters → holds s → holds t)
    (now : holds a.store) : holds (a.after operation site).store :=
  (valid.moves fits here timely).keep valid.ready.within
    (fun deed s t may => keeps deed s t (Operation.reads_of_may reads may)) valid.wellFormed now

theorem Turns.fair (turns : Turns scope Reads a b) (valid : a.Valid scope)
    (fair : a.store.Obeys (a.engine.materializer.Fair world)) :
    b.store.Obeys (b.engine.materializer.Fair world) := by
  induction turns with
  | none a => exact fair
  | more rest reads turn ih =>
    have later := rest.valid valid
    cases turn with
    | operates operation fits here timely =>
      exact later.reads_keep reads fits here timely
        (fun _ _ _ reads move wf => move.fair later.ready.within reads wf) (ih valid fair)
    | reopens => exact reads.elim

theorem Begins.undecided (begins : Begins scope a) (world : String) :
    a.store.Obeys fun n => n.existence[world]? = none := by
  intro n holds
  obtain ⟨time, rfl⟩ := begins.root holds
  exact Std.ExtTreeMap.getElem?_empty

theorem Valid.sees_shown {probability : Binary64} (valid : a.Valid scope)
    (fair : a.store.Obeys (a.engine.materializer.Fair world))
    (listed : a.engine.materializer.worlds.entries[world]? = some probability)
    (normal : Path.IsNormal path) (shown : a.picture path = .ok (some n)) :
    a.engine.materializer.sees n (.named world) =
      .ok (n.isRoot || existsIn n.id world probability) := by
  by_cases below : n.parent = none
  · have top : n.isRoot = true := by rw [Node.isRoot, below]; rfl
    rw [Materializer.sees_root _ below, top, Bool.true_or]
  · rw [valid.wellFormed.shown_fair fair normal shown below,
      Materializer.draws_configured _ _ listed,
      Node.isRoot_eq_false below, Bool.false_or]

theorem Begins.outlines (begins : Begins scope a) (begins' : Begins scope b)
    (shape : b.engine.materializer.parameters = a.engine.materializer.parameters) :
    a.picture.Outlines b.picture := by
  have records : ∀ {c : Session}, Begins scope c → ∀ path, path ≠ Path.root →
      c.store.record? path = none := by
    intro c begins path apart
    cases found : c.store.record? path with
    | none => rfl
    | some n =>
      obtain ⟨holds, place⟩ := begins.valid.wellFormed.holds found
      obtain ⟨time, rfl⟩ := begins.root holds
      exact absurd place.symm apart
  refine Materializer.shows_matches shape fun path => ?_
  by_cases top : path = Path.root
  · obtain ⟨n, found⟩ := begins.valid.wellFormed.root
    obtain ⟨k, found'⟩ := begins'.valid.wellFormed.root
    rw [top, found, found']
    obtain ⟨time, rfl⟩ := begins.root (begins.valid.wellFormed.holds found).1
    obtain ⟨time', rfl⟩ := begins'.root (begins'.valid.wellFormed.holds found').1
    rw [shape]
    exact .some ⟨rfl, rfl⟩
  · rw [records begins path top, records begins' path top]
    exact .none

end Session

end SeedTree
