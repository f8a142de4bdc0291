import SeedTree.Proofs.Engine.Alone
import SeedTree.Proofs.Engine.Reading

/- Walks through a well-formed store with nothing in between. Each leaves the store by moves of its
   own, and its answer is what the store showed before. -/
namespace SeedTree

open Attempt

variable {m : Materializer} {scope : Scope} {s t : Store} {n k folder : Node} {held : List String}

theorem ends_putAll {α : Type} {p : Parameters} {xs : List α} {f : α → Node}
    {post : Except Failure Unit → Store → Prop} (regular : s.Regular scope p)
    (proper : ∀ n ∈ xs.map f, n.Proper scope p) (absent : ∀ n ∈ xs.map f, s.record? n.path = none)
    (apart : (xs.map f).Pairwise fun a b => a.path ≠ b.path)
    (ends : post (.ok ()) (s.insertAll (xs.map f))) :
    (xs.forM fun x => discard (call (.putIfAbsent (f x)))).Ends (Setting.alone scope p) held s
      post := by
  induction xs generalizing s with
  | nil => exact ends_pure ends
  | cons x xs ih =>
    rw [List.map_cons] at proper absent apart ends
    obtain ⟨fresh, apart⟩ := List.pairwise_cons.mp apart
    obtain ⟨first, proper⟩ := List.forall_mem_cons.mp proper
    obtain ⟨free, absent⟩ := List.forall_mem_cons.mp absent
    refine ends_bind (ends_discard (alone_putIfAbsent regular first ?_ fun _ => ?_))
    · intro m present
      rw [free] at present
      cases present
    · exact ih (regular.insertNode first free) proper
        (Store.insertAll_absent first fresh absent) apart ends

theorem ends_expand {post : Except Failure Unit → Store → Prop}
    (wf : s.WellFormed scope m.parameters) (within : m.worlds.Within scope)
    (found : s.record? folder.path = some n) (isFolder : n.isFolder = true)
    (ready : folder.generated = true → n.generated = true)
    (done : n.generated = true → post (.ok ()) s)
    (opened : ∀ time specs, m.Opens s n time specs → post (.ok ()) (s.opened m n time specs))
    (unending : n.generated = false → m.specs? n = none → post (.error (.unending n.path)) s) :
    (m.expand folder).Ends (Setting.alone scope m.parameters) held s post := by
  unfold Materializer.expand
  split
  · rename_i generated
    exact ends_pure (done (ready generated))
  · refine alone_withLock ?_
    unfold Materializer.expandLocked
    refine ends_bind (alone_getOr wf.regular ?_ ?_)
    · intro current there
      cases Store.Holds.unique found there
      have holds := (wf.holds found).1
      simp only [then_ok]
      split
      · rename_i generated
        exact ends_tell (done generated)
      · rename_i fresh
        have fresh : n.generated = false := by simpa using fresh
        split
        · rename_i none
          exact ends_throw (unending fresh none)
        · rename_i specs drawn
          refine ends_bind (ends_now fun time valid => ?_)
          have opens : m.Opens s n time specs := ⟨holds, isFolder, fresh, drawn, valid⟩
          refine ends_bind (ends_putAll wf.regular (opens.proper wf within) (opens.absent wf)
            (opens.apart wf) ?_)
          have grown := wf.regular.insertAll (opens.proper wf within) (opens.absent wf)
            (opens.apart wf)
          have stands := Store.record?_insertAll_of_some (opens.proper wf within) (opens.absent wf)
            (opens.apart wf) holds
          refine ends_bind (ends_discard (alone_change grown trivial stands ?_ ?_))
          · intro same
            simp [Store.Change.apply, fresh] at same
          · intro k new _
            simp only [Store.Change.apply, fresh] at new
            cases new
            exact ends_tell (opened time specs opens)
    · intro absent
      rw [found] at absent
      cases absent

theorem ends_isVisible {world : World} {post : Except Failure Bool → Store → Prop}
    (wf : s.WellFormed scope m.parameters) (within : m.worlds.Within scope)
    (found : s.record? n.path = some k) (like : n.Like m k)
    (ends : ∀ t, Moves m scope Deed.Walks s t → post (m.sees n world) t) :
    (m.isVisible n world).Ends (Setting.alone scope m.parameters) held s post := by
  obtain ⟨holds, path⟩ := wf.holds found
  unfold Materializer.isVisible
  split
  · rename_i decided decision
    rw [m.sees_of_decision decision] at ends
    exact ends_pure (ends s (.none s))
  · exact ends_pure (ends s (.none s))
  · rename_i name decision
    have below : n.parent ≠ none := by
      intro top
      simp [Node.decision?, Node.isRoot, top] at decision
    have missing : n.existence[name]? = none := by
      simpa [Node.decision?, Node.isRoot_eq_false below] using decision
    have seen := m.sees_open below missing
    have asked : m.worlds.probability? (.named name) = m.worlds.entries[name]? := rfl
    rw [asked]
    cases configured : m.worlds.entries[name]? with
    | none =>
      refine ends_throw ?_
      rw [← m.draws_unconfigured n.id configured, ← seen]
      exact ends s (.none s)
    | some probability =>
      have draws := m.draws_configured n.id configured
      have below' : k.parent ≠ none := by rw [like.place.parent]; exact below
      have suits : (Store.Change.decision name (existsIn n.id name probability)).Suits m scope k :=
        ⟨below', probability, configured, by rw [like.place.id]⟩
      rw [seen, draws] at ends
      rw [← path]
      refine ends_bind (alone_change wf.regular (suits.fits within) holds ?_ ?_)
      · intro same
        have kept : k.existence[name]? = some (existsIn n.id name probability) := by
          obtain ⟨decided, found⟩ := Store.Change.decision_declined same
          have agreed := like.sees (.named name)
          rw [m.sees_decided below' found, seen, draws] at agreed
          rw [found, Except.ok.inj agreed]
        refine ends_bind (ends_tell (ends_pure ?_))
        rw [Option.bind_some, kept]
        exact ends s (.none s)
      · intro new applied _
        have kept : new.existence[name]? = some (existsIn n.id name probability) := by
          rw [(Store.Change.decision_cases applied).2]
          exact Std.ExtTreeMap.getElem?_insert_self
        refine ends_bind (ends_tell (ends_pure ?_))
        rw [Option.bind_some, kept]
        exact ends _ (Moves.one (Deed.walks_decision ..) (.changed holds suits applied))

/-- A node that was a record at some moment between two stores, and what the first store showed
there. -/
def Seen (m : Materializer) (scope : Scope) (s t : Store) (shown n : Node) : Prop :=
  ∃ u, Moves m scope Deed.Walks s u ∧ u.Holds n ∧ Moves m scope Deed.Walks u t ∧ m.Alike s u shown n

theorem Seen.earlier {u : Store} {shown : Node} (seen : Seen m scope t u k n)
    (moves : Moves m scope Deed.Walks s t) (alike : m.Alike s t shown k) :
    Seen m scope s u shown n := by
  obtain ⟨v, before, holds, after, same⟩ := seen
  exact ⟨v, moves.append before, holds, after, alike.trans same⟩

structure Walked (m : Materializer) (scope : Scope) (s : Store)
    (expected result : Except Failure Node) (t : Store) : Prop where
  moves : Moves m scope Deed.Walks s t
  answer : Agree (Seen m scope s t) expected result

theorem Walked.failed {failure : Failure} {expected : Except Failure Node}
    (moves : Moves m scope Deed.Walks s t) (same : expected = .error failure) :
    Walked m scope s expected (.error failure) t :=
  ⟨moves, by rw [same]; rfl⟩

theorem ends_open {post : Except Failure Unit → Store → Prop}
    (wf : s.WellFormed scope m.parameters) (within : m.worlds.Within scope) (holds : s.Holds n)
    (isFolder : n.isFolder = true) (moves : Moves m scope Deed.Walks s t)
    (leads : ∀ u k, Moves m scope Deed.Walks s u → u.record? n.path = some k →
      k.generated = true → Store.Change.Keeps n k → m.Alike s u n k → post (.ok ()) u)
    (fails : ∀ failure, (∀ name, Path.IsName name → m.lookup s n name = .error failure) →
      post (.error failure) t) :
    (m.expand n).Ends (Setting.alone scope m.parameters) held t post := by
  obtain ⟨k, there, keeps, alike⟩ := moves.read within (fun _ walks => walks.reads) wf holds
  have later := moves.wellFormed within wf
  have isFolder' : k.isFolder = true := by rw [keeps.isFolder, isFolder]
  refine ends_expand later within there isFolder' keeps.generated ?_ ?_ ?_
  · exact fun done => leads t k moves there done keeps alike
  · intro time specs opens
    refine leads _ k.expanded (moves.append (.one (Deed.walks_expanded _) (.expanded opens))) ?_ rfl
      (keeps.trans ⟨⟨rfl, rfl, rfl, rfl⟩, rfl, rfl, rfl, fun _ => rfl⟩)
      (alike.trans (opens.alike later within opens.holds (Or.inr ⟨rfl, rfl⟩)))
    rw [opens.record? later within, keeps.place.path, if_pos rfl]
  · intro fresh none
    refine fails _ fun name named => ?_
    have known := alike.lookup isFolder named
    rw [m.lookup_fresh t fresh, Materializer.promised, none] at known
    exact known.eq_error

/-- A walk down from a record answers with what the store showed when the record was read. -/
theorem ends_descend {world : World} {names : List String} {here : Node}
    (valid : ∀ name ∈ names, Path.IsName name) (wf : s.WellFormed scope m.parameters)
    (within : m.worlds.Within scope) (holds : s.Holds here)
    (moves : Moves m scope Deed.Walks s t) :
    (m.descend world names here).Ends (Setting.alone scope m.parameters) held t
      (Walked m scope s (m.walk s world names here)) := by
  induction names generalizing s t here with
  | nil => exact ends_pure ⟨moves, s, .none s, holds, moves, .refl s here⟩
  | cons name more ih =>
    obtain ⟨named, valid⟩ := List.forall_mem_cons.mp valid
    cases isFolder : here.isFolder with
    | false =>
      simp only [Materializer.descend, Materializer.walk, isFolder, Bool.not_false, if_true]
      exact ends_throw (.failed moves rfl)
    | true =>
      simp only [Materializer.descend, Materializer.walk, isFolder, Bool.not_true,
        Bool.false_eq_true, if_false]
      refine ends_bind (ends_open wf within holds isFolder moves ?_ ?_)
      · intro u k moves there ready keeps alike
        have later := moves.wellFormed within wf
        have known := alike.lookup isFolder named
        rw [m.lookup_generated u ready, keeps.place.path] at known
        refine ends_bind (alone_getOr later.regular ?_ ?_)
        · intro child found
          rw [found] at known
          obtain ⟨_, shown, @⟨below, _, same⟩⟩ := known.of_ok
          have stands := (later.holds found).1
          rw [shown]
          refine ends_bind (ends_isVisible later within stands (.refl child) fun v after => ?_)
          simp only [Except.bind]
          rw [← same.like.sees world]
          cases m.sees child world with
          | error failure => exact .failed (moves.append after) rfl
          | ok visible =>
            cases visible with
            | false => exact ends_bind (ends_tell (ends_throw (.failed (moves.append after) rfl)))
            | true =>
              refine (ih valid later stands after).mono fun result w walked => ?_
              refine ⟨moves.append walked.moves, ?_⟩
              exact (same.walk world more valid).trans
                (fun _ _ _ alike seen => seen.earlier moves alike) walked.answer
        · intro absent
          rw [absent] at known
          obtain ⟨_, shown, ⟨⟩⟩ := known.of_ok
          rw [shown]
          exact .failed moves rfl
      · intro failure unending
        rw [unending name named]
        exact .failed moves rfl

def Materializer.resolved (m : Materializer) (s : Store) (world : World) (path : String) :
    Except Failure Node :=
  match s.record? Path.root with
  | some top => m.walk s world (Path.components path) top
  | none => .error (.missing Path.root)

theorem Store.WellFormed.lookup_settled (wf : s.WellFormed scope m.parameters)
    (settled : s.Settled n) {name : String} (shown : m.lookup s n name = .ok (some k)) :
    k.path = Path.join n.path name ∧ s.Settled k := by
  cases ready : n.generated with
  | true =>
    rw [m.lookup_generated s ready] at shown
    obtain ⟨holds, path⟩ := wf.holds (Except.ok.inj shown)
    exact ⟨path, wf.settled holds⟩
  | false =>
    rw [m.lookup_fresh s ready] at shown
    obtain ⟨specs, drawn, spec, member, rfl, rfl⟩ := Materializer.promised_some shown
    exact ⟨rfl, (wf.settled_generated settled ready drawn member Moment.epoch).1⟩

theorem Store.WellFormed.walk_path (wf : s.WellFormed scope m.parameters) {world : World}
    {names : List String} (settled : s.Settled n) (found : m.walk s world names n = .ok k) :
    k.path = names.foldl Path.join n.path := by
  induction names generalizing n with
  | nil =>
    cases found
    rfl
  | cons name more ih =>
    unfold Materializer.walk at found
    split at found
    · cases found
    · cases shown : m.lookup s n name with
      | error failure =>
        rw [shown] at found
        cases found
      | ok below =>
        rw [shown] at found
        cases below with
        | none => cases found
        | some child =>
          obtain ⟨path, next⟩ := wf.lookup_settled settled shown
          simp only [Except.bind] at found
          cases seen : m.sees child world with
          | error failure =>
            rw [seen] at found
            cases found
          | ok visible =>
            rw [seen] at found
            cases visible with
            | false => cases found
            | true =>
              rw [List.foldl_cons, ← path]
              exact ih next found

theorem Store.WellFormed.resolved_path (wf : s.WellFormed scope m.parameters) {world : World}
    {path : String} (normal : Path.IsNormal path) (found : m.resolved s world path = .ok k) :
    k.path = path := by
  obtain ⟨top, there⟩ := wf.root
  obtain ⟨holds, root⟩ := wf.holds there
  rw [Materializer.resolved, there] at found
  rw [wf.walk_path (wf.settled holds) found, root, normal.foldl_join]

section Resolving

variable {world : World} {path : String} (wf : s.WellFormed scope m.parameters)
  (within : m.worlds.Within scope) (normal : Path.IsNormal path)

include wf within normal

theorem ends_resolve : (m.resolve path world).Ends (Setting.alone scope m.parameters) held s
    (Walked m scope s (m.resolved s world path)) := by
  obtain ⟨top, there⟩ := wf.root
  have holds := (wf.holds there).1
  rw [Materializer.resolved, there]
  refine ends_bind (alone_getOr wf.regular ?_ ?_)
  · intro root found
    cases Store.Holds.unique there found
    exact ends_descend normal.components.1 wf within holds (.none s)
  · intro absent
    rw [there] at absent
    cases absent

end Resolving

def Materializer.visibles (m : Materializer) (world : World) :
    List Node → Except Failure (List Node)
  | [] => .ok []
  | n :: more => (m.sees n world).bind fun visible => (visibles m world more).bind fun rest =>
    .ok (if visible then n :: rest else rest)

theorem ends_visibleOf {world : World} {children : List Node} (wf : s.WellFormed scope m.parameters)
    (within : m.worlds.Within scope) (holds : ∀ n ∈ children, s.Holds n)
    (moves : Moves m scope Deed.Walks s t) :
    (m.visibleOf world children).Ends (Setting.alone scope m.parameters) held t fun result u =>
      result = m.visibles world children ∧ Moves m scope Deed.Walks s u := by
  induction children generalizing t with
  | nil => exact ends_pure ⟨rfl, moves⟩
  | cons n more ih =>
    obtain ⟨first, holds⟩ := List.forall_mem_cons.mp holds
    obtain ⟨k, found, _, alike⟩ := moves.read within (fun _ walks => walks.reads) wf first
    have later := moves.wellFormed within wf
    refine ends_bind (ends_isVisible later within found alike.like fun u after => ?_)
    rw [Materializer.visibles]
    cases m.sees n world with
    | error failure => exact ⟨rfl, moves.append after⟩
    | ok visible =>
      refine ends_bind ((ih holds (moves.append after)).mono ?_)
      rintro result v ⟨rfl, rest⟩
      cases m.visibles world more with
      | error failure => exact ⟨rfl, rest⟩
      | ok shown => exact ends_pure ⟨rfl, rest⟩

structure Contents (m : Materializer) (scope : Scope) (s : Store) (folder : Node)
    (children : List Node) (t : Store) : Prop where
  sorted : children.Pairwise fun a b => Bytes.order (utf8 a.name) (utf8 b.name) = .lt
  named : ∀ n ∈ children, Path.IsName n.name
  shown : ∀ name, Path.IsName name → Agree (Option.Rel (Seen m scope s t))
    (m.lookup s folder name) (.ok (children.find? (·.name = name)))

inductive Listed (m : Materializer) (scope : Scope) (s : Store) (world : World) (path : String)
    (t : Store) : Except Failure (List Node) → Prop where
  | hidden {failure : Failure} (resolved : m.resolved s world path = .error failure) :
      Listed m scope s world path t (.error failure)
  | file {shown : Node} (resolved : m.resolved s world path = .ok shown)
      (isFile : shown.isFolder = false) :
      Listed m scope s world path t (.error (.notFound (.folder shown.path)))
  | unending {shown : Node} {failure : Failure} (resolved : m.resolved s world path = .ok shown)
      (isFolder : shown.isFolder = true)
      (unending : ∀ name, Path.IsName name → m.lookup s shown name = .error failure) :
      Listed m scope s world path t (.error failure)
  | folder {shown : Node} {children : List Node} (resolved : m.resolved s world path = .ok shown)
      (isFolder : shown.isFolder = true) (contents : Contents m scope s shown children t) :
      Listed m scope s world path t (m.visibles world children)

theorem ends_list {world : World} {path : String} (wf : s.WellFormed scope m.parameters)
    (within : m.worlds.Within scope) (normal : Path.IsNormal path) :
    (m.list path world).Ends (Setting.alone scope m.parameters) held s fun result t =>
      Moves m scope Deed.Walks s t ∧ Listed m scope s world path t result := by
  refine ends_bind ((ends_resolve wf within normal).mono ?_)
  intro result t walked
  cases result with
  | error failure => exact ⟨walked.moves, .hidden walked.answer.eq_error⟩
  | ok n =>
    obtain ⟨shown, resolved, u, before, holds, after, alike⟩ := walked.answer.of_ok
    have middle := before.wellFormed within wf
    have same := alike.like.isFolder
    simp only [then_ok]
    cases isFolder : n.isFolder with
    | false =>
      simp only [Bool.not_false, if_true]
      refine ends_throw ⟨walked.moves, ?_⟩
      rw [alike.like.place.path]
      exact .file resolved (same.symm.trans isFolder)
    | true =>
      have isFolder' : shown.isFolder = true := same.symm.trans isFolder
      simp only [Bool.not_true, Bool.false_eq_true, if_false]
      refine ends_bind (ends_open middle within holds isFolder after ?_ ?_)
      · intro v k rest there ready keeps alike'
        have moves := before.append rest
        have later := moves.wellFormed within wf
        have normal' := (middle.shaped holds).normal
        refine ends_bind (alone_listChildren later.regular ?_)
        intro children members sorted
        refine (ends_visibleOf later within (fun n member => ((members n).mp member).1)
          (.none v)).mono ?_
        rintro _ w ⟨rfl, final⟩
        refine ⟨moves.append final, .folder resolved isFolder' ⟨sorted, ?_, ?_⟩⟩
        · intro n member
          obtain ⟨stands, below⟩ := (members n).mp member
          exact ((later.shaped stands).join below).2.1
        · intro name named
          rw [later.regular.find?_children normal' named members]
          have known := (alike.trans alike').lookup isFolder' named
          rw [m.lookup_generated v ready, keeps.place.path] at known
          cases found : v.record? (Path.join n.path name) with
          | none =>
            rw [found] at known
            obtain ⟨_, missing, ⟨⟩⟩ := known.of_ok
            rw [missing]
            exact .none
          | some child =>
            rw [found] at known
            obtain ⟨_, present, @⟨below, _, same⟩⟩ := known.of_ok
            rw [present]
            exact .some ⟨v, moves, (later.holds found).1, final, same⟩
      · intro failure unending
        refine ⟨walked.moves, .unending resolved isFolder' fun name named => ?_⟩
        have known := alike.lookup isFolder' named
        rw [unending name named] at known
        exact known.eq_error

end SeedTree
