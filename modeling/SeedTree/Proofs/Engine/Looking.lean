import SeedTree.Proofs.Engine.Footsteps

/- The parts of a walk while others walk too: folders are expanded under their locks, and decisions
   are put down. -/
namespace SeedTree

open Attempt

/-- Readers share a store. Nobody waits for a lock while holding one. -/
abbrev Setting.looking (m : Materializer) (scope : Scope) (traces : Trace → Prop) (origin : Store) :
    Setting where
  State := Store
  store := fun s => s
  after := fun _ s => s
  meanwhile := fun held s t => m.Trodden scope traces origin t ∧ s.Onward m held t
  allows := fun held s call => s.Looked m scope traces held (s.perform call).2 ∧
    ∀ path ∈ call.puts, s.record? path = none ∧ ∃ n, (s.perform call).2.record? path = some n
  awaits := fun held _ => held = []
  intact := fun folder s => s.Shut folder

/-- A node that was on record, and what was shown in its place at first. -/
structure Materializer.Recalls (m : Materializer) (origin s : Store) (d n : Node) : Prop where
  shown : m.shows origin n.path = .ok (some d)
  grown : d.Grown m n
  clear : n.RootUndecided
  there : ∃ k, s.Holds k ∧ n.Grown m k

/-- A folder in the middle of its expansion: it is not marked, and some of its children are
there. -/
structure Store.Filling (s : Store) (folder : String) (done : List ChildSpec) : Prop where
  fresh : ∃ host, s.record? folder = some host ∧ host.generated = false
  filled : ∀ spec ∈ done, ∃ c, s.record? (Path.join folder spec.name) = some c
  only : ∀ k, s.Holds k → k.parent = some folder →
    ∃ spec ∈ done, k.path = Path.join folder spec.name

/-- How an expansion ends: the folder is marked, or what it would hold cannot be told. -/
inductive Materializer.Expands (m : Materializer) (origin s : Store) (folder : String) :
    Except Failure Unit → Prop where
  | marked {k : Node} (found : s.record? folder = some k) (ready : k.generated = true) :
      Expands m origin s folder (.ok ())
  | unending {failure : Failure} (unending : ∀ name, Path.IsName name →
      m.shows origin (Path.join folder name) = .error failure) :
      Expands m origin s folder (.error failure)

variable {m : Materializer} {scope : Scope} {traces : Trace → Prop} {origin s t : Store}
  {n k d host : Node} {held : List String} {path folder name : String}
  {world : World} {time : Moment}
  {specs done rest : List ChildSpec}

theorem Materializer.Recalls.later (recalls : m.Recalls origin s d n) (grows : s.Grows m t) :
    m.Recalls origin t d n := by
  obtain ⟨k, holds, grown⟩ := recalls.there
  obtain ⟨l, there, grown'⟩ := grows k holds
  exact { recalls with there := ⟨l, there, grown.trans grown'⟩ }

theorem Materializer.Trodden.recalls
    (trodden : m.Trodden scope traces origin s) (holds : s.Holds n) :
    ∃ d, m.Recalls origin s d n := by
  obtain ⟨d, shown, traced⟩ := trodden.shown n holds
  exact ⟨d, shown, traced.toGrown, trodden.clear n holds, n, holds, .refl n⟩

theorem Materializer.Recalls.bears (recalls : m.Recalls origin s d n) {decider : String}
    (known : n.parent ≠ none → (∃ failure, m.draws n.id decider = .error failure) ∨
      ∃ k, s.Holds k ∧ k.path = n.path ∧ k.existence[decider]? ≠ none) :
    m.Bears origin s (.decided n.path decider) := by
  intro d' present shown below drawn
  have same := shown
  rw [recalls.shown] at same
  cases same
  rcases known (by rw [recalls.grown.like.place.parent]; exact below) with
    ⟨failure, failed⟩ | ⟨k, holds, place, decided⟩
  · rw [recalls.grown.like.place.id, drawn] at failed
    cases failed
  · exact ⟨k, place ▸ holds, decided⟩

namespace Store.Filling

theorem onward (filling : s.Filling folder done) (regular : s.Regular scope m.parameters)
    (onward : s.Onward m held t) (locked : folder ∈ held) : t.Filling folder done := by
  constructor
  · obtain ⟨host, found, fresh⟩ := filling.fresh
    obtain ⟨k, there, _⟩ := onward.grows.record? (regular.sound.holds found)
    rw [(regular.sound.proper found).2] at there
    refine ⟨k, there, ?_⟩
    cases ready : k.generated with
    | false => rfl
    | true =>
      rw [(onward.guards folder locked).unmarked host k found there ready] at fresh
      cases fresh
  · intro spec member
    obtain ⟨c, found⟩ := filling.filled spec member
    obtain ⟨c', there, _⟩ := onward.grows.record? (regular.sound.holds found)
    exact ⟨c', (regular.sound.proper found).2 ▸ there⟩
  · intro k holds below
    obtain ⟨l, early, place⟩ := (onward.guards folder locked).below k holds below
    obtain ⟨spec, member, same⟩ := filling.only l early
      ((onward.grows.parent early holds place).symm.trans below)
    exact ⟨spec, member, place.symm.trans same⟩

theorem opens (filling : s.Filling host.path done) (there : ∃ k, s.Holds k ∧ host.Grown m k)
    (isFolder : host.isFolder = true) (drawn : m.specs? host = some specs)
    (valid : time.isValid = true) : ∃ k, m.Opens s k time specs ∧ k.path = host.path ∧
      m.generatedChild k time = m.generatedChild host time := by
  obtain ⟨k, holds, grown⟩ := there
  obtain ⟨k', found, fresh⟩ := filling.fresh
  have same : k' = k := Store.Holds.unique found (grown.path ▸ holds)
  refine ⟨k, ⟨holds, grown.like.isFolder.trans isFolder, same ▸ fresh, ?_, valid⟩, grown.path,
    Materializer.generatedChild_congr grown.path grown.like.depth time⟩
  rw [Materializer.specs?_congr grown.path grown.like.depth, drawn]

theorem put {spec : ChildSpec} (filling : s.Filling folder done)
    (proper : n.Proper scope m.parameters)
    (absent : s.record? n.path = none) (place : n.path = Path.join folder spec.name)
    (apart : folder ≠ n.path) : (s.insertNode n).Filling folder (done ++ [spec]) := by
  constructor
  · obtain ⟨host, found, fresh⟩ := filling.fresh
    exact ⟨host, by rw [Store.record?_insertNode proper, if_neg apart, found], fresh⟩
  · intro other member
    rw [Store.record?_insertNode proper]
    split
    · exact ⟨n, rfl⟩
    · rename_i elsewhere
      rcases List.mem_append.mp member with early | last
      · exact filling.filled other early
      · rw [List.mem_singleton.mp last] at elsewhere
        exact absurd place.symm elsewhere
  · intro k holds below
    rcases (Store.holds_insertNode proper absent).mp holds with rfl | old
    · exact ⟨spec, by simp, place⟩
    · obtain ⟨other, member, same⟩ := filling.only k old below
      exact ⟨other, List.mem_append_left _ member, same⟩

theorem vacant {spec : ChildSpec} (filling : s.Filling host.path done)
    (regular : s.Regular scope m.parameters) (normal : Path.IsNormal host.path)
    (drawn : m.specs? host = some (done ++ spec :: rest)) :
    s.record? (Path.join host.path spec.name) = none := by
  cases found : s.record? (Path.join host.path spec.name) with
  | none => rfl
  | some c =>
    have place := (regular.sound.proper found).2
    have named := Children.generate?_isName drawn (List.mem_append_right _ List.mem_cons_self)
    obtain ⟨other, early, same⟩ :=
      filling.only c (regular.sound.holds found) (regular.parent_join normal named found)
    have named' := Children.generate?_isName drawn (List.mem_append_left _ early)
    have equal := (Path.join_injective normal normal named named' (place.symm.trans same)).2
    have distinct := (Children.generate?_orderly drawn).distinct
    exact absurd equal.symm
      ((List.pairwise_append.mp distinct).2.2 other early spec List.mem_cons_self)

end Store.Filling

section Calls

variable {post : Except Failure Node → Store → Prop} {failure : Failure}

theorem looking_getOr
    (there : ∀ t n, m.Trodden scope traces origin t → s.Onward m held t →
      t.Holds n → n.path = path →
      post (.ok n) t)
    (absent : ∀ t, m.Trodden scope traces origin t → s.Onward m held t → t.record? path = none →
      post (.error failure) t) :
    (getOr path failure).Ends (Setting.looking m scope traces origin) held s post := by
  refine ends_bind (ends_call ?_)
  rintro t ⟨trodden, onward⟩
  refine ⟨⟨.same, fun _ put => absurd put List.not_mem_nil⟩, ?_⟩
  simp only [Store.perform, trodden.regular.sound.get]
  cases found : t.record? path with
  | none => exact ends_throw (absent t trodden onward found)
  | some n =>
    obtain ⟨holds, place⟩ := trodden.holds found
    exact ends_pure (there t n trodden onward holds place)

end Calls

section Looking

variable (wf : origin.WellFormed scope m.parameters) (within : m.worlds.Within scope)

include wf within

section Filling

variable (trodden : m.Trodden scope traces origin s) (locked : host.path ∈ held)
  (left : traces (.expanded host.path)) (there : ∃ k, s.Holds k ∧ host.Grown m k)
  (isFolder : host.isFolder = true) (valid : time.isValid = true)

include trodden locked left there isFolder valid

theorem looking_put {spec : ChildSpec} (drawn : m.specs? host = some (done ++ spec :: rest))
    (filling : s.Filling host.path done) :
    (discard (call (.putIfAbsent (m.generatedChild host time spec)))).Ends
      (Setting.looking m scope traces origin) held s fun result t => result = .ok () ∧
        m.Trodden scope traces origin t ∧ s.Grows m t ∧ t.Filling host.path (done ++ [spec]) := by
  refine ends_discard (ends_call ?_)
  rintro t ⟨trodden', onward⟩
  have filling' := filling.onward trodden.regular onward locked
  obtain ⟨k, holds, grown⟩ := there
  obtain ⟨k', holds', grown'⟩ := onward.grows k holds
  obtain ⟨l, opens, place, same⟩ :=
    filling'.opens ⟨k', holds', grown.trans grown'⟩ isFolder drawn valid
  have member : spec ∈ done ++ spec :: rest := by simp
  have normal : Path.IsNormal host.path := place ▸ (trodden'.shaped opens.holds).normal
  have named := Children.generate?_isName drawn member
  have absent : t.record? (m.generatedChild host time spec).path = none :=
    filling'.vacant trodden'.regular normal drawn
  have proper : (m.generatedChild l time spec).Proper scope m.parameters :=
    Materializer.proper_generatedChild within (trodden'.regular.sound.proper opens.holds).1
      opens.isFolder opens.fresh opens.drawn member valid
  have looked : t.Looked m scope traces held (t.insertNode (m.generatedChild l time spec)) :=
    .put opens (by rw [place]; exact left) (by rw [place]; exact locked) member
      (by rw [place]; exact absent)
  rw [same] at looked proper
  simp only [Store.perform, trodden'.regular.charted.putIfAbsent_absent absent]
  refine ⟨⟨looked, fun path put => ?_⟩, rfl, looked.trodden trodden' wf within,
    onward.grows.trans (looked.grows trodden'.regular within),
    filling'.put proper absent rfl (Path.join_ne normal named).symm⟩
  rw [List.mem_singleton.mp put]
  exact ⟨absent, _, (Store.record?_insertNode proper _).trans (if_pos rfl)⟩

theorem looking_fill (drawn : m.specs? host = some (done ++ rest))
    (filling : s.Filling host.path done) :
    (rest.forM fun spec => discard (call (.putIfAbsent (m.generatedChild host time spec)))).Ends
      (Setting.looking m scope traces origin) held s fun result t => result = .ok () ∧
        m.Trodden scope traces origin t ∧ s.Grows m t ∧ t.Filling host.path (done ++ rest) := by
  induction rest generalizing s done with
  | nil =>
    rw [List.append_nil]
    exact ends_pure ⟨rfl, trodden, .refl s, filling⟩
  | cons spec rest ih =>
    refine ends_bind
      ((looking_put wf within trodden locked left there isFolder valid drawn filling).mono ?_)
    rintro _ t ⟨rfl, trodden', grows, filled⟩
    obtain ⟨k, holds, grown⟩ := there
    obtain ⟨k', holds', grown'⟩ := grows k holds
    rw [List.append_cons] at drawn
    refine (ih trodden' ⟨k', holds', grown.trans grown'⟩ drawn filled).mono ?_
    rintro _ u ⟨rfl, trodden'', grows', full⟩
    rw [← List.append_cons] at full
    exact ⟨rfl, trodden'', grows.trans grows', full⟩

theorem looking_mark (drawn : m.specs? host = some specs) (filling : s.Filling host.path specs) :
    (discard (call (.change host.path .markGenerated))).Ends
      (Setting.looking m scope traces origin) held s
      fun result t => result = .ok () ∧ m.Trodden scope traces origin t ∧ s.Grows m t ∧
        ∃ k, t.record? host.path = some k ∧ k.generated = true := by
  refine ends_discard (ends_call ?_)
  rintro t ⟨trodden', onward⟩
  have full := filling.onward trodden.regular onward locked
  obtain ⟨k, holds, grown⟩ := there
  obtain ⟨k', holds', grown'⟩ := onward.grows k holds
  obtain ⟨l, opens, place, _⟩ := full.opens ⟨k', holds', grown.trans grown'⟩ isFolder drawn valid
  have looked : t.Looked m scope traces held (t.replaced l.expanded) := by
    refine .opened opens ?_ ?_ ?_ <;> rw [place]
    · exact left
    · exact locked
    · exact full.filled
  have new : Store.Change.markGenerated.apply l = some l.expanded := by
    simp only [Store.Change.apply, opens.fresh, Bool.false_eq_true, if_false]
    rfl
  have proper := (trodden'.regular.sound.proper opens.holds).1.expanded
  rw [← place]
  simp only [Store.perform, trodden'.regular.charted.update_changed opens.holds new rfl]
  refine ⟨⟨looked, fun path put => absurd put List.not_mem_nil⟩, rfl,
    looked.trodden trodden' wf within,
    onward.grows.trans (looked.grows trodden'.regular within), l.expanded, ?_, rfl⟩
  exact (Store.record?_replaced proper l.path).trans (if_pos rfl)

end Filling

theorem looking_expandLocked (trodden : m.Trodden scope traces origin s)
    (left : traces (.expanded n.path))
    (there : ∃ k, s.Holds k ∧ n.Grown m k) (isFolder : n.isFolder = true) (shut : s.Shut n.path) :
    (m.expandLocked n.path).Ends (Setting.looking m scope traces origin) [n.path] s fun result t =>
      t.Shut n.path ∧ m.Trodden scope traces origin t ∧ s.Grows m t ∧
        m.Expands origin t n.path result := by
  have locked : n.path ∈ [n.path] := List.mem_singleton_self _
  obtain ⟨k, holds, grown⟩ := there
  have found : s.record? n.path = some k := by rw [← grown.path]; exact holds
  refine ends_bind (looking_getOr ?_ ?_)
  · intro t k' trodden' onward holds' place
    have shut' := shut.onward trodden.regular onward locked
    obtain ⟨l, at_, grown'⟩ := onward.grows.record? holds
    rw [grown.path, ← place, holds'] at at_
    cases at_
    have grown := grown.trans grown'
    refine ends_ite
      (fun ready => ends_tell ⟨shut', trodden', onward.grows, .marked (place ▸ holds') ready⟩)
      fun stale => ?_
    have fresh : k'.generated = false := by simpa using stale
    have isFolder' := grown.like.isFolder.trans isFolder
    have drawn : Children.generate? Draw.patience m.parameters k'.path k'.depth = m.specs? k' := rfl
    rw [drawn]
    rw [← place] at shut' left ⊢
    cases drawn : m.specs? k' with
    | none =>
      refine ends_throw ⟨shut', trodden', onward.grows, .unending fun name named => ?_⟩
      rw [trodden'.promised wf holds' isFolder' fresh named, Materializer.promised, drawn]
    | some specs =>
      refine ends_bind (ends_now fun time valid => ?_)
      have filling : t.Filling k'.path [] := by
        refine ⟨⟨k', holds', fresh⟩, fun _ none => absurd none List.not_mem_nil, ?_⟩
        intro c stands below
        obtain ⟨host, at_, ready⟩ := shut' c stands below
        rw [Store.Holds.unique at_ holds', fresh] at ready
        cases ready
      have locked : k'.path ∈ [k'.path] := List.mem_singleton_self _
      refine ends_bind
        ((looking_fill wf within trodden' locked left ⟨k', holds', .refl k'⟩ isFolder' valid
        (show m.specs? k' = some ([] ++ specs) from drawn) filling).mono ?_)
      rintro _ u ⟨rfl, trodden'', grows, full⟩
      refine ends_bind
        ((looking_mark wf within trodden'' locked left (grows k' holds') isFolder' valid
        drawn full).mono ?_)
      rintro _ v ⟨rfl, latest, grows', l, marked, ready⟩
      refine ends_tell ⟨fun _ _ _ => ⟨l, marked, ready⟩, latest,
        (onward.grows.trans grows).trans grows', .marked marked ready⟩
  · intro t trodden' onward absent
    obtain ⟨l, at_, _⟩ := onward.grows.record? holds
    rw [grown.path, absent] at at_
    cases at_

theorem looking_expand (trodden : m.Trodden scope traces origin s)
    (left : traces (.expanded n.path))
    (there : ∃ k, s.Holds k ∧ n.Grown m k) (isFolder : n.isFolder = true) :
    (m.expand n).Ends (Setting.looking m scope traces origin) [] s fun result t =>
      m.Trodden scope traces origin t ∧ s.Grows m t ∧ m.Expands origin t n.path result := by
  obtain ⟨k, holds, grown⟩ := there
  refine ends_ite (fun ready => ends_pure ⟨trodden, .refl s, .marked ?_ (grown.generated ready)⟩)
    fun _ => ends_withLock rfl ?_
  · rw [← grown.path]
    exact holds
  · rintro t ⟨trodden', onward⟩ shut
    obtain ⟨l, stands, grown'⟩ := onward.grows k holds
    have there := grown.trans grown'
    refine (looking_expandLocked wf within trodden' left ⟨l, stands, there⟩ isFolder shut).mono ?_
    rintro result u ⟨shut', trodden'', grows, expands⟩
    exact ⟨shut', trodden'', onward.grows.trans grows, expands⟩

theorem looking_decide {probability : Binary64} (there : ∃ k, s.Holds k ∧ n.Grown m k)
    (below : n.parent ≠ none) (missing : n.existence[name]? = none)
    (configured : m.worlds.entries[name]? = some probability)
    (left : traces (.decided n.path name)) :
    (call (.change n.path (.decision name (existsIn n.id name probability)))).Ends
      (Setting.looking m scope traces origin) [] s fun result t => m.Trodden scope traces origin t ∧
        s.Grows m t ∧ ∃ k, t.Holds k ∧ k.path = n.path ∧
          k.existence[name]? = some (existsIn n.id name probability) ∧ result = .ok (some k) := by
  refine ends_call ?_
  rintro t ⟨trodden, onward⟩
  obtain ⟨k, holds, grown⟩ := there
  obtain ⟨l, there, grown'⟩ := onward.grows k holds
  have grown := grown.trans grown'
  have draws := m.draws_configured n.id configured
  have suits : (Store.Change.decision name (existsIn n.id name probability)).Suits m scope l :=
    ⟨by rw [grown.like.place.parent]; exact below, probability, configured,
      by rw [grown.like.place.id]⟩
  rw [← grown.path] at left ⊢
  cases new : (Store.Change.decision name (existsIn n.id name probability)).apply l with
  | none =>
    simp only [Store.perform, trodden.regular.charted.update_unchanged there new]
    exact ⟨⟨.same, fun path put => absurd put List.not_mem_nil⟩, trodden,
      onward.grows, l, there, rfl,
      Store.Change.decision_kept below missing draws grown.like new, rfl⟩
  | some l' =>
    have looked : t.Looked m scope traces [] (t.replaced l') := .decided there suits new left
    have same := (Node.Grown.decision suits new).path
    have proper := (suits.fits within).proper new (trodden.regular.sound.proper there).1
    have stands : (t.replaced l').Holds l' :=
      (Store.record?_replaced proper l'.path).trans (if_pos rfl)
    simp only [Store.perform, trodden.regular.charted.update_changed there new same]
    refine ⟨⟨looked, fun path put => absurd put List.not_mem_nil⟩, looked.trodden trodden wf within,
      onward.grows.trans (looked.grows trodden.regular within), l', stands, same, ?_, rfl⟩
    rw [(Store.Change.decision_cases new).2]
    simp

theorem looking_isVisible (trodden : m.Trodden scope traces origin s)
    (recalls : m.Recalls origin s d n)
    (left : ∀ decider, world = .named decider → traces (.decided n.path decider)) :
    (m.isVisible n world).Ends (Setting.looking m scope traces origin) [] s fun result t =>
      result = m.sees n world ∧ m.Trodden scope traces origin t ∧ s.Grows m t ∧
        ∀ decider, world = .named decider → m.Bears origin t (.decided n.path decider) := by
  unfold Materializer.isVisible
  split
  · rename_i decided decision
    refine ends_pure ⟨(m.sees_of_decision decision).symm, trodden, .refl s, ?_⟩
    rintro decider rfl
    obtain ⟨k, holds, grown⟩ := recalls.there
    refine recalls.bears fun below => Or.inr ⟨k, holds, grown.path, ?_⟩
    simp only [Node.decision?, Node.isRoot_eq_false below, Bool.false_eq_true, if_false] at decision
    rw [grown.decided decider decided decision]
    exact Option.some_ne_none _
  · exact ends_pure ⟨rfl, trodden, .refl s, fun _ same => by cases same⟩
  · rename_i name decision
    have below : n.parent ≠ none := by
      intro top
      simp [Node.decision?, Node.isRoot, top] at decision
    have missing : n.existence[name]? = none := by
      simpa [Node.decision?, Node.isRoot_eq_false below] using decision
    have asked : m.worlds.probability? (.named name) = m.worlds.entries[name]? := rfl
    rw [asked, m.sees_open below missing]
    cases configured : m.worlds.entries[name]? with
    | none =>
      have failed := m.draws_unconfigured n.id configured
      refine ends_throw ⟨failed.symm, trodden, .refl s, ?_⟩
      rintro decider same
      cases same
      exact recalls.bears fun _ => Or.inl ⟨_, failed⟩
    | some probability =>
      refine ends_bind ((looking_decide wf within recalls.there below missing configured
        (left name rfl)).mono ?_)
      rintro _ t ⟨trodden', grows, k, holds, place, kept, rfl⟩
      refine ends_bind (ends_tell (ends_pure ⟨?_, trodden', grows, ?_⟩))
      · rw [Option.bind_some, kept, m.draws_configured n.id configured]
        rfl
      · rintro decider same
        cases same
        exact (recalls.later grows).bears fun _ => Or.inr ⟨k, holds, place, by
          rw [kept]
          exact Option.some_ne_none _⟩

end Looking

end SeedTree
