import SeedTree.Proofs.Engine.Answering
import SeedTree.Proofs.Engine.Pairs

/- Operations that read, on a store and on the same store without a node that their world does not
   show. They end alike, whatever path they are asked for. -/
namespace SeedTree

open SeedTree.Path (Within)
open Attempt

variable {m : Materializer} {scope : Scope} {p : Parameters} {world top path : String} {sure : Prop}
  {a b : Site} {s t u : Store} {n folder : Node}

def Store.Later (s t : Store) : Prop :=
  ∀ path n, s.record? path = some n → ∃ k, t.record? path = some k ∧ Store.Change.Keeps n k

theorem Store.Later.refl (s : Store) : s.Later s := fun _ n found => ⟨n, found, .refl n⟩

theorem Store.Later.trans (first : s.Later t) (second : t.Later u) : s.Later u := by
  intro path n found
  obtain ⟨k, found', keeps⟩ := first path n found
  obtain ⟨l, found'', keeps'⟩ := second path k found'
  exact ⟨l, found'', keeps.trans keeps'⟩

namespace Attempt

section Calls

variable (paired : Site.Paired scope p world top sure a b)

include paired

theorem pairs_get {post : Except Failure (Option Node) → Site →
    Except Failure (Option Node) → Site → Prop} (outside : ¬ Within top path)
    (ends : ∀ here there, here.store = a.store → Site.Paired scope p world top sure here there →
      post (.ok (a.store.record? path)) here (.ok (a.store.record? path)) there) :
    (get path).Pairs (get path) a b post := by
  have pruned := paired.pruned
  refine pairs_call paired ?_ ?_ pruned fun here there same next => ends here there same next
  · simp only [Store.perform, pruned.regular.sound.get, Except.mapError]
  · simp only [Store.perform, pruned.regular'.sound.get,
      pruned.outside path outside, Except.mapError]

theorem pairs_getOr {failure : Failure}
    {post : Except Failure Node → Site → Except Failure Node → Site → Prop}
    (outside : ¬ Within top path)
    (present : ∀ n here there, here.store.record? path = some n → here.store = a.store →
      Site.Paired scope p world top sure here there → post (.ok n) here (.ok n) there)
    (absent : ∀ here there, Site.Paired scope p world top sure here there →
      post (.error failure) here (.error failure) there) :
    (getOr path failure).Pairs (getOr path failure) a b post := by
  refine pairs_bind (pairs_get paired outside fun here there same next => ?_)
  cases found : a.store.record? path with
  | none => exact pairs_throw (absent here there next)
  | some n => exact pairs_pure (present n here there (by rw [same, found]) same next)

theorem pairs_getOr_hidden {failure : Failure}
    {post : Except Failure Node → Site → Except Failure Node → Site → Prop}
    (ends : ∀ h here there, h.parent ≠ none → h.existence[world]? = some false →
      Site.Paired scope p world top sure here there → post (.ok h) here (.error failure) there) :
    (getOr top failure).Pairs (getOr top failure) a b post := by
  have pruned := paired.pruned
  obtain ⟨h, folder, hides⟩ := pruned.hides
  have below : h.parent ≠ none := by rw [hides.below]; exact Option.some_ne_none _
  have first : ((a.store.perform (.get top)).1).mapError Failure.storage = .ok (some h) := by
    simp only [Store.perform, pruned.regular.sound.get, hides.found, Except.mapError]
  have second : ((b.store.perform (.get top)).1).mapError Failure.storage = .ok none := by
    simp only [Store.perform, pruned.regular'.sound.get, pruned.inside top (Path.within_refl top),
      Except.mapError]
  exact pairs_bind (pairs_call paired first second pruned fun here there _ next =>
    ends h here there below hides.hidden next)

theorem pairs_putIfAbsent
    {post : Except Failure (Node × Bool) → Site → Except Failure (Node × Bool) → Site → Prop}
    (proper : n.Proper scope p) (outside : ¬ Within top n.path)
    (ends : ∀ x here there, Site.Paired scope p world top sure here there →
      post (.ok x) here (.ok x) there) :
    (call (.putIfAbsent n)).Pairs (call (.putIfAbsent n)) a b post := by
  have pruned := paired.pruned
  have same := pruned.outside _ outside
  cases found : a.store.record? n.path with
  | none =>
    have first := pruned.regular.charted.putIfAbsent_absent found
    have second := pruned.regular'.charted.putIfAbsent_absent (same.trans found)
    refine pairs_call paired ?_ ?_ ?_ fun here there _ next => ends (n, true) here there next
    · simp only [Store.perform, first, Except.mapError]
    · simp only [Store.perform, second, Except.mapError]
    · simp only [Store.perform, first, second]
      exact pruned.insertNode proper outside found
  | some k =>
    have first := pruned.regular.charted.putIfAbsent_present found
    have second := pruned.regular'.charted.putIfAbsent_present (same.trans found)
    refine pairs_call paired ?_ ?_ ?_ fun here there _ next => ends (k, false) here there next
    · simp only [Store.perform, first, Except.mapError]
    · simp only [Store.perform, second, Except.mapError]
    · simp only [Store.perform, first, second]
      exact pruned

theorem pairs_change {change : Store.Change}
    {post : Except Failure (Option Node) → Site → Except Failure (Option Node) → Site → Prop}
    (fits : change.Fits scope) (outside : ¬ Within top path)
    (ends : ∀ x here there, a.store.Later here.store →
      Site.Paired scope p world top sure here there →
      post (.ok x) here (.ok x) there) :
    (call (.change path change)).Pairs (call (.change path change)) a b post := by
  have pruned := paired.pruned
  have same := pruned.outside _ outside
  cases found : a.store.record? path with
  | none =>
    have first := pruned.regular.charted.update_absent found change.apply
    have second := pruned.regular'.charted.update_absent (same.trans found) change.apply
    refine pairs_call paired ?_ ?_ ?_ fun here there equal next => ends none here there ?_ next
    · simp only [Store.perform, first, Except.mapError]
    · simp only [Store.perform, second, Except.mapError]
    · simp only [Store.perform, first, second]
      exact pruned
    · rw [equal, Store.perform, first]
      exact .refl _
  | some n =>
    obtain ⟨proper, place⟩ := pruned.regular.sound.proper found
    cases new : change.apply n with
    | none =>
      have first := pruned.regular.charted.update_unchanged found new
      have second := pruned.regular'.charted.update_unchanged (same.trans found) new
      refine pairs_call paired ?_ ?_ ?_ fun here there equal next =>
        ends (some n) here there ?_ next
      · simp only [Store.perform, first, Except.mapError]
      · simp only [Store.perform, second, Except.mapError]
      · simp only [Store.perform, first, second]
        exact pruned
      · rw [equal, Store.perform, first]
        exact .refl _
    | some k =>
      have keeps := Store.Change.keeps new
      have proper' := fits.proper new proper
      have holds : a.store.Holds n := by rw [Store.Holds, place, found]
      have first := pruned.regular.charted.update_changed found new keeps.place.path
      have second := pruned.regular'.charted.update_changed (same.trans found) new keeps.place.path
      refine pairs_call paired ?_ ?_ ?_ fun here there equal next =>
        ends (some k) here there ?_ next
      · simp only [Store.perform, first, Except.mapError]
      · simp only [Store.perform, second, Except.mapError]
      · simp only [Store.perform, first, second]
        exact pruned.replaced holds (by rw [place]; exact outside) proper' keeps
      · intro other l there
        rw [equal, Store.perform, first, Store.record?_replaced proper']
        split
        · rename_i here
          rw [here, keeps.place.path, holds] at there
          cases there
          exact ⟨k, rfl, keeps⟩
        · exact ⟨l, there, .refl l⟩

end Calls

end Attempt

theorem Materializer.isVisible_decided (m : Materializer) {shown : World} {decided : Bool}
    (decision : n.decision? shown = some decided) : m.isVisible n shown = pure decided := by
  unfold Materializer.isVisible
  rw [decision]

theorem Node.decision?_hidden {h : Node} (below : h.parent ≠ none)
    (hidden : h.existence[world]? = some false) : h.decision? (.named world) = some false := by
  rw [Node.decision?, Node.isRoot_eq_false below, hidden]
  rfl

section Walking

variable (paired : Site.Paired scope m.parameters world top sure a b)
  (within : m.worlds.Within scope) (normal : Path.IsNormal top)

include paired within

theorem pairs_isVisible {shown : World}
    {post : Except Failure Bool → Site → Except Failure Bool → Site → Prop}
    (outside : ¬ Within top n.path)
    (ends : ∀ x here there, a.store.Later here.store →
      Site.Paired scope m.parameters world top sure here there → post x here x there) :
    (m.isVisible n shown).Pairs (m.isVisible n shown) a b post := by
  unfold Materializer.isVisible
  split
  · exact pairs_pure (ends _ a b (.refl _) paired)
  · exact pairs_pure (ends _ a b (.refl _) paired)
  · rename_i name _
    have asked : m.worlds.probability? (.named name) = m.worlds.entries[name]? := rfl
    rw [asked]
    cases configured : m.worlds.entries[name]? with
    | none => exact pairs_throw (ends _ a b (.refl _) paired)
    | some probability =>
      have fits : (Store.Change.decision name (existsIn n.id name probability)).Fits scope :=
        within name ((mem_iff_getElem?_some _ _).mpr ⟨probability, configured⟩)
      refine pairs_bind (pairs_change paired fits outside fun x here there later next => ?_)
      refine pairs_bind (pairs_tell next fun here' there' same next' => ?_)
      refine pairs_pure (ends _ here' there' ?_ next')
      rw [same]
      exact later

omit within in
theorem pairs_putAll {nodes : List ChildSpec} {f : ChildSpec → Node}
    (proper : ∀ x ∈ nodes, (f x).Proper scope m.parameters)
    (outside : ∀ x ∈ nodes, ¬ Within top (f x).path) :
    (nodes.forM fun x => discard (call (.putIfAbsent (f x)))).Pairs
      (nodes.forM fun x => discard (call (.putIfAbsent (f x)))) a b
      (Same scope m.parameters world top sure) := by
  induction nodes generalizing a b with
  | nil => exact pairs_pure ⟨rfl, paired⟩
  | cons x more ih =>
    obtain ⟨first, proper⟩ := List.forall_mem_cons.mp proper
    obtain ⟨apart, outside⟩ := List.forall_mem_cons.mp outside
    refine pairs_bind
      (pairs_bind (pairs_putIfAbsent paired first apart fun _ here there next => ?_))
    exact pairs_pure (ih next proper outside)

include normal

theorem pairs_expandLocked (outside : ¬ Within top path)
    (there : ∃ n, a.store.record? path = some n ∧ n.isFolder = true) :
    (m.expandLocked path).Pairs (m.expandLocked path) a b
      (Same scope m.parameters world top sure) := by
  refine pairs_bind (pairs_getOr paired outside (fun n here there' found same next => ?_)
    fun here there' next => pairs_throw ⟨rfl, next⟩)
  obtain ⟨k, stands, isFolder⟩ := there
  rw [same, stands] at found
  cases found
  obtain ⟨proper, place⟩ := next.pruned.regular.sound.proper (same ▸ stands)
  have outside' : ¬ Within top n.path := by rw [place]; exact outside
  have holds : here.store.Holds n := by rw [Store.Holds, place, same, stands]
  change (ite _ _ _ : Attempt Unit).Pairs (ite _ _ _) _ _ _
  cases ready : n.generated with
  | true =>
    rw [if_pos rfl]
    exact pairs_tell next fun _ _ _ after => ⟨rfl, after⟩
  | false =>
    rw [if_neg Bool.false_ne_true]
    split
    · exact pairs_throw ⟨rfl, next⟩
    · rename_i specs drawn
      refine pairs_bind (pairs_now next fun time here' there' valid next' => ?_)
      have proper' : ∀ spec ∈ specs, (m.generatedChild n time spec).Proper scope m.parameters :=
        fun spec member =>
          Materializer.proper_generatedChild within proper isFolder ready drawn member valid
      have apart : ∀ spec ∈ specs, ¬ Within top (m.generatedChild n time spec).path :=
        fun spec member => next.pruned.outside_fresh normal holds ready outside'
          (Children.generate?_isName drawn member)
      refine pairs_bind ((pairs_putAll next' proper' apart).mono ?_)
      rintro _ here'' x there'' ⟨rfl, next''⟩
      cases x with
      | error failure => exact pairs_throw ⟨rfl, next''⟩
      | ok done =>
        refine pairs_bind (pairs_bind (pairs_change next'' trivial outside' fun x _ _ _ last => ?_))
        exact pairs_pure (pairs_tell last fun _ _ _ after => ⟨rfl, after⟩)

theorem pairs_expand (outside : ¬ Within top folder.path)
    (there : ∃ n, a.store.record? folder.path = some n ∧ n.isFolder = true) :
    (m.expand folder).Pairs (m.expand folder) a b (Same scope m.parameters world top sure) := by
  unfold Materializer.expand
  split
  · exact pairs_pure ⟨rfl, paired⟩
  · refine pairs_withLock paired fun here _ same next => ?_
    exact pairs_expandLocked next within normal outside (by rw [same]; exact there)

structure Found (top : String) (s : Store) (n : Node) : Prop where
  outside : ¬ Within top n.path
  stands : ∃ k, s.record? n.path = some k ∧ Store.Change.Keeps n k

omit paired within normal in
theorem Found.later (found : Found top s n) (later : s.Later t) : Found top t n := by
  obtain ⟨k, stands, keeps⟩ := found.stands
  obtain ⟨l, stands', keeps'⟩ := later _ k stands
  exact ⟨found.outside, l, stands', keeps.trans keeps'⟩

def Finds (scope : Scope) (p : Parameters) (world top : String) (sure : Prop)
    (x : Except Failure Node) (here : Site) (y : Except Failure Node) (there : Site) : Prop :=
  y = x ∧ Site.Paired scope p world top sure here there ∧ ∀ n, x = .ok n → Found top here.store n

omit paired within normal in
theorem finds_failed {failure : Failure} (paired : Site.Paired scope p world top sure a b) :
    Finds scope p world top sure (.error failure) a (.error failure) b :=
  ⟨rfl, paired, fun _ ok => by cases ok⟩

theorem pairs_descend {names : List String} {here : Node} (valid : ∀ name ∈ names, Path.IsName name)
    (found : Found top a.store here) :
    (m.descend (.named world) names here).Pairs (m.descend (.named world) names here) a b
      (Finds scope m.parameters world top sure) := by
  induction names generalizing a b here with
  | nil =>
    refine pairs_pure ⟨rfl, paired, fun n ok => ?_⟩
    cases ok
    exact found
  | cons name more ih =>
    obtain ⟨named, valid⟩ := List.forall_mem_cons.mp valid
    unfold Materializer.descend
    split
    · exact pairs_throw (finds_failed paired)
    · rename_i isFolder
      have isFolder : here.isFolder = true := by simpa using isFolder
      obtain ⟨k, stands, keeps⟩ := found.stands
      have place : Path.IsNormal here.path := by
        obtain ⟨proper, same⟩ := paired.pruned.regular.sound.proper stands
        rw [← same]
        exact proper.shaped.normal
      refine pairs_bind ((pairs_expand paired within normal found.outside
        ⟨k, stands, keeps.isFolder.trans isFolder⟩).mono ?_)
      rintro _ a' x b' ⟨rfl, next⟩
      cases x with
      | error failure => exact pairs_throw (finds_failed next)
      | ok done =>
        change (getOr _ _ >>= _ : Attempt Node).Pairs (getOr _ _ >>= _) a' b' _
        by_cases hidden : Path.join here.path name = top
        · rw [hidden]
          refine pairs_bind (pairs_getOr_hidden next fun h c d below decided after => ?_)
          change (m.isVisible h (.named world) >>= _).Pairs
            (throw (.missing top) : Attempt Node) c d _
          rw [m.isVisible_decided (Node.decision?_hidden below decided)]
          refine pairs_first ?_
          exact pairs_tell_first after fun c' last => pairs_throw (finds_failed last)
        · have apart : ¬ Within top (Path.join here.path name) := by
            rw [Path.within_join_iff normal place named]
            exact fun within => within.elim found.outside hidden
          refine pairs_bind (pairs_getOr next apart (fun child c d there _ after => ?_)
            fun c d after => pairs_throw (finds_failed after))
          obtain ⟨_, path⟩ := after.pruned.regular.sound.proper there
          have apart' : ¬ Within top child.path := by rw [path]; exact apart
          have found' : Found top c.store child := ⟨apart', child, by rw [path, there], .refl child⟩
          refine pairs_bind (pairs_isVisible after within apart' fun x c' d' later after' => ?_)
          cases x with
          | error failure => exact pairs_throw (finds_failed after')
          | ok visible =>
            cases visible with
            | true => exact ih after' valid (found'.later later)
            | false =>
              exact pairs_bind (pairs_tell after' fun _ _ _ last => pairs_throw (finds_failed last))

theorem pairs_resolve {path : String} (valid : Path.IsNormal path) :
    (m.resolve path (.named world)).Pairs (m.resolve path (.named world)) a b
      (Finds scope m.parameters world top sure) := by
  have below : top ≠ Path.root := by
    rintro rfl
    obtain ⟨h, folder, hides⟩ := paired.pruned.hides
    obtain ⟨proper, place⟩ := paired.pruned.regular.sound.proper hides.found
    have none := proper.shaped.parent_eq_none_iff.mpr place
    rw [hides.below] at none
    cases none
  refine pairs_bind
    (pairs_getOr paired (Path.not_within_root normal below) (fun root c d there _ next => ?_)
    fun c d next => pairs_throw (finds_failed next))
  obtain ⟨_, place⟩ := next.pruned.regular.sound.proper there
  refine pairs_descend next within normal valid.components.1
    ⟨?_, root, by rw [place, there], .refl root⟩
  rw [place]
  exact Path.not_within_root normal below

omit normal in
/-- A listing that is filtered in one run as it is in the other: the hidden node is left out by the
one and was never there in the other. -/
theorem pairs_visibleOf {nodes : List Node}
    (placed : ∀ n ∈ nodes, ¬ Within top n.path ∨ n.path = top ∧
      n.decision? (.named world) = some false) :
    (m.visibleOf (.named world) nodes).Pairs
      (m.visibleOf (.named world) (nodes.filter fun n => n.path ≠ top)) a b
      (Same scope m.parameters world top sure) := by
  induction nodes generalizing a b with
  | nil => exact pairs_pure ⟨rfl, paired⟩
  | cons n more ih =>
    obtain ⟨first, placed⟩ := List.forall_mem_cons.mp placed
    rcases first with outside | ⟨here, unseen⟩
    · have apart : n.path ≠ top := fun same => outside (by rw [same]; exact Path.within_refl top)
      rw [List.filter_cons_of_pos (by simpa using apart)]
      refine pairs_bind (pairs_isVisible paired within outside fun x c d _ next => ?_)
      cases x with
      | error failure => exact pairs_throw ⟨rfl, next⟩
      | ok visible =>
        refine pairs_bind ((ih next placed).mono ?_)
        rintro _ c' x d' ⟨rfl, last⟩
        cases x with
        | error failure => exact pairs_throw ⟨rfl, last⟩
        | ok rest => exact pairs_pure ⟨rfl, last⟩
    · rw [List.filter_cons_of_neg (by simpa using here)]
      change (m.isVisible n (.named world) >>= _).Pairs _ a b _
      rw [m.isVisible_decided unseen]
      exact pairs_first (pairs_left (ih paired placed))

theorem pairs_list {path : String} (valid : Path.IsNormal path) :
    (m.list path (.named world)).Pairs (m.list path (.named world)) a b
      (Same scope m.parameters world top sure) := by
  refine pairs_bind ((pairs_resolve paired within normal valid).mono ?_)
  rintro _ c x d ⟨rfl, next, found⟩
  cases x with
  | error failure => exact pairs_throw ⟨rfl, next⟩
  | ok folder =>
    obtain ⟨outside, k, stands, keeps⟩ := found folder rfl
    change (ite _ _ _ : Attempt _).Pairs (ite _ _ _) c d _
    cases isFolder : folder.isFolder with
    | false => exact pairs_throw ⟨rfl, next⟩
    | true =>
      rw [if_neg (by decide)]
      refine pairs_bind ((pairs_expand next within normal outside
        ⟨k, stands, keeps.isFolder.trans isFolder⟩).mono ?_)
      rintro _ c' x d' ⟨rfl, expanded⟩
      cases x with
      | error failure => exact pairs_throw ⟨rfl, expanded⟩
      | ok done =>
        have place : Path.IsNormal folder.path := by
          obtain ⟨proper, same⟩ := next.pruned.regular.sound.proper stands
          rw [← same]
          exact proper.shaped.normal
        obtain ⟨nodes, read, read', members⟩ := expanded.pruned.children normal place outside
        obtain ⟨h, above, hides⟩ := expanded.pruned.hides
        have first : ((c'.store.perform (.listChildren folder.path)).1).mapError Failure.storage =
            .ok nodes := by
          simp only [Store.perform, read, Except.mapError]
        have second : ((d'.store.perform (.listChildren folder.path)).1).mapError Failure.storage =
            .ok (nodes.filter fun n => n.path ≠ top) := by
          simp only [Store.perform, read', Except.mapError]
        refine pairs_bind (pairs_call expanded first second expanded.pruned fun c'' d'' _ last =>
          pairs_visibleOf last within fun n member => ?_)
        obtain ⟨holds, placed⟩ := members n member
        refine placed.imp_right fun here => ⟨here, ?_⟩
        rw [Store.Holds, here, hides.found] at holds
        cases holds
        exact Node.decision?_hidden (by rw [hides.below]; exact Option.some_ne_none _) hides.hidden

end Walking

section Reading

variable {e : Engine} {input : String}
  (paired : Site.Paired scope e.materializer.parameters world top sure a b)
  (within : e.materializer.worlds.Within scope) (normal : Path.IsNormal top)

theorem pairs_accept {α : Type} {f : String → Attempt α}
    {post : Except Failure α → Site → Except Failure α → Site → Prop}
    (fails : ∀ failure, post (.error failure) a (.error failure) b)
    (leads : ∀ path, Path.IsNormal path → (f path).Pairs (f path) a b post) :
    (fromWorld (e.worlds.check (.named world)) >>= fun _ =>
      fromPath (Path.normalize input) >>= f).Pairs
      (fromWorld (e.worlds.check (.named world)) >>= fun _ =>
        fromPath (Path.normalize input) >>= f) a b post := by
  cases checked : e.worlds.check (.named world) with
  | error fault => exact pairs_throw (fails _)
  | ok passed =>
    cases normalized : Path.normalize input with
    | error fault => exact pairs_throw (fails _)
    | ok path => exact leads path (Path.normalize_isNormal normalized)

include paired within

omit within in
theorem pairs_readContent {id : NodeId} (outside : ¬ Within top path)
    (entry : a.store.ids[id.bytes]? = some (utf8 path))
    (entry' : b.store.ids[id.bytes]? = some (utf8 path)) :
    (e.readContent id).Pairs (e.readContent id) a b
      (Same scope e.materializer.parameters world top sure) := by
  have pruned := paired.pruned
  have first : ((a.store.perform (.getById id)).1).mapError Failure.storage =
      .ok (a.store.record? path) := by
    simp only [Store.perform, Store.getById, entry, Bytes.toText_utf8, pruned.regular.sound.get,
      Except.mapError]
  have second : ((b.store.perform (.getById id)).1).mapError Failure.storage =
      .ok (a.store.record? path) := by
    simp only [Store.perform, Store.getById, entry', Bytes.toText_utf8, pruned.regular'.sound.get,
      pruned.outside path outside, Except.mapError]
  refine pairs_bind (pairs_call paired first second pruned fun c d same next => ?_)
  cases there : a.store.record? path with
  | none => exact pairs_throw ⟨rfl, next⟩
  | some n =>
    obtain ⟨_, place⟩ := pruned.regular.sound.proper there
    change (ite _ _ _ : Attempt _).Pairs (ite _ _ _) c d _
    split
    · exact pairs_throw ⟨rfl, next⟩
    · have short := isShort_checksum (fileContent n.id e.config.parameters.contentSeed n.upload)
      generalize checksumOf (fileContent n.id e.config.parameters.contentSeed n.upload) =
        text at short ⊢
      cases n.checksum with
      | some kept =>
        by_cases stale : kept ≠ text
        · simp only [if_pos stale]
          exact pairs_bind (pairs_tell next fun _ _ _ last => pairs_pure ⟨rfl, last⟩)
        · simp only [if_neg stale]
          exact pairs_bind (pairs_pure (pairs_pure ⟨rfl, next⟩))
      | none =>
        refine pairs_bind (pairs_bind (pairs_change next short (by rw [place]; exact outside)
          fun x c' d' _ last => ?_))
        exact pairs_pure (pairs_pure ⟨rfl, last⟩)

include normal

theorem pairs_getNode : (e.getNode input (.named world)).Pairs (e.getNode input (.named world)) a b
    (Finds scope e.materializer.parameters world top sure) :=
  pairs_accept (fun _ => finds_failed paired) fun _ valid =>
    pairs_resolve paired within normal valid

theorem pairs_listChildren : (e.listChildren input (.named world)).Pairs
    (e.listChildren input (.named world)) a b
      (Same scope e.materializer.parameters world top sure) :=
  pairs_accept (fun _ => ⟨rfl, paired⟩) fun _ valid => pairs_list paired within normal valid

theorem pairs_checksum (yes : sure) : (e.checksum input (.named world)).Pairs
    (e.checksum input (.named world)) a b
      (Same scope e.materializer.parameters world top sure) := by
  refine pairs_bind ((pairs_getNode paired within normal).mono ?_)
  rintro _ c x d ⟨rfl, next, found⟩
  cases x with
  | error failure => exact pairs_throw ⟨rfl, next⟩
  | ok n =>
    change (ite _ _ _ : Attempt _).Pairs (ite _ _ _) c d _
    split
    · exact pairs_throw ⟨rfl, next⟩
    · cases n.checksum with
      | some kept => exact pairs_pure ⟨rfl, next⟩
      | none =>
        obtain ⟨outside, k, stands, keeps⟩ := found n rfl
        obtain ⟨_, place⟩ := next.pruned.regular.sound.proper stands
        obtain ⟨path, apart, entry, entry'⟩ :=
          next.pruned.found yes k (by rw [Store.Holds, place, stands])
            (by rw [place]; exact outside)
        rw [keeps.place.id] at entry entry'
        refine pairs_bind ((pairs_readContent next apart entry entry').mono ?_)
        rintro _ c' x d' ⟨rfl, last⟩
        cases x with
        | error failure => exact pairs_throw ⟨rfl, last⟩
        | ok served => exact pairs_pure ⟨rfl, last⟩

end Reading

end SeedTree
