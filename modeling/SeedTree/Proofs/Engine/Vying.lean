import SeedTree.Proofs.Engine.Contest

/- Walks in the course of a contest. They never fill the contested place, and they lead to what was
   shown at first. -/
namespace SeedTree

open Attempt

/-- A store in the course of a contest, and whether a call of one's own has filled the place. -/
structure Contender where
  store : Store
  won : Bool

namespace Contest

structure Waits (x : Contest) (a b : Contender) : Prop where
  leads : x.Leads a.store b.store
  won : b.won = a.won

def after (x : Contest) (a : Contender) (t : Store) : Contender :=
  ⟨t, a.won || ((a.store.record? x.place).isNone && (t.record? x.place).isSome)⟩

structure Recalls (x : Contest) (s : Store) (n : Node) : Prop where
  there : ∃ k, s.Holds k ∧ n.Ripens x.materializer k
  fixed : n.path = x.place → s.Holds n

/-- What a walk from a node finds: a node that was on record, where it was to lead. What was found
there at first is found. -/
structure Finds (x : Contest) (world : World) (names : List String) (n : Node)
    (result : Except Failure Node) (s : Store) : Prop where
  recalls : ∀ k, result = .ok k → x.Recalls s k ∧ k.path = names.foldl Path.join n.path
  found : ∀ d d', x.materializer.shows x.origin n.path = .ok (some d) →
    Picture.walk (x.materializer.shows x.origin) x.materializer world names d = .ok d' →
      ∃ k, result = .ok k ∧ d'.Like x.materializer k

end Contest

abbrev Setting.vying (x : Contest) : Setting where
  State := Contender
  store := Contender.store
  after := x.after
  meanwhile := fun _ => x.Waits
  allows := fun _ a call => call.Lawful x.scope x.materializer.parameters ∧
    x.Leads a.store (a.store.perform call).2
  awaits := fun held _ => held = []

/-- An attempt ends in a contest without filling the contested place. -/
def Attempt.Vies {α : Type} (x : Contest) (held : List String) (a : Contender) (attempt : Attempt α)
    (post : Except Failure α → Store → Prop) : Prop :=
  attempt.Ends (Setting.vying x) held a fun result b => x.Waits a b ∧ post result b.store

variable {x : Contest} {s t : Store} {a b c : Contender} {n k d : Node} {held : List String}
  {path name : String} {world : World} {α β : Type}

namespace Contest

theorem Waits.trans (early : x.Waits a b) (late : x.Waits b c) : x.Waits a c :=
  ⟨early.leads.trans late.leads, late.won.trans early.won⟩

theorem Sound.waits (sound : x.Sound a.store) : x.Waits a a := ⟨sound.passes.leads, rfl⟩

theorem Passes.waits (passes : x.Passes a.store t) : x.Waits a (x.after a t) := by
  refine ⟨passes.leads, ?_⟩
  rw [after, passes.untouched]
  cases a.store.record? x.place <;> simp

namespace Recalls

theorem later (recalls : x.Recalls s n) (leads : x.Leads s t) : x.Recalls t n where
  there := by
    obtain ⟨k, holds, ripens⟩ := recalls.there
    obtain ⟨l, there, ripens'⟩ := leads.ripens k holds
    exact ⟨l, there, ripens.trans ripens'⟩
  fixed := by
    intro here
    have holds := recalls.fixed here
    rw [Store.Holds, here] at holds ⊢
    exact leads.stays n holds

theorem founded (recalls : x.Recalls s n) (sound : x.Sound s)
    (here : n.path = x.place) : x.Founded n :=
  sound.founded n (here ▸ recalls.fixed here)

theorem like (recalls : x.Recalls s n) (sound : x.Sound s)
    (shown : x.materializer.shows x.origin n.path = .ok (some d)) (elsewhere : n.path ≠ x.place) :
    d.Like x.materializer n := by
  obtain ⟨k, holds, ripens⟩ := recalls.there
  obtain ⟨d', shown', ripens'⟩ := sound.shown k holds (by rw [ripens.path]; exact elsewhere)
  rw [ripens.path, shown] at shown'
  cases shown'
  exact ripens'.like.trans ripens.like.symm

theorem onward {more : List String} {d' : Node} (recalls : x.Recalls s n)
    (fair : x.Open) (sound : x.Sound s)
    (shown : x.materializer.shows x.origin n.path = .ok (some d))
    (walks : Picture.walk (x.materializer.shows x.origin) x.materializer world
      (name :: more) d = .ok d') :
    n.isFolder = true ∧ ∃ child, x.materializer.shows x.origin
      (Path.join n.path name) = .ok (some child) ∧
      x.materializer.sees child world = .ok true ∧
      Picture.walk (x.materializer.shows x.origin) x.materializer world more child = .ok d' := by
  have like := recalls.like sound shown (fair.elsewhere shown)
  rw [like.isFolder, like.place.path]
  exact Picture.of_walk_cons walks

end Recalls

theorem finds_of_missing {names : List String} {failure : Failure}
    (missing : ∀ d d', x.materializer.shows x.origin n.path = .ok (some d) →
      Picture.walk (x.materializer.shows x.origin) x.materializer world names d ≠ .ok d') :
    x.Finds world names n (.error failure) s :=
  ⟨fun _ same => (by cases same), fun d d' shown walks => absurd walks (missing d d' shown)⟩

theorem recalls_of_holds (holds : s.Holds n) : x.Recalls s n :=
    ⟨⟨n, holds, .refl n⟩, fun _ => holds⟩

end Contest

section Parts

variable {first : Except Failure α → Store → Prop} {post : Except Failure β → Store → Prop}

theorem Attempt.Vies.mono {attempt : Attempt α} {second : Except Failure α → Store → Prop}
    (vies : attempt.Vies x held a first)
    (implies : ∀ result b, x.Waits a b → first result b.store → second result b.store) :
    attempt.Vies x held a second :=
  Ends.mono vies fun result b known => ⟨known.1, implies result b known.1 known.2⟩

theorem vying_bind {attempt : Attempt α} {f : α → Attempt β} (vies : attempt.Vies x held a first)
    (failed : ∀ b failure, x.Waits a b → first (.error failure) b.store →
      post (.error failure) b.store)
    (leads : ∀ b r, x.Waits a b → first (.ok r) b.store → (f r).Vies x held b post) :
    (attempt >>= f).Vies x held a post := by
  refine ends_bind (Ends.mono vies ?_)
  rintro result b ⟨waits, known⟩
  cases result with
  | error failure => exact ⟨waits, failed b failure waits known⟩
  | ok r => exact Ends.mono (leads b r waits known) fun _ _ last => ⟨waits.trans last.1, last.2⟩

theorem vying_then {attempt : Attempt α} {f : α → Attempt β} {first : α → Store → Prop}
    (vies : attempt.Vies x held a fun result s => ∃ r, result = .ok r ∧ first r s)
    (leads : ∀ b r, x.Waits a b → first r b.store → (f r).Vies x held b post) :
    (attempt >>= f).Vies x held a post :=
  vying_bind vies (fun _ _ _ known => by obtain ⟨_, ⟨⟩, _⟩ := known) fun b r waits known => by
    obtain ⟨_, ⟨⟩, known⟩ := known
    exact leads b _ waits known

theorem vying_pure {r : β} (sound : x.Sound a.store) (known : post (.ok r) a.store) :
    (pure r : Attempt β).Vies x held a post := ends_pure ⟨sound.waits, known⟩

theorem vying_throw {failure : Failure} (sound : x.Sound a.store)
    (known : post (.error failure) a.store) :
    (throw failure : Attempt β).Vies x held a post := ends_throw ⟨sound.waits, known⟩

theorem vying_ite {c : Prop} [Decidable c] {yes no : Attempt β} (holds : c → yes.Vies x held a post)
    (fails : ¬ c → no.Vies x held a post) : (if c then yes else no).Vies x held a post :=
    ends_ite holds fails

theorem vying_tell {event : Event} {post : Except Failure Unit → Store → Prop}
    (sound : x.Sound a.store)
    (known : post (.ok ()) a.store) : (tell event).Vies x held a post :=
    ends_tell ⟨sound.waits, known⟩

theorem vying_told {event : Event} (sound : x.Sound a.store) :
    (tell event).Vies x held a fun result _ => ∃ r, result = .ok r ∧ True :=
      vying_tell sound ⟨(), rfl, trivial⟩

theorem vying_now (sound : x.Sound a.store) :
    now.Vies x held a fun result s =>
      ∃ time, result = .ok time ∧ time.isValid = true ∧ s = a.store :=
  ends_now fun time valid => ⟨sound.waits, time, rfl, valid, rfl⟩

theorem vying_discard {attempt : Attempt α} {post : Except Failure Unit → Store → Prop}
    (vies : attempt.Vies x held a fun result s => post (result.map fun _ => ()) s) :
    (discard attempt).Vies x held a post := ends_discard vies

theorem vying_withLock {attempt : Attempt β} (free : held = [])
    (vies : ∀ b, x.Waits a b → attempt.Vies x (path :: held) b post) :
    (withLock path attempt).Vies x held a post := by
  refine ends_withLock free fun b waits _ => ?_
  exact Ends.mono (vies b waits) fun _ _ known => ⟨trivial, waits.trans known.1, known.2⟩

theorem vying_call {call : Store.Call} {post : Except Failure call.Answer → Store → Prop}
    (steps : ∀ b, x.Waits a b → call.Lawful x.scope x.materializer.parameters ∧
      x.Passes b.store (b.store.perform call).2 ∧
      post ((b.store.perform call).1.mapError Failure.storage) (b.store.perform call).2) :
    (Attempt.call call).Vies x held a post := by
  refine ends_call fun b waits => ?_
  obtain ⟨lawful, passes, known⟩ := steps b waits
  exact ⟨⟨lawful, passes.leads⟩, waits.trans passes.waits, known⟩

theorem vying_get : (get path).Vies x held a fun result s => result = .ok (s.record? path) := by
  refine vying_call fun b waits => ⟨trivial, waits.leads.sound.passes, ?_⟩
  simp only [Store.perform, waits.leads.sound.regular.sound.get]
  rfl

theorem vying_getOr {failure : Failure} : (getOr path failure).Vies x held a fun result s =>
    (∃ n, result = .ok n ∧ s.record? path = some n) ∨
      (result = .error failure ∧ s.record? path = none) := by
  refine vying_bind vying_get (fun _ _ _ known => by cases known) fun b found waits known => ?_
  cases found with
  | none => exact vying_throw waits.leads.sound (Or.inr ⟨rfl, (Except.ok.inj known).symm⟩)
  | some n => exact vying_pure waits.leads.sound (Or.inl ⟨n, rfl, (Except.ok.inj known).symm⟩)

theorem vying_reread {failure : Failure} (sound : x.Sound a.store)
    (there : ∃ n, a.store.record? path = some n) :
    (getOr path failure).Vies x held a fun result s =>
      ∃ n, result = .ok n ∧ s.record? path = some n := by
  refine vying_getOr.mono fun result b waits known => ?_
  rcases known with found | ⟨_, absent⟩
  · exact found
  · obtain ⟨n, found⟩ := there
    obtain ⟨k, there⟩ := waits.leads.record? sound found
    rw [absent] at there
    cases there

end Parts

section Walking

variable (fair : x.Open) (sound : x.Sound a.store)

include fair sound

section Unfolding

variable {specs rest : List ChildSpec} {time : Moment} (unfolds : x.Unfolds n specs)

include unfolds

omit sound in
theorem vying_put {spec : ChildSpec} (valid : time.isValid = true) (member : spec ∈ specs) :
    (discard (call (.putIfAbsent (x.materializer.generatedChild n time spec)))).Vies x held a
      fun result s => ∃ r, result = .ok r ∧
        ∃ c, s.record? (Path.join n.path spec.name) = some c := by
  refine vying_discard (vying_call fun b waits => ?_)
  have sound := waits.leads.sound
  have proper := (unfolds.child fair valid member).1
  cases present : b.store.record? (x.materializer.generatedChild n time spec).path with
  | none =>
    simp only [Store.perform, sound.regular.charted.putIfAbsent_absent present]
    exact ⟨proper, unfolds.put fair sound valid member present, (), rfl, _,
      (Store.record?_insertNode proper _).trans (if_pos rfl)⟩
  | some c =>
    simp only [Store.perform, sound.regular.charted.putIfAbsent_present present]
    exact ⟨proper, sound.passes, (), rfl, c, present⟩

theorem vying_fill (valid : time.isValid = true) (among : ∀ spec ∈ rest, spec ∈ specs) :
    (rest.forM fun spec => discard
      (call (.putIfAbsent (x.materializer.generatedChild n time spec)))).Vies x
      held a fun result s => ∃ r, result = .ok r ∧
        ∀ spec ∈ rest, ∃ c, s.record? (Path.join n.path spec.name) = some c := by
  induction rest generalizing a with
  | nil => exact vying_pure sound ⟨(), rfl, fun _ none => absurd none List.not_mem_nil⟩
  | cons spec rest ih =>
    obtain ⟨member, among⟩ := List.forall_mem_cons.mp among
    refine vying_then (vying_put fair unfolds valid member) fun b _ waits there => ?_
    obtain ⟨c, there⟩ := there
    refine (ih waits.leads.sound among).mono fun result b' waits' known => ?_
    obtain ⟨r, rfl, full⟩ := known
    exact ⟨r, rfl, List.forall_mem_cons.mpr ⟨waits'.leads.record? waits.leads.sound there, full⟩⟩

omit fair in
theorem vying_mark (elsewhere : n.path ≠ x.place) (there : ∃ k, a.store.record? n.path = some k)
    (full : ∀ spec ∈ specs, ∃ c, a.store.record? (Path.join n.path spec.name) = some c) :
    (discard (call (.change n.path .markGenerated))).Vies x held a fun result s =>
      ∃ r, result = .ok r ∧
      ∃ k, s.record? n.path = some k ∧ k.generated = true := by
  refine vying_discard (vying_call fun b waits => ?_)
  have sound' := waits.leads.sound
  obtain ⟨k, early⟩ := there
  obtain ⟨l, found⟩ := waits.leads.record? sound early
  obtain ⟨holds, place⟩ := sound'.holds found
  have full' : ∀ spec ∈ specs, ∃ c, b.store.record? (Path.join n.path spec.name) = some c := by
    intro spec member
    obtain ⟨c, there⟩ := full spec member
    exact waits.leads.record? sound there
  cases ready : l.generated with
  | true =>
    have same : Store.Change.markGenerated.apply l = none := by
      simp only [Store.Change.apply, ready, if_true]
    simp only [Store.perform, sound'.regular.charted.update_unchanged found same]
    exact ⟨trivial, sound'.passes, (), rfl, l, found, ready⟩
  | false =>
    have new : Store.Change.markGenerated.apply l = some l.expanded := by
      simp only [Store.Change.apply, ready, Bool.false_eq_true, if_false]
      rfl
    have proper := (sound'.regular.sound.proper found).1.expanded
    simp only [Store.perform, sound'.regular.charted.update_changed found new rfl]
    refine ⟨trivial, unfolds.mark sound' holds place elsewhere full', (), rfl, l.expanded, ?_, rfl⟩
    exact (Store.record?_replaced proper _).trans (if_pos place.symm)

end Unfolding

theorem vying_expandLocked (elsewhere : path ≠ x.place)
    (there : ∃ k, a.store.record? path = some k ∧ k.isFolder = true) :
    (x.materializer.expandLocked path).Vies x held a fun result s =>
      x.materializer.Expands x.origin s path result := by
  obtain ⟨k, early, isFolder⟩ := there
  have known : (getOr path (.missing path)).Vies x held a fun result s => ∃ r, result = .ok r ∧
      s.record? path = some r ∧ r.isFolder = true := by
    refine (vying_reread sound ⟨k, early⟩).mono fun result b waits known => ?_
    obtain ⟨r, rfl, found⟩ := known
    obtain ⟨l, holds, ripens⟩ := waits.leads.ripens k (sound.holds early).1
    have same : r = l := by
      rw [Store.Holds, ripens.path, (sound.holds early).2, found] at holds
      exact Option.some.inj holds
    exact ⟨r, rfl, found, by rw [same, ripens.like.isFolder, isFolder]⟩
  refine vying_then known fun b n waits here => ?_
  obtain ⟨found, isFolder⟩ := here
  have sound := waits.leads.sound
  obtain ⟨holds, rfl⟩ := sound.holds found
  refine vying_ite (fun ready => vying_tell sound (.marked found ready)) fun stale => ?_
  have fresh : n.generated = false := by simpa using stale
  have promised : ∀ name, Path.IsName name →
      x.materializer.shows x.origin (Path.join n.path name) = x.materializer.promised n name :=
    fun name named => sound.promised fair holds elsewhere isFolder fresh named
  have drawn : Children.generate? Draw.patience x.materializer.parameters n.path n.depth
      = x.materializer.specs? n := rfl
  rw [drawn]
  cases drawn : x.materializer.specs? n with
  | none =>
    refine vying_throw sound (.unending fun name named => ?_)
    rw [promised name named, Materializer.promised, drawn]
  | some specs =>
    have unfolds : x.Unfolds n specs :=
      ⟨(sound.regular.sound.proper found).1, isFolder, fresh, drawn, promised⟩
    refine vying_then (vying_now sound) fun b' time waits' stamped => ?_
    obtain ⟨valid, same⟩ := stamped
    rw [← same] at sound found
    refine vying_then (vying_fill fair sound unfolds valid fun _ member => member)
      fun c _ waits'' full => ?_
    refine vying_then (vying_mark waits''.leads.sound unfolds elsewhere
      (waits''.leads.record? sound found) full) fun c' _ last there => ?_
    obtain ⟨l, marked, ready⟩ := there
    exact vying_tell last.leads.sound (.marked marked ready)

theorem vying_expand (recalls : x.Recalls a.store n) (isFolder : n.isFolder = true) :
    (x.materializer.expand n).Vies x [] a fun result s =>
      x.materializer.Expands x.origin s n.path result := by
  obtain ⟨k, holds, ripens⟩ := recalls.there
  have found : a.store.record? n.path = some k := ripens.path ▸ holds
  refine vying_ite
    (fun ready => vying_pure sound (.marked found (ripens.generated ready))) fun stale => ?_
  refine vying_withLock rfl fun b waits => ?_
  have elsewhere : n.path ≠ x.place := fun here => stale (recalls.founded sound here).generated
  obtain ⟨l, there, ripens'⟩ := waits.leads.ripens k holds
  have ripens := ripens.trans ripens'
  refine vying_expandLocked fair waits.leads.sound elsewhere ⟨l, ripens.path ▸ there, ?_⟩
  rw [ripens.like.isFolder, isFolder]

omit sound in
theorem vying_decide {probability : Binary64} (recalls : x.Recalls a.store n)
    (elsewhere : n.path ≠ x.place) (below : n.parent ≠ none) (missing : n.existence[name]? = none)
    (configured : x.materializer.worlds.entries[name]? = some probability) :
    (call (.change n.path (.decision name (existsIn n.id name probability)))).Vies x held a
      fun result _ => ∃ r : Option Node, result = .ok r ∧
        ∃ k, r = some k ∧ k.existence[name]? = some (existsIn n.id name probability) := by
  refine vying_call fun b waits => ?_
  have sound := waits.leads.sound
  obtain ⟨k, holds, ripens⟩ := (recalls.later waits.leads).there
  have found : b.store.record? n.path = some k := ripens.path ▸ holds
  have draws := x.materializer.draws_configured n.id configured
  have suits : (Store.Change.decision name (existsIn n.id name probability)).Suits
      x.materializer x.scope k :=
    ⟨by rw [ripens.like.place.parent]; exact below, probability, configured,
      by rw [ripens.like.place.id]⟩
  refine ⟨suits.fits fair.within, ?_⟩
  cases new : (Store.Change.decision name (existsIn n.id name probability)).apply k with
  | none =>
    simp only [Store.perform, sound.regular.charted.update_unchanged found new]
    exact ⟨sound.passes, _, rfl, k, rfl,
      Store.Change.decision_kept below missing draws ripens.like new⟩
  | some l =>
    have same := (Node.Grown.decision suits new).path
    simp only [Store.perform, sound.regular.charted.update_changed found new same]
    refine ⟨sound.decides fair.within holds (ripens.path ▸ elsewhere) suits new, _, rfl, l, rfl, ?_⟩
    rw [(Store.Change.decision_cases new).2]
    simp

theorem vying_isVisible (recalls : x.Recalls a.store n) :
    (x.materializer.isVisible n world).Vies x held a fun result _ =>
      result = x.materializer.sees n world := by
  unfold Materializer.isVisible
  split
  · rename_i decided decision
    exact vying_pure sound (x.materializer.sees_of_decision decision).symm
  · exact vying_pure sound rfl
  · rename_i name decision
    have below : n.parent ≠ none := by
      intro top
      simp [Node.decision?, Node.isRoot, top] at decision
    have missing : n.existence[name]? = none := by
      simpa [Node.decision?, Node.isRoot_eq_false below] using decision
    have asked : x.materializer.worlds.probability? (.named name) =
      x.materializer.worlds.entries[name]? := rfl
    rw [asked, x.materializer.sees_open below missing]
    cases configured : x.materializer.worlds.entries[name]? with
    | none => exact vying_throw sound (x.materializer.draws_unconfigured n.id configured).symm
    | some probability =>
      have listed : name ∈ x.materializer.worlds.entries :=
        (mem_iff_getElem?_some _ _).mpr ⟨probability, configured⟩
      have elsewhere : n.path ≠ x.place :=
        fun here => (recalls.founded sound here).decided name listed missing
      refine vying_then (vying_decide fair recalls elsewhere below missing configured)
        fun b _ waits known => ?_
      obtain ⟨k, rfl, kept⟩ := known
      refine vying_then (vying_told waits.leads.sound) fun b' _ waits' _ =>
        vying_pure waits'.leads.sound ?_
      rw [Option.bind_some, kept, x.materializer.draws_configured n.id configured]
      rfl

theorem vying_intoChild {child : Node} {names : List String} {target : String}
    (recalls : x.Recalls a.store n) (stands : a.store.Holds child)
    (below : child.path = Path.join n.path name)
    (leads : ∀ b, x.Sound b.store → x.Recalls b.store child →
      (x.materializer.descend world names child).Vies x [] b (x.Finds world names child)) :
    (x.materializer.isVisible child world >>= fun visible =>
      if visible then x.materializer.descend world names child
      else Attempt.tell .hidden >>= fun _ => (throw (.missing target) : Attempt Node)).Vies x [] a
      (x.Finds world (name :: names) n) := by
  have here : x.Recalls a.store child := Contest.recalls_of_holds stands
  have inside : ∀ d d', x.materializer.shows x.origin n.path = .ok (some d) →
      Picture.walk (x.materializer.shows x.origin) x.materializer world (name :: names) d = .ok d' →
      x.materializer.sees child world = .ok true ∧
        ∃ k, x.materializer.shows x.origin child.path = .ok (some k) ∧
          Picture.walk (x.materializer.shows x.origin) x.materializer world names k = .ok d' := by
    intro d d' shown walks
    obtain ⟨_, k, found, seen, walks⟩ := recalls.onward fair sound shown walks
    rw [← below] at found
    rw [(here.like sound found (fair.elsewhere found)).sees]
    exact ⟨seen, k, found, walks⟩
  refine vying_bind (vying_isVisible fair sound here) ?_ ?_
  · intro b failure _ failed
    refine Contest.finds_of_missing fun d d' shown walks => ?_
    rw [(inside d d' shown walks).1] at failed
    cases failed
  · intro b visible waits seen
    refine vying_ite (fun _ => ?_) fun hidden => ?_
    · refine (leads b waits.leads.sound (here.later waits.leads)).mono fun result c _ finds =>
        ⟨?_, ?_⟩
      · rw [List.foldl_cons, ← below]
        exact finds.recalls
      · intro d d' shown walks
        obtain ⟨_, k, found, walks⟩ := inside d d' shown walks
        exact finds.found k d' found walks
    · refine vying_then (vying_told waits.leads.sound) fun _ _ later _ =>
        vying_throw later.leads.sound (Contest.finds_of_missing fun d d' shown walks => ?_)
      rw [(inside d d' shown walks).1] at seen
      exact absurd (Except.ok.inj seen) hidden

theorem vying_descend {names : List String} (valid : ∀ name ∈ names, Path.IsName name)
    (recalls : x.Recalls a.store n) :
    (x.materializer.descend world names n).Vies x [] a (x.Finds world names n) := by
  induction names generalizing a n with
  | nil =>
    refine vying_pure sound ⟨fun k same => ?_, fun d d' shown found => ?_⟩
    · cases same
      exact ⟨recalls, rfl⟩
    · cases found
      exact ⟨n, rfl, recalls.like sound shown (fair.elsewhere shown)⟩
  | cons name more ih =>
    obtain ⟨named, valid⟩ := List.forall_mem_cons.mp valid
    refine vying_ite (fun isFile => vying_throw sound (Contest.finds_of_missing ?_)) fun isFolder =>
      ?_
    · intro d d' shown walks
      rw [(recalls.onward fair sound shown walks).1] at isFile
      cases isFile
    have isFolder : n.isFolder = true := by simpa using isFolder
    refine vying_bind (vying_expand fair sound recalls isFolder) ?_ ?_
    · rintro b failure waits ⟨⟩
      rename_i unending
      refine Contest.finds_of_missing fun d d' shown walks => ?_
      obtain ⟨_, child, found, _⟩ := recalls.onward fair sound shown walks
      rw [unending name named] at found
      cases found
    · rintro b _ waits ⟨⟩
      rename_i host found ready
      refine vying_bind vying_getOr ?_ ?_
      · rintro c failure waits' known
        refine Contest.finds_of_missing fun d d' shown walks => ?_
        obtain ⟨_, child, found', _⟩ := recalls.onward fair sound shown walks
        obtain ⟨k, there⟩ := waits.leads.sound.has found (fair.elsewhere shown) ready named found'
        obtain ⟨l, there'⟩ := waits'.leads.record? waits.leads.sound there
        rcases known with ⟨_, ⟨⟩, _⟩ | ⟨_, absent⟩
        rw [absent] at there'
        cases there'
      · rintro c child waits' known
        obtain ⟨_, ⟨rfl⟩, there⟩ | ⟨⟨⟩, _⟩ := known
        have sound' := waits'.leads.sound
        obtain ⟨stands, below⟩ := sound'.holds there
        exact vying_intoChild fair sound'
          ((recalls.later waits.leads).later waits'.leads) stands below
          fun b sound here => ih sound valid here

theorem vying_resolve (normal : Path.IsNormal path) :
    (x.materializer.resolve path world).Vies x [] a fun result s =>
      (∀ k, result = .ok k → x.Recalls s k ∧ k.path = path) ∧
      ∀ d, Picture.resolve (x.materializer.shows x.origin) x.materializer world path = .ok d →
        ∃ k, result = .ok k ∧ d.Like x.materializer k := by
  refine vying_then (vying_reread sound sound.root) fun b top waits found => ?_
  have sound' := waits.leads.sound
  obtain ⟨holds, place⟩ := sound'.holds found
  refine (vying_descend fair sound' normal.components.1 (Contest.recalls_of_holds holds)).mono
    fun result c _ known => ?_
  refine ⟨fun k same => ?_, fun d resolves => ?_⟩
  · have recalls := known.recalls k same
    rw [place, normal.foldl_join] at recalls
    exact recalls
  · obtain ⟨first, shown, walks⟩ := of_bind_ok resolves
    cases first with
    | none => cases walks
    | some first => exact known.found first d (place ▸ shown) walks

theorem vying_visibleOf {children : List Node} (recalls : ∀ n ∈ children, x.Recalls a.store n) :
    (x.materializer.visibleOf world children).Vies x held a fun _ _ => True := by
  induction children generalizing a with
  | nil => exact vying_pure sound trivial
  | cons n more ih =>
    obtain ⟨first, recalls⟩ := List.forall_mem_cons.mp recalls
    refine vying_bind (vying_isVisible fair sound first)
      (fun _ _ _ _ => trivial) fun b visible waits _ => ?_
    refine vying_bind (ih waits.leads.sound fun k member => (recalls k member).later waits.leads)
      (fun _ _ _ _ => trivial) fun c _ later _ => vying_pure later.leads.sound trivial

theorem vying_list (normal : Path.IsNormal path) :
    (x.materializer.list path world).Vies x [] a fun _ _ => True := by
  refine vying_bind (vying_resolve fair sound normal)
    (fun _ _ _ _ => trivial) fun b n waits known => ?_
  have sound' := waits.leads.sound
  refine vying_ite (fun _ => vying_throw sound' trivial) fun isFolder => ?_
  refine vying_bind (vying_expand fair sound' (known.1 n rfl).1 (by simpa using isFolder))
    (fun _ _ _ _ => trivial) fun c _ later _ => ?_
  have listed : (call (.listChildren n.path)).Vies x [] c fun result s =>
      ∃ children, result = .ok children ∧ ∀ k ∈ children, s.Holds k := by
    refine vying_call fun b' waits' => ⟨trivial, waits'.leads.sound.passes, ?_⟩
    obtain ⟨children, listed, members, _⟩ := waits'.leads.sound.regular.charted.listChildren n.path
    simp only [Store.perform, listed]
    exact ⟨children, rfl, fun k member => ((members k).mp member).1⟩
  exact vying_then listed fun b' children later' holds =>
    vying_visibleOf fair later'.leads.sound fun k member =>
      Contest.recalls_of_holds (holds k member)

end Walking

end SeedTree
