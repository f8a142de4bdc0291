import SeedTree.Proofs.Engine.Chronicle
import SeedTree.Proofs.Engine.Answering

/- The operations on a store that other programs use too. Between two calls anything may happen to
   the store that the locks held do not forbid; every call is one that the others can allow for. -/
namespace SeedTree

open Attempt

variable {e : Engine} {m : Materializer} {scope : Scope} {p : Parameters} {c d : Chronicle}
  {n folder parent : Node} {held : List String} {path name input : String} {world : World}
  {α β : Type}

def Gives (c : Chronicle) (gives : Chronicle → α → Prop)
    (result : Except Failure α) (d : Chronicle) :
    Prop := c.Grows d ∧ ∀ a, result = .ok a → gives d a

abbrev Any (_ : Chronicle) (_ : α) : Prop := True

theorem gives_ok {gives : Chronicle → α → Prop} {a : α} (grows : c.Grows d) (known : gives d a) :
    Gives c gives (.ok a) d := ⟨grows, fun _ same => by cases same; exact known⟩

theorem gives_error {gives : Chronicle → α → Prop} {failure : Failure} (grows : c.Grows d) :
    Gives c gives (.error failure) d := ⟨grows, fun _ same => by cases same⟩

theorem Gives.earlier {b : Chronicle} {gives : Chronicle → α → Prop} {result : Except Failure α}
    (known : Gives c gives result d) (grows : b.Grows c) : Gives b gives result d :=
  ⟨grows.trans known.1, known.2⟩

theorem shared_bind {attempt : Attempt α} {f : α → Attempt β} {first : Chronicle → α → Prop}
    {second : Chronicle → β → Prop}
    (ends : attempt.Ends (Setting.shared scope p) held c (Gives c first))
    (leads : ∀ a d, c.Grows d → first d a →
      (f a).Ends (Setting.shared scope p) held d (Gives d second)) :
    (attempt >>= f).Ends (Setting.shared scope p) held c (Gives c second) := by
  refine ends_bind (ends.mono ?_)
  rintro result d ⟨grows, known⟩
  cases result with
  | ok a => exact (leads a d grows (known a rfl)).mono fun _ _ given => given.earlier grows
  | error failure => exact gives_error grows

theorem shared_then {attempt : Attempt α} {f : α → Attempt β} {gives : Chronicle → β → Prop}
    (ends : attempt.Ends (Setting.shared scope p) held c (Gives c Any))
    (leads : ∀ a d, c.Grows d → (f a).Ends (Setting.shared scope p) held d (Gives d gives)) :
    (attempt >>= f).Ends (Setting.shared scope p) held c (Gives c gives) :=
  shared_bind ends fun a d grows _ => leads a d grows

theorem shared_call {call : Store.Call}
    (allows : ∀ d, c.Waits scope p held d → d.Allows scope p held call) :
    (Attempt.call call).Ends (Setting.shared scope p) held c (Gives c Any) :=
  ends_call fun d waits => ⟨allows d waits, waits.grows.trans (d.grows_next _), fun _ _ => trivial⟩

theorem shared_discard {attempt : Attempt α} {gives : Chronicle → α → Prop}
    (ends : attempt.Ends (Setting.shared scope p) held c (Gives c gives)) :
    (discard attempt).Ends (Setting.shared scope p) held c (Gives c Any) :=
  ends_discard (ends.mono fun _ _ known => ⟨known.1, fun _ _ => trivial⟩)

theorem shared_any {attempt : Attempt α} {gives : Chronicle → α → Prop}
    (ends : attempt.Ends (Setting.shared scope p) held c (Gives c gives)) :
    attempt.Ends (Setting.shared scope p) held c (Gives c Any) :=
  ends.mono fun _ _ known => ⟨known.1, fun _ _ => trivial⟩

theorem shared_pure {a : α} {gives : Chronicle → α → Prop} (known : gives c a) :
    (pure a : Attempt α).Ends (Setting.shared scope p) held c (Gives c gives) :=
  ends_pure (gives_ok (.refl c) known)

theorem shared_throw {failure : Failure} {gives : Chronicle → α → Prop} :
    (throw failure : Attempt α).Ends (Setting.shared scope p) held c (Gives c gives) :=
  ends_throw (gives_error (.refl c))

theorem shared_tell {event : Event} :
    (tell event).Ends (Setting.shared scope p) held c (Gives c Any) :=
  ends_tell (gives_ok (.refl c) trivial)

theorem shared_fromPath {checked : Except PathFault α} :
    (fromPath checked).Ends (Setting.shared scope p) held c
      (Gives c fun d a => c = d ∧ checked = .ok a) := by
  cases checked with
  | ok a => exact shared_pure ⟨rfl, rfl⟩
  | error fault => exact shared_throw

theorem shared_fromWorld {checked : Except WorldFault α} :
    (fromWorld checked).Ends (Setting.shared scope p) held c
      (Gives c fun d a => c = d ∧ checked = .ok a) := by
  cases checked with
  | ok a => exact shared_pure ⟨rfl, rfl⟩
  | error fault => exact shared_throw

theorem shared_withLock {attempt : Attempt α} {gives : Chronicle → α → Prop}
    (ordered : Lock.Ordered held path)
    (ends : ∀ d, c.Grows d → attempt.Ends (Setting.shared scope p)
      (path :: held) d (Gives d gives)) :
    (withLock path attempt).Ends (Setting.shared scope p) held c (Gives c gives) :=
  ends_withLock ordered fun d waits _ =>
    (ends d waits.grows).mono fun _ _ known => ⟨trivial, known.earlier waits.grows⟩

theorem shared_get : (get path).Ends (Setting.shared scope p) held c (Gives c fun d found =>
    d.Waits scope p held d ∧ (∀ other ∈ held, c.now.Stays d.now other) ∧
      d.now.record? path = found) := by
  refine ends_call fun d waits => ⟨trivial, ?_⟩
  have regular : ∀ s ∈ (d.next d.now).moments, s.Regular scope p := by
    intro s moment
    rcases List.mem_cons.mp moment with rfl | old
    · exact waits.regular d.now List.mem_cons_self
    · exact waits.regular s old
  simp only [Store.perform, (waits.regular d.now List.mem_cons_self).sound.get]
  exact gives_ok (waits.grows.trans (d.grows_next _))
    ⟨Chronicle.waits_refl regular, waits.stays, rfl⟩

theorem shared_getOr {failure : Failure} : (getOr path failure).Ends (Setting.shared scope p) held c
    (Gives c fun d n => d.Recalls scope p n ∧ n.path = path ∧ d.now.Has path n.isFolder) := by
  refine shared_bind shared_get ?_
  rintro found d - ⟨waits, _, there⟩
  cases found with
  | none => exact shared_throw
  | some n =>
    obtain ⟨recalls, place⟩ := waits.recalls there
    exact shared_pure ⟨recalls, place, n, there, rfl⟩

theorem shared_now : now.Ends (Setting.shared scope p) held c
    (Gives c fun d time => c = d ∧ time.isValid = true) :=
  ends_now fun _ valid => gives_ok (.refl c) ⟨rfl, valid⟩

/-- A place that can be filled: what it lies in is locked, is there, and has been a folder. -/
structure Ready (held : List String) (c : Chronicle) (folder : String) : Prop where
  locked : folder ∈ held
  there : ∃ isFolder, c.now.Has folder isFolder
  was : c.WasFolder folder

theorem Ready.later {place : String} (ready : Ready held c place) (grows : c.Grows d)
    (stays : ∀ other ∈ held, c.now.Stays d.now other) : Ready held d place := by
  obtain ⟨isFolder, has⟩ := ready.there
  exact ⟨ready.locked, ⟨isFolder, (stays place ready.locked).kind _ has⟩, grows.wasFolder ready.was⟩

theorem shared_putIfAbsent {place : String} (ready : Ready held c place) (proper : n.Proper scope p)
    (unread : n.checksum = none) (below : n.parent = some place) :
    (call (.putIfAbsent n)).Ends (Setting.shared scope p) held c (Gives c fun d answer =>
      Ready held d place ∧ answer.1.path = n.path) := by
  refine ends_call fun d waits => ?_
  have later := ready.later waits.grows waits.stays
  have regular := waits.regular d.now List.mem_cons_self
  have lawful : (Store.Call.putIfAbsent n).Lawful scope p := proper
  have effect := regular.effect lawful
  obtain ⟨isFolder, has⟩ := later.there
  refine ⟨⟨⟨proper, unread⟩, place, later.locked, below, later.there, later.was⟩,
    waits.grows.trans (d.grows_next _), fun answer ok => ⟨⟨later.locked,
      ⟨isFolder, effect.has id has⟩, (d.grows_next _).wasFolder later.was⟩, ?_⟩⟩
  simp only [Store.perform] at ok
  cases found : d.now.record? n.path with
  | none =>
    rw [regular.charted.putIfAbsent_absent found] at ok
    cases ok
    rfl
  | some k =>
    rw [regular.charted.putIfAbsent_present found] at ok
    cases ok
    exact (regular.sound.proper found).2

theorem shared_putAll {place : String} {xs : List α} {f : α → Node} (ready : Ready held c place)
    (proper : ∀ x ∈ xs, (f x).Proper scope p) (unread : ∀ x ∈ xs, (f x).checksum = none)
    (below : ∀ x ∈ xs, (f x).parent = some place) :
    (xs.forM fun x => discard (call (.putIfAbsent (f x)))).Ends (Setting.shared scope p) held c
      (Gives c Any) := by
  induction xs generalizing c with
  | nil => exact shared_pure trivial
  | cons x xs ih =>
    obtain ⟨first, proper⟩ := List.forall_mem_cons.mp proper
    obtain ⟨plain, unread⟩ := List.forall_mem_cons.mp unread
    obtain ⟨at_, below⟩ := List.forall_mem_cons.mp below
    have put : (discard (call (.putIfAbsent (f x)))).Ends (Setting.shared scope p) held c
        (Gives c fun d _ => Ready held d place) := by
      refine ends_discard ((shared_putIfAbsent ready first plain at_).mono ?_)
      rintro result d ⟨grows, known⟩
      cases result with
      | ok answer => exact gives_ok grows (known answer rfl).1
      | error failure => exact gives_error grows
    exact shared_bind put fun _ d _ later => ih later proper unread below

section Walking

variable (within : m.worlds.Within scope)

include within

theorem shared_expand (recalls : c.Recalls scope m.parameters folder)
    (isFolder : folder.isFolder = true) : (m.expand folder).Ends
      (Setting.shared scope m.parameters) [] c (Gives c Any) := by
  have proper := recalls.proper
  unfold Materializer.expand
  refine ends_ite (fun _ => shared_pure trivial) fun stale => ?_
  have fresh : folder.generated = false := by simpa using stale
  refine shared_withLock Lock.ordered_nil fun d grows => ?_
  have was := grows.wasFolder (recalls.wasFolder isFolder)
  refine shared_bind shared_getOr ?_
  rintro current d' grows' ⟨there, place, has⟩
  have depth : current.depth = folder.depth := by
    rw [there.proper.shaped.depth, place, proper.shaped.depth]
  refine ends_ite (fun _ => shared_tell) fun _ => ?_
  have specs := Materializer.specs?_congr (m := m) place depth
  unfold Materializer.specs? at specs
  rw [specs]
  cases drawn : Children.generate? Draw.patience m.parameters folder.path folder.depth with
  | none => exact shared_throw
  | some specs =>
    refine shared_bind shared_now ?_
    rintro time _ - ⟨rfl, valid⟩
    rw [Materializer.generatedChild_congr place depth]
    have ready : Ready [folder.path] d' folder.path :=
      ⟨List.mem_cons_self, ⟨_, has⟩, grows'.wasFolder was⟩
    refine shared_bind (shared_putAll ready (fun spec member =>
      Materializer.proper_generatedChild within proper isFolder fresh drawn member valid)
      (fun _ _ => rfl) fun _ _ => rfl) fun _ _ _ _ => ?_
    exact shared_then (shared_discard (shared_call fun _ _ => ⟨trivial, trivial⟩)) fun _ _ _ =>
      shared_tell

theorem shared_isVisible : (m.isVisible n world).Ends (Setting.shared scope m.parameters) held c
    (Gives c Any) := by
  unfold Materializer.isVisible
  split
  · exact shared_pure trivial
  · exact shared_pure trivial
  · rename_i name _
    cases configured : m.worlds.probability? (.named name) with
    | none => exact shared_throw
    | some probability =>
      have listed : name ∈ scope.worlds :=
        within name ((mem_iff_getElem?_some _ _).mpr ⟨probability, configured⟩)
      exact shared_bind (shared_call fun _ _ => ⟨listed, trivial⟩) fun _ _ _ _ =>
        shared_then shared_tell fun _ _ _ => shared_pure trivial

theorem shared_descend {names : List String} {here : Node}
    (recalls : c.Recalls scope m.parameters here) : (m.descend world names here).Ends
      (Setting.shared scope m.parameters) [] c (Gives c fun d n =>
        d.Recalls scope m.parameters n ∧ n.path = names.foldl Path.join here.path) := by
  induction names generalizing c here with
  | nil => exact shared_pure ⟨recalls, rfl⟩
  | cons name more ih =>
    unfold Materializer.descend
    refine ends_ite (fun _ => shared_throw) fun isFolder => ?_
    refine shared_bind (shared_expand within recalls (by simpa using isFolder)) fun _ d _ _ => ?_
    refine shared_bind shared_getOr ?_
    rintro child d' - ⟨there, place, _⟩
    refine shared_bind (shared_isVisible within) fun visible d'' grows _ => ?_
    refine ends_ite (fun _ => ?_) fun _ => shared_then shared_tell fun _ _ _ => shared_throw
    rw [List.foldl_cons, ← place]
    exact ih (grows.recalls there)

theorem shared_resolve (normal : Path.IsNormal path) : (m.resolve path world).Ends
    (Setting.shared scope m.parameters) [] c (Gives c fun d n =>
      d.Recalls scope m.parameters n ∧ n.path = path) := by
  refine shared_bind shared_getOr ?_
  rintro root d - ⟨there, place, _⟩
  refine (shared_descend within there).mono fun result d known => ⟨known.1, fun n ok => ?_⟩
  obtain ⟨recalls, at_⟩ := known.2 n ok
  exact ⟨recalls, by rw [at_, place, normal.foldl_join]⟩

theorem shared_resolveFolder (normal : Path.IsNormal path) : (m.resolveFolder path world).Ends
    (Setting.shared scope m.parameters) [] c (Gives c fun d n =>
      d.Recalls scope m.parameters n ∧ n.path = path ∧ n.isFolder = true) := by
  refine shared_bind (shared_resolve within normal) ?_
  rintro n d - ⟨there, place⟩
  exact ends_ite (fun isFolder => shared_pure ⟨there, place, isFolder⟩) fun _ => shared_throw

theorem shared_visibleOf {children : List Node} : (m.visibleOf world children).Ends
    (Setting.shared scope m.parameters) held c (Gives c Any) := by
  induction children generalizing c with
  | nil => exact shared_pure trivial
  | cons n more ih =>
    exact shared_bind (shared_isVisible within) fun _ _ _ _ =>
      shared_bind ih fun _ _ _ _ => shared_pure trivial

theorem shared_list (normal : Path.IsNormal path) : (m.list path world).Ends
    (Setting.shared scope m.parameters) [] c (Gives c Any) := by
  refine shared_bind (shared_resolve within normal) ?_
  rintro n d - ⟨there, _⟩
  refine ends_ite (fun _ => shared_throw) fun isFolder => ?_
  refine shared_bind (shared_expand within there (by simpa using isFolder)) fun _ _ _ _ => ?_
  exact shared_bind (shared_call fun _ _ => trivial) fun _ _ _ _ => shared_visibleOf within

end Walking

end SeedTree
