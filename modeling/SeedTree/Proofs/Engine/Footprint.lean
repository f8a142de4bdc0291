import SeedTree.Proofs.Engine.Operation

/- Where a mutation writes. Whatever the store answers on the way, a walk puts children into folders
   on its way and puts down decisions about nodes on its way, and what is done at the end of it is
   done at one path. -/
namespace SeedTree

/-- A call that puts nodes into some folders only, and changes and removes records at some paths
only. -/
def Store.Call.Keeps (fills alters : String → Prop) : Store.Call → Prop
  | .putIfAbsent n => ∃ folder, Path.parent? n.path = some folder ∧ fills folder
  | .change path _ | .delete path => alters path
  | _ => True

/-- Records have been altered at some paths only, and new ones are in some folders only. -/
structure Store.Confines (fills alters : String → Prop) (s t : Store) : Prop where
  stays : ∀ path n, ¬ alters path → s.record? path = some n → t.record? path = some n
  placed : ∀ path, s.record? path = none → t.record? path ≠ none →
    ∃ folder, Path.parent? path = some folder ∧ fills folder

namespace Store

variable {fills alters : String → Prop} {s t u : Store} {scope : Scope} {p : Parameters}

theorem Confines.refl (s : Store) : s.Confines fills alters s :=
  ⟨fun _ _ _ found => found, fun _ absent there => absurd absent there⟩

theorem Confines.trans (early : s.Confines fills alters t) (late : t.Confines fills alters u) :
    s.Confines fills alters u := by
  refine ⟨fun path n elsewhere found => late.stays path n elsewhere
    (early.stays path n elsewhere found), ?_⟩
  intro path absent there
  by_cases between : t.record? path = none
  · exact late.placed path between there
  · exact early.placed path absent between

theorem Regular.confines (regular : s.Regular scope p) {call : Call} (lawful : call.Lawful scope p)
    (keeps : call.Keeps fills alters) : s.Confines fills alters (s.perform call).2 := by
  have effect := regular.effect lawful
  generalize (s.perform call).2 = t at effect ⊢
  cases effect with
  | none nodes =>
    have same := record?_congr nodes
    exact ⟨fun path n _ found => (same path).trans found, fun path absent there =>
      absurd ((same path).trans absent) there⟩
  | @inserted n proper absent =>
    refine ⟨fun path k _ found => ?_, fun path missing there => ?_⟩
    · exact record?_insertNode_of_some proper absent found
    · rw [record?_insertNode proper] at there
      split at there
      · rename_i here
        exact here ▸ keeps
      · exact absurd missing there
  | @erased n holds =>
    refine ⟨fun path k elsewhere found => ?_, fun path missing there => ?_⟩
    · rw [record?_eraseNode, if_neg, found]
      rintro rfl
      exact elsewhere keeps
    · rw [record?_eraseNode] at there
      split at there <;> exact absurd (by first | rfl | exact missing) there
  | @replaced n k change holds proper applied =>
    have place := (Change.keeps applied).place.path
    refine ⟨fun path l elsewhere found => ?_, fun path missing there => ?_⟩
    · rw [record?_replaced proper, if_neg, found]
      rintro rfl
      exact elsewhere (place ▸ keeps)
    · rw [record?_replaced proper] at there
      split at there
      · rename_i here
        rw [here, place, holds] at missing
        cases missing
      · exact absurd missing there

end Store

/-- Before each call the store may become any regular one. -/
abbrev Setting.roaming (scope : Scope) (p : Parameters)
    (fills alters : String → Prop) : Setting where
  State := Store
  store := fun s => s
  after := fun _ s => s
  meanwhile := fun _ _ t => t.Regular scope p
  allows := fun _ _ call => call.Keeps fills alters

/-- Whatever the store is at any time, an attempt fills and alters only as said, and success gives
something. -/
def Attempt.Roams {α : Type} (scope : Scope) (p : Parameters) (fills alters : String → Prop)
    (attempt : Attempt α) (gives : α → Prop) : Prop :=
  ∀ held s, attempt.Ends (Setting.roaming scope p fills alters) held s fun result _ =>
    ∀ a, result = .ok a → gives a

open Attempt

section Running

variable {α : Type} {scope : Scope} {p : Parameters} {fills alters : String → Prop}
  {held held' : List String} {s : Store} {site : Site}

/-- What a program does alone it does within the bounds that it keeps to whatever happens. -/
theorem Program.Ends.confines {program : Program α} {post post' : α → List String → Store → Prop}
    (ends : program.Ends (Setting.alone scope p) held site.store post)
    (roams : program.Ends (Setting.roaming scope p fills alters) held' s post')
    (regular : site.store.Regular scope p) (timely : site.Timely) :
    site.store.Confines fills alters (program.run site).2.store := by
  induction program generalizing held held' s site with
  | done a => exact .refl _
  | ask action next ih =>
    have leads : ∃ kept t, (next (site.act action).1).Ends
        (Setting.roaming scope p fills alters) kept t post' := by
      cases action with
      | store call => exact ⟨_, _, (roams site.store regular).2⟩
      | clock => exact ⟨_, _, roams _ (timely site.ticks)⟩
      | acquire path => exact ⟨_, _, roams.2 site.store regular trivial⟩
      | release path => exact ⟨_, _, roams.2⟩
      | tell event => exact ⟨_, _, roams⟩
    have step : site.store.Confines fills alters (site.act action).2.store ∧
        (site.act action).2.store.Regular scope p := by
      cases action with
      | store call =>
        have lawful := (ends site.store rfl).1
        exact ⟨regular.confines lawful (roams site.store regular).1, regular.perform lawful⟩
      | _ => exact ⟨.refl _, regular⟩
    obtain ⟨kept, onward⟩ := Setting.Asks.act ends timely
    obtain ⟨kept', t, onward'⟩ := leads
    exact step.1.trans (ih _ onward onward' step.2 (timely.act action))

theorem Attempt.Roams.confines {attempt : Attempt α} {gives : α → Prop}
    {post : Except Failure α → Store → Prop} (roams : attempt.Roams scope p fills alters gives)
    (ends : attempt.Ends (Setting.alone scope p) held site.store post)
    (regular : site.store.Regular scope p) (timely : site.Timely) :
    site.store.Confines fills alters (attempt.runOn site).2.store :=
  Program.Ends.confines ends (roams [] site.store) regular timely

end Running

section Roaming

variable {α β : Type} {e : Engine} {m : Materializer} {scope : Scope} {p : Parameters}
  {fills alters way : String → Prop} {gives : α → Prop} {n folder parent : Node}
  {path name input : String}
  {world : World}

theorem roams_bind {attempt : Attempt α} {f : α → Attempt β} {then_ : β → Prop}
    (first : attempt.Roams scope p fills alters gives)
    (leads : ∀ a, gives a → (f a).Roams scope p fills alters then_) :
    (attempt >>= f).Roams scope p fills alters then_ := by
  intro held s
  refine ends_bind ((first held s).mono fun result t known => ?_)
  cases result with
  | ok a => exact leads a (known a rfl) held t
  | error failure => exact fun b same => by cases same

theorem roams_then {attempt : Attempt α} {f : α → Attempt β} {then_ : β → Prop}
    (first : attempt.Roams scope p fills alters fun _ => True)
    (leads : ∀ a, (f a).Roams scope p fills alters then_) :
    (attempt >>= f).Roams scope p fills alters then_ := roams_bind first fun a _ => leads a

theorem Attempt.Roams.imp {attempt : Attempt α} {less : α → Prop}
    (roams : attempt.Roams scope p fills alters gives) (implies : ∀ a, gives a → less a) :
    attempt.Roams scope p fills alters less := fun held s =>
  (roams held s).mono fun _ _ known a same => implies a (known a same)

theorem roams_pure {a : α} (known : gives a) :
    (pure a : Attempt α).Roams scope p fills alters gives :=
  fun _ _ => ends_pure fun _ same => by cases same; exact known

theorem roams_throw {failure : Failure} :
    (throw failure : Attempt α).Roams scope p fills alters gives :=
  fun _ _ => ends_throw fun _ same => by cases same

theorem roams_ite {c : Prop} [Decidable c] {first second : Attempt α}
    (yes : c → first.Roams scope p fills alters gives)
    (no : ¬ c → second.Roams scope p fills alters gives) :
    (if c then first else second).Roams scope p fills alters gives := fun held s =>
  ends_ite (fun holds => yes holds held s) fun fails => no fails held s

theorem roams_call {call : Store.Call} (keeps : call.Keeps fills alters) :
    (Attempt.call call).Roams scope p fills alters fun _ => True :=
  fun _ _ => ends_call fun _ _ => ⟨keeps, fun _ _ => trivial⟩

theorem roams_discard {attempt : Attempt α} (roams : attempt.Roams scope p fills alters gives) :
    (discard attempt).Roams scope p fills alters fun _ => True :=
  fun held s => ends_discard ((roams held s).mono fun _ _ _ _ _ => trivial)

theorem roams_now : now.Roams scope p fills alters fun _ => True :=
    fun _ _ => ends_now fun _ _ _ _ => trivial

theorem roams_tell {event : Event} : (tell event).Roams scope p fills alters fun _ => True :=
  fun _ _ => ends_tell fun _ _ => trivial

theorem roams_fromPath {checked : Except PathFault α} :
    (fromPath checked).Roams scope p fills alters fun a => checked = .ok a := by
  cases checked with
  | ok a => exact roams_pure rfl
  | error fault => exact roams_throw

theorem roams_fromWorld {checked : Except WorldFault α} :
    (fromWorld checked).Roams scope p fills alters fun _ => True := by
  cases checked with
  | ok a => exact roams_pure trivial
  | error fault => exact roams_throw

theorem roams_withLock {attempt : Attempt α} (roams : attempt.Roams scope p fills alters gives) :
    (withLock path attempt).Roams scope p fills alters gives := fun _ _ =>
  ends_withLock trivial fun _ _ _ => (roams _ _).mono fun _ _ known => ⟨trivial, known⟩

theorem roams_get : (get path).Roams scope p fills alters fun found =>
    ∀ n, found = some n → n.path = path ∧ Path.IsNormal path := by
  refine fun _ _ => ends_call fun t regular => ⟨trivial, ?_⟩
  simp only [Store.perform, regular.sound.get]
  rintro found ⟨⟩ n there
  obtain ⟨proper, place⟩ := regular.sound.proper there
  exact ⟨place, place ▸ proper.shaped.normal⟩

theorem roams_getOr {failure : Failure} : (getOr path failure).Roams scope p fills alters fun n =>
    n.path = path ∧ Path.IsNormal path := by
  refine roams_bind roams_get fun found known => ?_
  cases found with
  | none => exact roams_throw
  | some n => exact roams_pure (known n rfl)

theorem roams_putIfAbsent {k : Node} (keeps : (Store.Call.putIfAbsent k).Keeps fills alters) :
    (call (.putIfAbsent k)).Roams scope p fills alters fun answer => answer.1.path = k.path := by
  refine fun _ _ => ends_call fun t regular => ⟨keeps, ?_⟩
  simp only [Store.perform]
  cases found : t.record? k.path with
  | none =>
    rw [regular.charted.putIfAbsent_absent found]
    rintro _ ⟨⟩
    rfl
  | some kept =>
    rw [regular.charted.putIfAbsent_present found]
    rintro _ ⟨⟩
    exact (regular.sound.proper found).2

theorem roams_change {change : Store.Change} (alter : alters path) :
    (call (.change path change)).Roams scope p fills alters fun answer =>
      ∀ k, answer = some k → k.path = path := by
  refine fun _ _ => ends_call fun t regular => ⟨alter, ?_⟩
  simp only [Store.perform, Store.update, regular.sound.get]
  cases found : t.record? path with
  | none =>
    rintro _ ⟨⟩ k ⟨⟩
  | some kept =>
    have place := (regular.sound.proper found).2
    cases changed : change.apply kept with
    | none =>
      simp only [changed]
      rintro _ ⟨⟩ k ⟨⟩
      exact place
    | some k =>
      simp only [changed]
      rintro _ ⟨⟩ k ⟨⟩
      rw [(Store.Change.keeps changed).place.path, place]

theorem roams_outcome {attempt : Attempt α} (roams : attempt.Roams scope p fills alters gives) :
    (outcome attempt).Roams scope p fills alters fun result => ∀ a, result = .ok a → gives a :=
  fun held s =>
    ends_outcome ((roams held s).mono fun _ _ known _ same => by cases same; exact known)

theorem roams_putAll {xs : List α} {f : α → Node}
    (keeps : ∀ x ∈ xs, (Store.Call.putIfAbsent (f x)).Keeps fills alters) :
    (xs.forM fun x => discard (call (.putIfAbsent (f x)))).Roams scope p fills alters fun _ =>
      True := by
  induction xs with
  | nil => exact roams_pure trivial
  | cons x xs ih =>
    obtain ⟨first, keeps⟩ := List.forall_mem_cons.mp keeps
    exact roams_then (roams_discard (roams_call first)) fun _ => ih keeps

theorem roams_expand (fill : fills folder.path) (alter : alters folder.path) :
    (m.expand folder).Roams scope p fills alters fun _ => True := by
  unfold Materializer.expand
  refine roams_ite (fun _ => roams_pure trivial) fun _ => roams_withLock (roams_bind roams_getOr ?_)
  rintro here ⟨place, normal⟩
  refine roams_ite (fun _ => roams_tell) fun _ => ?_
  rw [← place] at fill alter normal
  cases drawn : Children.generate? Draw.patience m.parameters here.path here.depth with
  | none => exact roams_throw
  | some specs =>
    refine roams_then roams_now fun time =>
      roams_then (roams_putAll fun spec member => ?_) fun _ => ?_
    · exact ⟨here.path, Path.parent?_join normal (Children.generate?_isName drawn member), fill⟩
    · exact roams_then (roams_discard (roams_call alter)) fun _ => roams_tell

theorem roams_isVisible (alter : alters n.path) :
    (m.isVisible n world).Roams scope p fills alters fun _ => True := by
  unfold Materializer.isVisible
  split
  · exact roams_pure trivial
  · exact roams_pure trivial
  · split
    · exact roams_throw
    · exact roams_then (roams_call alter) fun _ => roams_then roams_tell fun _ => roams_pure trivial

/-- A walk alters what lies along its names, and fills the folders that it goes on from. -/
theorem roams_descend {names : List String} {here : Node} (alter : alters here.path)
    (along : Operation.Along alters here.path names)
    (fill : ∀ more, more <+: names → more ≠ names → fills (more.foldl Path.join here.path)) :
    (m.descend world names here).Roams scope p fills alters fun n =>
      n.path = names.foldl Path.join here.path := by
  induction names generalizing here with
  | nil => exact roams_pure rfl
  | cons name more ih =>
    have alter' := along.makes [name] (List.cons_prefix_cons.mpr ⟨rfl, List.nil_prefix⟩)
      (List.cons_ne_nil _ _)
    have first := fill [] List.nil_prefix (List.cons_ne_nil _ _).symm
    refine roams_ite (fun _ => roams_throw) fun _ =>
      roams_then (roams_expand first alter) fun _ => ?_
    refine roams_bind roams_getOr ?_
    rintro child ⟨place, -⟩
    have next := along.next
    rw [← place] at next
    have place' : child.path = List.foldl Path.join here.path [name] := place
    rw [← place'] at alter'
    refine roams_then (roams_isVisible alter') fun visible => roams_ite (fun _ => ?_) fun _ => ?_
    · refine (ih alter' next fun rest start shorter => ?_).imp fun n there => ?_
      · rw [place]
        exact fill (name :: rest) (List.cons_prefix_cons.mpr ⟨rfl, start⟩) fun same =>
          shorter (List.cons.inj same).2
      · rw [there, place]
        rfl
    · exact roams_then roams_tell fun _ => roams_throw

theorem roams_resolve (normal : Path.IsNormal path)
    (fill : ∀ above, Path.IsNormal above → Path.Within above path → above ≠ path → fills above)
    (alter : ∀ above, Path.IsNormal above → Path.Within above path → alters above) :
    (m.resolve path world).Roams scope p fills alters fun n => n.path = path := by
  have top :=
    alter Path.root Path.isNormal_root
      (by rw [Path.Within, Path.components_root]; exact List.nil_prefix)
  refine roams_bind roams_getOr ?_
  rintro root ⟨place, -⟩
  have valid := fun {names : List String} (start : names <+: Path.components path) (name : String)
    (member : name ∈ names) => normal.components.1 name (start.subset member)
  have inside : ∀ names, names <+: Path.components path →
      Path.Within (Path.ofNames names) path := by
    intro names start
    rw [Path.Within, Path.components_ofNames (valid start)]
    exact start
  have along : Operation.Along alters root.path (Path.components path) := by
    rw [place]
    exact Operation.along_root normal fun names _ start =>
      alter _ (Path.isNormal_ofNames (valid start)) (inside names start)
  rw [← place] at top
  refine (roams_descend top along fun names start shorter => ?_).imp fun n there => ?_
  · have whole : names.foldl Path.join root.path = Path.ofNames names := by
      have fresh : ∀ name ∈ [] ++ names, Path.IsName name := valid start
      rw [place, ← Path.ofNames_nil, Path.foldl_join_ofNames fresh, List.nil_append]
    rw [whole]
    refine fill _ (Path.isNormal_ofNames (valid start)) (inside names start) fun same => shorter ?_
    rw [← Path.components_ofNames (valid start), same]
  · rw [there, place, normal.foldl_join]

theorem roams_resolveFolder (normal : Path.IsNormal path)
    (fill : ∀ above, Path.IsNormal above → Path.Within above path → above ≠ path → fills above)
    (alter : ∀ above, Path.IsNormal above → Path.Within above path → alters above) :
    (m.resolveFolder path world).Roams scope p fills alters fun n => n.path = path :=
  roams_bind (roams_resolve normal fill alter) fun _ place =>
    roams_ite (fun _ => roams_pure place) fun _ => roams_throw

theorem roams_openParent (onWay : ∀ path, Path.normalize input = .ok path →
    ∀ above, Path.IsNormal above →
      Path.Within above path → fills above ∧ alters above) :
    (e.openParent input world).Roams scope p fills alters fun parent =>
      Path.normalize input = .ok parent.path := by
  refine roams_bind roams_fromPath fun path normalized => ?_
  have normal := Path.normalize_isNormal normalized
  have found : (e.materializer.resolveFolder path world).Roams scope p fills alters fun n =>
      n.path = path :=
    roams_resolveFolder normal
      (fun above normal' inside _ => (onWay path normalized above normal' inside).1)
      fun above normal' inside => (onWay path normalized above normal' inside).2
  refine roams_bind found fun n place => ?_
  rw [← place] at normalized normal
  obtain ⟨fill, alter⟩ := onWay n.path normalized n.path normal (Path.within_refl _)
  refine roams_then (roams_expand fill alter) fun _ => roams_getOr.imp fun parent there => ?_
  rw [there.1, normalized]

theorem roams_createFolderLocked (normal : Path.IsNormal parent.path) (named : Path.IsName name)
    (fill : fills parent.path) (alter : alters (Path.join parent.path name)) :
    (e.createFolderLocked parent world name).Roams scope p fills alters fun n =>
      n.path = Path.join parent.path name := by
  refine roams_bind roams_get fun found known => ?_
  cases found with
  | none =>
    refine roams_then roams_now fun time => ?_
    refine roams_bind (roams_putIfAbsent ⟨_, Path.parent?_join normal named, fill⟩)
      fun answer place => ?_
    exact roams_ite (fun _ => roams_throw) fun _ => roams_then roams_tell fun _ => roams_pure place
  | some existing =>
    have place := (known existing rfl).1
    have seen : (e.materializer.isVisible existing world).Roams scope p fills alters fun _ =>
        True :=
      roams_isVisible (place ▸ alter)
    refine roams_ite
      (fun _ => roams_then seen fun _ => roams_then (roams_pure trivial) fun hidden => ?_)
      fun _ => roams_then (roams_pure trivial) fun hidden => ?_
    all_goals
      refine roams_ite (fun _ => roams_bind (roams_change alter) fun answer there => ?_) fun _ =>
        roams_throw
      cases answer with
      | none => exact roams_throw
      | some revealed => exact roams_then roams_tell fun _ => roams_pure (there revealed rfl)

theorem roams_uploadLocked (normal : Path.IsNormal parent.path) (named : Path.IsName name)
    (fill : fills parent.path) (alter : alters (Path.join parent.path name)) (data : Bytes) :
    (e.uploadLocked parent world name data).Roams scope p fills alters fun _ => True := by
  unfold Engine.uploadLocked
  generalize sha256 data = digest
  refine roams_bind roams_get fun found _ => ?_
  cases found with
  | none =>
    refine roams_then roams_now fun time => ?_
    refine roams_then (roams_call ⟨_, Path.parent?_join normal named, fill⟩) fun answer => ?_
    have told : (Attempt.tell .uploaded >>= fun _ => (pure answer.1 : Attempt Node)).Roams
      scope p fills alters
        fun _ => True := roams_then roams_tell fun _ => roams_pure trivial
    exact roams_ite (fun _ => roams_then roams_tell fun _ => told) fun _ => told
  | some existing =>
    refine roams_ite (fun _ => roams_throw) fun _ => roams_then roams_now fun time => ?_
    refine roams_then (roams_call alter) fun answer => ?_
    have reread : (Attempt.tell .replaced >>= fun _ => getOr (Path.join parent.path name)
        (.missing (Path.join parent.path name))).Roams scope p fills alters fun _ => True :=
      roams_then roams_tell fun _ => roams_getOr.imp fun _ _ => trivial
    cases answer with
    | none => exact roams_throw
    | some _ =>
      cases world with
      | primary => exact reread
      | named decider => exact roams_then (roams_discard (roams_call alter)) fun _ => reread

theorem roams_underParent {f : Node → Attempt α}
    (onWay : Path.IsName name → ∀ path, Path.normalize input = .ok path →
      ∀ above, Path.IsNormal above →
      Path.Within above path → fills above ∧ alters above)
    (leads : ∀ parent : Node, Path.normalize input = .ok parent.path → Path.IsName name →
      (f parent).Roams scope p fills alters gives) :
    (fromWorld (e.worlds.check world) >>= fun _ => fromPath (Path.checkName name) >>= fun _ =>
      e.openParent input world >>= fun parent => withLock parent.path
        (discard (getOr parent.path (.missing parent.path)) >>= fun _ => f parent)).Roams
          scope p fills alters
      gives := by
  refine roams_then roams_fromWorld fun _ => roams_bind roams_fromPath fun _ named => ?_
  refine roams_bind (roams_openParent (onWay named)) fun parent normalized => roams_withLock ?_
  exact roams_then (roams_discard roams_getOr) fun _ => leads parent normalized named

theorem roams_deleteLocked (alter : alters path) :
    (Engine.deleteLocked path).Roams scope p fills alters fun _ => True := by
  refine roams_bind roams_getOr ?_
  rintro current ⟨place, -⟩
  have removal : ∀ occupied : Bool, (if occupied then throw (.notEmpty current.path) else do
      discard (call (.delete current.path))
      Attempt.tell .deleted : Attempt Unit).Roams scope p fills alters fun _ => True := fun _ =>
    roams_ite (fun _ => roams_throw) fun _ =>
      roams_then (roams_discard (roams_call (place ▸ alter))) fun _ => roams_tell
  refine roams_ite (fun _ => roams_then (roams_call trivial) removal) fun _ => ?_
  exact roams_then (roams_pure trivial) removal

theorem roams_deleteNode (onWay : ∀ path, Path.normalize input = .ok path →
    ∀ above, Path.IsNormal above →
      Path.Within above path → fills above ∧ alters above) :
    (e.deleteNode input world).Roams scope p fills alters fun _ => True := by
  refine roams_then roams_fromWorld fun _ => roams_bind roams_fromPath fun path normalized => ?_
  have normal := Path.normalize_isNormal normalized
  refine roams_ite (fun _ => roams_throw) fun _ => ?_
  refine roams_bind (roams_resolve normal
    (fun above normal' inside _ => (onWay path normalized above normal' inside).1)
    fun above normal' inside => (onWay path normalized above normal' inside).2) fun n place => ?_
  obtain ⟨fill, alter⟩ := onWay path normalized path normal (Path.within_refl _)
  rw [← place] at fill alter
  have removal :
    (withLock (n.parent.getD Path.root) (withLock n.path (Engine.deleteLocked n.path))).Roams
      scope p fills alters fun _ => True :=
        roams_withLock (roams_withLock (roams_deleteLocked alter))
  exact roams_ite (fun _ => roams_then (roams_expand fill alter) fun _ => removal) fun _ => removal

end Roaming

theorem Path.within_join_of_within {above folder name : String}
    (normal : IsNormal folder) (named : IsName name)
    (within : Within above folder) :
    Within above (join folder name) ∧ above ≠ join folder name := by
  rw [Within, components_join normal named]
  refine ⟨within.trans (List.prefix_append _ _), ?_⟩
  rintro rfl
  have longer := within.length_le
  rw [components_join normal named, List.length_append, List.length_singleton] at longer
  omega

namespace Operation

variable {e : Engine} {scope : Scope} {p : Parameters} {r : Operation} {path target : String}

def Mutates : Operation → Prop
  | .createFolder .. | .uploadFile .. | .deleteNode .. => True
  | _ => False

def Targets (r : Operation) (path : String) : Prop := r.Makes path ∨ r.Removes path

/-- A mutation fills the folders above its target, and a deletion also the one that is to be
deleted. -/
def Fills (r : Operation) (target path : String) : Prop :=
  Path.Within path target ∧ (path = target → r.Removes target)

theorem only_target (mutates : r.Mutates) (first : r.Targets path) (second : r.Targets target) :
    path = target := by
  have made : ∀ {input name : String},
    (∃ folder, Path.normalize input = .ok folder ∧ Path.IsName name ∧
      path = Path.join folder name) →
        (∃ folder, Path.normalize input = .ok folder ∧ Path.IsName name ∧
        target = Path.join folder name) → path = target := by
    rintro input name ⟨folder, normalized, _, rfl⟩ ⟨folder', normalized', _, rfl⟩
    rw [normalized] at normalized'
    cases normalized'
    rfl
  cases r with
  | createFolder input world name =>
    rcases first with first | ⟨⟨⟩⟩
    rcases second with second | ⟨⟨⟩⟩
    exact made first second
  | uploadFile input world name data =>
    rcases first with first | ⟨⟨⟩⟩
    rcases second with second | ⟨⟨⟩⟩
    exact made first second
  | deleteNode input world =>
    rcases first with ⟨⟨⟩⟩ | first
    rcases second with ⟨⟨⟩⟩ | second
    exact Except.ok.inj (first.symm.trans second)
  | _ => exact mutates.elim

theorem roams_run (mutates : r.Mutates) (targets : r.Targets target) :
    (r.run e).Roams scope p (r.Fills target) (Path.Within · target) fun _ => True := by
  have only : ∀ path, r.Targets path → path = target :=
    fun _ first => only_target mutates first targets
  have inside : ∀ {input name folder above : String}, Path.normalize input =
    .ok folder → Path.IsName name →
      Path.join folder name = target → Path.Within above folder →
        r.Fills target above ∧ Path.Within above target := by
    rintro input name folder above normalized named rfl within
    obtain ⟨below, apart⟩ :=
      Path.within_join_of_within (Path.normalize_isNormal normalized) named within
    exact ⟨⟨below, fun same => absurd same apart⟩, below⟩
  cases r with
  | createFolder input world name =>
    refine roams_underParent (fun named path normalized above _ within =>
      inside normalized named (only _ (Or.inl ⟨path, normalized, named, rfl⟩)) within) ?_
    intro parent normalized named
    have place := only _ (Or.inl ⟨_, normalized, named, rfl⟩)
    exact (roams_createFolderLocked (Path.normalize_isNormal normalized) named
      (inside normalized named place (Path.within_refl _)).1 (place ▸ Path.within_refl _)).imp
        fun _ _ => trivial
  | uploadFile input world name data =>
    refine roams_underParent (fun named path normalized above _ within =>
      inside normalized named (only _ (Or.inl ⟨path, normalized, named, rfl⟩)) within) ?_
    intro parent normalized named
    have place := only _ (Or.inl ⟨_, normalized, named, rfl⟩)
    exact roams_uploadLocked (Path.normalize_isNormal normalized) named
      (inside normalized named place (Path.within_refl _)).1 (place ▸ Path.within_refl _) data
  | deleteNode input world =>
    refine roams_deleteNode fun path normalized above _ within => ?_
    have place := only path (Or.inr normalized)
    rw [place] at within normalized
    exact ⟨⟨within, fun _ => normalized⟩, within⟩
  | _ => exact mutates.elim

end Operation

end SeedTree
