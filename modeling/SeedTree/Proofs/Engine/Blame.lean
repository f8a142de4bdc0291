import SeedTree.Proofs.Engine.Operation

/- When an operation blames the configuration. What an attempt may end with is followed through its
   actions whatever is replied to them, so it holds on every store and beside any other
   operations. -/
namespace SeedTree

/-- However its actions are answered, a program ends so. -/
def Program.Yields {α : Type} (post : α → Prop) : Program α → Prop
  | .done a => post a
  | .ask _ next => ∀ reply, (next reply).Yields post

namespace Program

variable {α β : Type} {p : Program α}

theorem Yields.mono {first second : α → Prop} (yields : p.Yields first)
    (implies : ∀ a, first a → second a) : p.Yields second := by
  induction p with
  | done a => exact implies a yields
  | ask action next ih =>
    intro reply
    exact ih reply (yields reply)

theorem Yields.bind {f : α → Program β} {post : β → Prop}
    (yields : p.Yields fun a => (f a).Yields post) : (p.bind f).Yields post := by
  induction p with
  | done a => exact yields
  | ask action next ih =>
    intro reply
    exact ih reply (yields reply)

theorem Yields.run {post : α → Prop} (yields : p.Yields post) (site : Site) :
    post (p.run site).1 := by
  induction p generalizing site with
  | done a => exact yields
  | ask action next ih => exact ih _ (yields _) _

end Program

def Charges {α : Type} (only : ConfigFault → Prop) (result : Except Failure α) : Prop :=
  ∀ fault, result = .error (.invalidConfig fault) → only fault

def Attempt.Blames {α : Type} (only : ConfigFault → Prop) (attempt : Attempt α) : Prop :=
  Program.Yields (Charges only) attempt.run

namespace Attempt

variable {α β : Type} {only : ConfigFault → Prop} {attempt : Attempt α} {path : String}

theorem Blames.runOn (blames : attempt.Blames only) (site : Site) :
    Charges only (attempt.runOn site).1 :=
  Program.Yields.run blames site

theorem charges_ok {a : α} : Charges only (.ok a : Except Failure α) := fun _ same => by cases same

theorem charges_error {failure : Failure}
    (fair : ∀ fault, failure = .invalidConfig fault → only fault) :
    Charges only (.error failure : Except Failure α) := by
  intro fault same
  exact fair fault (Except.error.inj same)

theorem blames_pure {a : α} : (pure a : Attempt α).Blames only := charges_ok

theorem blames_throw {failure : Failure}
    (fair : ∀ fault, failure = .invalidConfig fault → only fault) :
    (throw failure : Attempt α).Blames only := charges_error fair

theorem blames_bind {f : α → Attempt β} (blames : attempt.Blames only)
    (leads : ∀ a, (f a).Blames only) : (attempt >>= f).Blames only := by
  refine Program.Yields.bind (Program.Yields.mono blames ?_)
  intro result charges
  cases result with
  | ok a => exact leads a
  | error failure => exact charges_error fun fault same => charges fault (by rw [same])

theorem blames_pure_bind {a : α} {f : α → Attempt β} (leads : (f a).Blames only) :
    (pure a >>= f).Blames only := leads

theorem blames_discard (blames : attempt.Blames only) : (discard attempt).Blames only :=
  blames_bind blames fun _ => blames_pure

theorem blames_ite {c : Prop} [Decidable c] {first second : Attempt α} (yes : c → first.Blames only)
    (no : ¬ c → second.Blames only) : (if c then first else second).Blames only := by
  split
  · exact yes ‹c›
  · exact no ‹¬ c›

theorem blames_outcome {f : Except Failure α → Attempt β} (blames : attempt.Blames only)
    (leads : ∀ result, Charges only result → (f result).Blames only) :
    (outcome attempt >>= f).Blames only :=
  Program.Yields.bind (Program.Yields.bind (Program.Yields.mono blames leads))

theorem blames_call {c : Store.Call} : (call c).Blames only := by
  intro reply
  cases reply with
  | ok answer => exact charges_ok
  | error fault =>
    refine charges_error ?_
    intro _ same
    cases same

theorem blames_now : now.Blames only := fun _ => charges_ok

theorem blames_tell {event : Event} : (tell event).Blames only := fun _ => charges_ok

theorem blames_withLock (blames : attempt.Blames only) : (withLock path attempt).Blames only := by
  intro _
  refine Program.Yields.bind (p := attempt.run) (f := fun result =>
    (Program.perform (.release path)).bind fun _ => .done result) (Program.Yields.mono blames ?_)
  intro result charges _
  exact charges

theorem blames_fromPath {checked : Except PathFault α} : (fromPath checked).Blames only := by
  cases checked with
  | ok a => exact blames_pure
  | error fault => exact blames_throw nofun

theorem blames_get : (get path).Blames only := blames_call

theorem blames_getOr {failure : Failure}
    (fair : ∀ fault, failure = .invalidConfig fault → only fault) :
    (getOr path failure).Blames only := by
  refine blames_bind blames_get ?_
  intro found
  cases found with
  | none => exact blames_throw fair
  | some n => exact blames_pure

theorem blames_forM {xs : List α} {f : α → Attempt Unit} (blames : ∀ x, (f x).Blames only) :
    (xs.forM f).Blames only := by
  induction xs with
  | nil => exact blames_pure
  | cons x xs ih => exact blames_bind (blames x) fun _ => ih

end Attempt

/-- The world that an operation acts in. What is read by its identity is read in no world. -/
def Operation.world? : Operation → Option World
  | .getNode _ world | .listChildren _ world | .createFolder _ world _ | .createFolderAll _ world
  | .uploadFile _ world _ _ | .deleteNode _ world | .checksum _ world => some world
  | .readContent _ | .readRange _ _ _ => none

def WorldTable.Lacks (t : WorldTable) (world : World) (fault : ConfigFault) : Prop :=
  ∃ name, world = .named name ∧ t.entries[name]? = none ∧ fault = .world (.unconfigured name)

open Attempt

section Materializing

variable {m : Materializer} {world : World} {folder n : Node} {path : String}
  {only : ConfigFault → Prop}

theorem blames_expand : (m.expand folder).Blames only := by
  refine blames_ite (fun _ => blames_pure) fun _ => blames_withLock ?_
  refine blames_bind (blames_getOr nofun) fun current =>
    blames_ite (fun _ => blames_tell) fun _ => ?_
  cases Children.generate? Draw.patience m.parameters current.path current.depth with
  | none => exact blames_throw nofun
  | some specs =>
    refine blames_bind blames_now fun time => ?_
    refine blames_bind (blames_forM fun spec => blames_discard blames_call) fun _ => ?_
    exact blames_bind (blames_discard blames_call) fun _ => blames_tell

theorem blames_isVisible : (m.isVisible n world).Blames (m.worlds.Lacks world) := by
  unfold Materializer.isVisible
  split
  · exact blames_pure
  · exact blames_pure
  · rename_i name _
    cases listed : m.worlds.probability? (.named name) with
    | none =>
      refine blames_throw ?_
      rintro _ ⟨⟩
      exact ⟨name, rfl, listed, rfl⟩
    | some probability =>
      refine blames_bind blames_call fun kept => ?_
      exact blames_bind blames_tell fun _ => blames_pure

theorem blames_descend {names : List String} {here : Node} :
    (m.descend world names here).Blames (m.worlds.Lacks world) := by
  induction names generalizing here with
  | nil => exact blames_pure
  | cons name more ih =>
    refine blames_ite (fun _ => blames_throw nofun) fun _ => ?_
    refine blames_bind blames_expand fun _ => blames_bind (blames_getOr nofun) fun child => ?_
    refine blames_bind blames_isVisible fun visible => blames_ite (fun _ => ih) fun _ => ?_
    exact blames_bind blames_tell fun _ => blames_throw nofun

theorem blames_resolve : (m.resolve path world).Blames (m.worlds.Lacks world) :=
  blames_bind (blames_getOr nofun) fun _ => blames_descend

theorem blames_resolveFolder : (m.resolveFolder path world).Blames (m.worlds.Lacks world) :=
  blames_bind blames_resolve fun _ => blames_ite (fun _ => blames_pure) fun _ => blames_throw nofun

theorem blames_visibleOf {children : List Node} :
    (m.visibleOf world children).Blames (m.worlds.Lacks world) := by
  induction children with
  | nil => exact blames_pure
  | cons n more ih =>
    exact blames_bind blames_isVisible fun _ => blames_bind ih fun _ => blames_pure

theorem blames_list : (m.list path world).Blames (m.worlds.Lacks world) := by
  refine blames_bind blames_resolve fun folder =>
    blames_ite (fun _ => blames_throw nofun) fun _ => ?_
  exact blames_bind blames_expand fun _ => blames_bind blames_call fun _ => blames_visibleOf

end Materializing

section Operating

variable {e : Engine} {world : World} {input path name : String} {parent : Node} {data : Bytes}

theorem blames_openParent : (e.openParent input world).Blames (e.worlds.Lacks world) := by
  refine blames_bind blames_fromPath fun path => blames_bind blames_resolveFolder fun parent => ?_
  exact blames_bind blames_expand fun _ => blames_getOr nofun

theorem blames_createFolderLocked :
    (e.createFolderLocked parent world name).Blames (e.worlds.Lacks world) := by
  refine blames_bind blames_get fun found => ?_
  cases found with
  | none =>
    refine blames_bind blames_now fun time => blames_bind blames_call fun stored => ?_
    refine blames_ite (fun _ => blames_throw nofun) fun _ => ?_
    exact blames_bind blames_tell fun _ => blames_pure
  | some existing =>
    refine blames_ite (fun _ => ?_) fun _ =>
      blames_pure_bind (blames_ite nofun fun _ => blames_throw nofun)
    refine blames_bind blames_isVisible fun visible =>
      blames_pure_bind (blames_ite (fun _ => ?_) fun _ => blames_throw nofun)
    refine blames_bind blames_call fun kept => ?_
    cases kept with
    | none => exact blames_throw nofun
    | some revealed => exact blames_bind blames_tell fun _ => blames_pure

theorem blames_uploadLocked {only : ConfigFault → Prop} :
    (e.uploadLocked parent world name data).Blames only := by
  refine blames_bind blames_get fun found => ?_
  cases found with
  | none =>
    refine blames_bind blames_now fun time => blames_bind blames_call fun stored => ?_
    have told : (Attempt.tell .uploaded >>= fun _ => (pure stored.1 : Attempt Node)).Blames only :=
      blames_bind blames_tell fun _ => blames_pure
    exact blames_ite (fun _ => blames_bind blames_tell fun _ => told) fun _ => told
  | some existing =>
    refine blames_ite (fun _ => blames_throw nofun) fun _ => blames_bind blames_now fun time => ?_
    refine blames_bind blames_call fun kept => ?_
    have reread : (Attempt.tell .replaced >>= fun _ => getOr (Path.join parent.path name)
        (.missing (Path.join parent.path name))).Blames only :=
      blames_bind blames_tell fun _ => blames_getOr nofun
    cases kept with
    | none => exact blames_throw nofun
    | some _ =>
      cases world with
      | primary => exact reread
      | named decider => exact blames_bind (blames_discard blames_call) fun _ => reread

theorem blames_deleteLocked {only : ConfigFault → Prop} :
    (Engine.deleteLocked path).Blames only := by
  refine blames_bind (blames_getOr nofun) fun current => ?_
  have removal : ∀ occupied : Bool, (if occupied = true then throw (.notEmpty current.path)
      else discard (call (.delete current.path)) >>= fun _ =>
        tell .deleted : Attempt Unit).Blames only := by
    intro occupied
    refine blames_ite (fun _ => blames_throw nofun) fun _ => ?_
    exact blames_bind (blames_discard blames_call) fun _ => blames_tell
  exact blames_ite (fun _ => blames_bind blames_call removal) fun _ =>
    blames_bind blames_pure removal

theorem blames_readContent {only : ConfigFault → Prop} (id : NodeId) :
    (e.readContent id).Blames only := by
  refine blames_bind blames_call fun found => ?_
  cases found with
  | none => exact blames_throw nofun
  | some n =>
    refine blames_ite (fun _ => blames_throw nofun) fun _ => ?_
    dsimp only
    generalize fileContent n.id e.config.parameters.contentSeed n.upload = bytes
    generalize checksumOf bytes = text
    cases n.checksum with
    | some kept =>
      exact blames_ite (fun _ => blames_bind blames_tell fun _ => blames_pure) fun _ => blames_pure
    | none => exact blames_bind (blames_discard blames_call) fun _ => blames_pure

section Checked

variable (checked : e.worlds.check world = .ok ())

include checked

theorem blames_checked {α : Type} {f : Unit → Attempt α}
    (leads : (f ()).Blames (e.worlds.Lacks world)) :
    (fromWorld (e.worlds.check world) >>= f).Blames (e.worlds.Lacks world) := by
  rw [checked]
  exact blames_pure_bind leads

theorem blames_getNode : (e.getNode input world).Blames (e.worlds.Lacks world) :=
  blames_checked checked (blames_bind blames_fromPath fun _ => blames_resolve)

theorem blames_createFolder : (e.createFolder input world name).Blames (e.worlds.Lacks world) := by
  refine blames_checked checked (blames_bind blames_fromPath fun _ => ?_)
  refine blames_bind blames_openParent fun parent => blames_withLock ?_
  exact blames_bind (blames_discard (blames_getOr nofun)) fun _ => blames_createFolderLocked

theorem blames_createAlong {names : List String} {here : Node} :
    (e.createAlong world names here).Blames (e.worlds.Lacks world) := by
  induction names generalizing here with
  | nil => exact blames_pure
  | cons name more ih =>
    refine blames_outcome blames_resolve fun found charges => ?_
    cases found with
    | ok n => exact blames_ite (fun _ => ih) fun _ => blames_throw nofun
    | error failure =>
      cases failure with
      | notFound what =>
        refine blames_outcome (blames_createFolder checked) fun made charges' => ?_
        cases made with
        | ok n => exact ih
        | error failure =>
          cases failure with
          | alreadyExists path => exact blames_bind blames_resolveFolder fun _ => ih
          | _ => exact charges_error fun fault same => charges' fault (by rw [same])
      | _ => exact charges_error fun fault same => charges fault (by rw [same])

theorem blames_run (r : Operation) (acts : r.world? = some world) :
    (r.run e).Blames (e.worlds.Lacks world) := by
  cases r with
  | getNode input other =>
    cases acts
    exact blames_getNode checked
  | listChildren input other =>
    cases acts
    exact blames_checked checked (blames_bind blames_fromPath fun _ => blames_list)
  | createFolder input other name =>
    cases acts
    exact blames_createFolder checked
  | createFolderAll input other =>
    cases acts
    refine blames_checked checked (blames_bind blames_fromPath fun _ => ?_)
    exact blames_bind blames_resolve fun _ => blames_createAlong checked
  | uploadFile input other name data =>
    cases acts
    refine blames_checked checked (blames_bind blames_fromPath fun _ => ?_)
    refine blames_bind blames_openParent fun parent => blames_withLock ?_
    exact blames_bind (blames_discard (blames_getOr nofun)) fun _ => blames_uploadLocked
  | deleteNode input other =>
    cases acts
    refine blames_checked checked (blames_bind blames_fromPath fun _ => ?_)
    refine blames_ite (fun _ => blames_throw nofun) fun _ => blames_bind blames_resolve fun n => ?_
    have locked :
      (withLock (n.parent.getD Path.root) (withLock n.path (Engine.deleteLocked n.path))).Blames
        (e.worlds.Lacks world) := blames_withLock (blames_withLock blames_deleteLocked)
    exact blames_ite (fun _ => blames_bind blames_expand fun _ => locked) fun _ => locked
  | checksum input other =>
    cases acts
    refine blames_bind (blames_getNode checked) fun n =>
      blames_ite (fun _ => blames_throw nofun) fun _ => ?_
    cases n.checksum with
    | some kept => exact blames_pure
    | none => exact blames_bind (blames_readContent n.id) fun _ => blames_pure
  | readContent id => cases acts
  | readRange id offset length => cases acts

end Checked

end Operating

end SeedTree
