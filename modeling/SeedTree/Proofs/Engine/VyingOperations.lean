import SeedTree.Proofs.Engine.Foretold
import SeedTree.Proofs.Engine.Vying

/- The operations of those who read and of those who create in the course of a contest. A reader
   never fills the contested place; a creator finds its way there, and makes the folder or meets
   it. -/
namespace SeedTree

open Attempt

variable {x : Contest} {e : Engine} {a b : Contender} {n : Node} {held : List String}
  {path name input : String} {world : World}

namespace Contest

/-- How a creator ends: having made the folder, or having met it. -/
inductive Settles (x : Contest) : Except Failure Node → Contender → Prop where
  | made {n : Node} {b : Contender}
    (found : b.store.record? x.place = some n) (won : b.won = true) :
      Settles x (.ok n) b
  | met {n : Node} {b : Contender}
    (found : b.store.record? x.place = some n) (won : b.won = false) :
      Settles x (.error (.alreadyExists x.place)) b

end Contest

theorem vying_accept {α : Type} {f : String → Attempt α} {post : Except Failure α → Store → Prop}
    (sound : x.Sound a.store)
    (fails : ∀ failure, e.accept input world = .error failure → post (.error failure) a.store)
    (leads : ∀ path, e.accept input world = .ok path → Path.IsNormal path →
      (f path).Vies x held a post) :
    (fromWorld (e.worlds.check world) >>= fun _ => fromPath (Path.normalize input) >>= f).Vies
      x held a post :=
  Engine.ends_accept (fun failure refused => ⟨sound.waits, fails failure refused⟩) leads

theorem vying_passed {α β : Type} {r : α} {f : α → Attempt β}
    {post : Except Failure β → Store → Prop}
    (leads : (f r).Vies x held a post) : (fromPath (.ok r) >>= f).Vies x held a post := leads

section Reading

variable (engine : x.materializer = e.materializer) (fair : x.Open) (sound : x.Sound a.store)

include engine fair sound

theorem vying_getNode : (e.getNode input world).Vies x [] a fun result s =>
    ∀ k, result = .ok k → x.Recalls s k := by
  refine vying_accept sound
    (fun failure refused => fun _ same => by cases same) fun path accepted normal => ?_
  rw [← engine]
  exact (vying_resolve fair sound normal).mono fun result b _ known k same => (known.1 k same).1

theorem vying_listChildren : (e.listChildren input world).Vies x [] a fun _ _ => True := by
  refine vying_accept sound (fun failure refused => trivial) fun path accepted normal => ?_
  rw [← engine]
  exact vying_list fair sound normal

omit engine fair sound in
theorem vying_sum {text : String} (recalls : x.Recalls a.store n) (isFile : n.isFolder = false)
    (short : IsShort text) :
    (discard (call (.change n.path (.checksum text n.upload)))).Vies x held a fun _ _ => True := by
  refine vying_discard (vying_call fun b waits => ⟨short, ?_, trivial⟩)
  have sound := waits.leads.sound
  have recalls := recalls.later waits.leads
  have elsewhere : n.path ≠ x.place := by
    intro here
    rw [(recalls.founded sound here).isFolder] at isFile
    cases isFile
  obtain ⟨k, holds, ripens⟩ := recalls.there
  have found : b.store.record? n.path = some k := ripens.path ▸ holds
  cases new : (Store.Change.checksum text n.upload).apply k with
  | none =>
    simp only [Store.perform, sound.regular.charted.update_unchanged found new]
    exact sound.passes
  | some l =>
    simp only [Store.perform, sound.regular.charted.update_changed found new
      (Node.Ripens.checksum (m := x.materializer) new).path]
    exact sound.sums holds (ripens.path ▸ elsewhere) short new

omit engine fair sound in
theorem vying_readContent (id : NodeId) : (e.readContent id).Vies x [] a fun _ _ => True := by
  have read : (call (.getById id)).Vies x [] a fun result s =>
      ∃ r : Option Node, result = .ok r ∧ ∀ n, r = some n → s.Holds n := by
    refine vying_call fun b waits => ⟨trivial, waits.leads.sound.passes, ?_⟩
    rcases waits.leads.sound.regular.charted.getById id with ⟨read, _⟩ | ⟨n, read, holds, _⟩
    · simp only [Store.perform, read]
      exact ⟨none, rfl, by rintro n ⟨⟩⟩
    · simp only [Store.perform, read]
      exact ⟨some n, rfl, by rintro n ⟨⟩; exact holds⟩
  refine vying_then read fun b found waits known => ?_
  have sound := waits.leads.sound
  cases found with
  | none => exact vying_throw sound trivial
  | some n =>
    refine vying_ite (fun _ => vying_throw sound trivial) fun isFile => ?_
    dsimp only
    have short := isShort_checksum (fileContent n.id e.config.parameters.contentSeed n.upload)
    generalize fileContent n.id e.config.parameters.contentSeed n.upload = bytes at short ⊢
    generalize checksumOf bytes = text at short ⊢
    cases n.checksum with
    | some kept =>
      refine vying_ite (fun _ => ?_) fun _ => vying_pure sound trivial
      exact vying_then (vying_told sound) fun c _ later _ => vying_pure later.leads.sound trivial
    | none =>
      refine vying_bind
        (vying_sum (Contest.recalls_of_holds (known n rfl)) (by simpa using isFile) short)
        (fun _ _ _ _ => trivial) fun c _ later _ => vying_pure later.leads.sound trivial

theorem vying_reads {r : Operation} (reads : r.Reads) : (r.run e).Vies x [] a fun _ _ => True := by
  cases r with
  | getNode path world => exact (vying_getNode engine fair sound).mono fun _ _ _ _ => trivial
  | listChildren path world => exact vying_listChildren engine fair sound
  | readContent id => exact vying_readContent id
  | readRange id offset length =>
    exact vying_bind (vying_readContent id) (fun _ _ _ _ => trivial) fun b read waits _ =>
      vying_pure waits.leads.sound trivial
  | checksum path world =>
    refine vying_bind (vying_getNode engine fair sound)
      (fun _ _ _ _ => trivial) fun b n waits _ => ?_
    have sound := waits.leads.sound
    refine vying_ite (fun _ => vying_throw sound trivial) fun _ => ?_
    cases n.checksum with
    | some checksum => exact vying_pure sound trivial
    | none =>
      exact vying_bind (vying_readContent n.id) (fun _ _ _ _ => trivial) fun c read later _ =>
        vying_pure later.leads.sound trivial
  | _ => exact reads.elim

end Reading

section Creating

variable {parent host : Node} {time : Moment}
  (engine : x.materializer = e.materializer) (fair : x.Open)

include engine fair

theorem founded_madeByHand (parent : Node) (time : Moment) :
    x.Founded { e.madeByHand parent x.world x.name .folder time with generated := true } := by
  have decided : ∀ name, (e.worlds.onlyIn x.world)[name]?
      = x.materializer.worlds.entries[name]?.map fun _ => decide (name = x.world.name) := by
    rw [engine]
    exact NameMap.getElem?_map _ _
  refine ⟨rfl, rfl, ?_, fun name listed => ?_⟩
  · cases home : x.world with
    | primary => rfl
    | named name =>
      obtain ⟨probability, found⟩ := (mem_iff_getElem?_some _ _).mp (fair.offered name home)
      have seen := decided name
      rw [found, home, Option.map_some, World.name, decide_eq_true rfl] at seen
      exact x.materializer.sees_decided (Option.some_ne_none _) seen
  · change (e.worlds.onlyIn x.world)[name]? ≠ none
    obtain ⟨probability, found⟩ := (mem_iff_getElem?_some _ _).mp listed
    rw [decided, found]
    exact Option.some_ne_none _

section Entering

variable (sound : x.Sound a.store) (normalized : Path.normalize input = .ok x.folder)
  (found : Picture.resolve (x.materializer.shows x.origin) x.materializer
    x.world x.folder = .ok host)
  (isFolder : host.isFolder = true)

include sound normalized found isFolder

omit normalized in
theorem vying_resolveFolder :
    (e.materializer.resolveFolder x.folder x.world).Vies x [] a fun result s =>
    ∃ n, result = .ok n ∧ x.Recalls s n ∧ n.path = x.folder ∧ n.isFolder = true := by
  rw [← engine]
  refine vying_bind (vying_resolve fair sound fair.normal) ?_ fun b n waits known => ?_
  · intro b failure _ known
    obtain ⟨_, ⟨⟩, _⟩ := known.2 host found
  · obtain ⟨_, ⟨rfl⟩, like⟩ := known.2 host found
    obtain ⟨recalls, place⟩ := known.1 _ rfl
    have same := like.isFolder.trans isFolder
    exact vying_ite (fun _ => vying_pure waits.leads.sound ⟨_, rfl, recalls, place, same⟩)
      fun isFile => absurd same isFile

theorem vying_openParent : (e.openParent input x.world).Vies x [] a fun result s =>
    ∃ n, result = .ok n ∧ s.record? x.folder = some n := by
  unfold Engine.openParent
  rw [normalized]
  refine vying_passed (vying_then (vying_resolveFolder engine fair sound found isFolder)
    fun b n waits known => ?_)
  obtain ⟨recalls, place, isFolder⟩ := known
  rw [← engine]
  refine vying_bind (vying_expand fair waits.leads.sound recalls isFolder) ?_ ?_
  · rintro c failure _ ⟨⟩
    rename_i unending
    have failed := unending x.name fair.named
    rw [place, show Path.join x.folder x.name = x.place from rfl, fair.free] at failed
    cases failed
  · rintro c _ waits' ⟨⟩
    rename_i k there _
    rw [place] at there ⊢
    exact vying_reread waits'.leads.sound ⟨k, there⟩

end Entering

section Making

variable (ready : e.Ready x.scope e.materializer.parameters) (short : IsShort x.place)

include ready short

theorem proper_madeByHand (proper : parent.Proper x.scope x.materializer.parameters)
    (place : parent.path = x.folder) (valid : time.isValid = true) :
    ({ e.madeByHand parent x.world x.name .folder time with generated := true } : Node).Proper
    x.scope
      x.materializer.parameters := by
  have short : IsShort (Path.join parent.path x.name) := by
    rw [place]
    exact short
  rw [engine] at proper ⊢
  exact (handmade ready proper short fair.named x.world .folder valid none (by simp)).proper

theorem vying_make (proper : parent.Proper x.scope x.materializer.parameters)
    (place : parent.path = x.folder) (valid : time.isValid = true) (fresh : a.won = false) : (do
      let (stored, inserted) ← call (.putIfAbsent
        { e.madeByHand parent x.world x.name .folder time with generated := true })
      if !inserted then throw (.alreadyExists stored.path)
      else
        tell .folderCreated
        return stored : Attempt Node).Ends (Setting.vying x) held a x.Settles := by
  have proper' := proper_madeByHand engine fair ready short proper place valid
  have founded := founded_madeByHand engine fair parent time
  have target :
    ({ e.madeByHand parent x.world x.name .folder time with generated := true } : Node).path
      = x.place := congrArg (Path.join · x.name) place
  generalize ({ e.madeByHand parent x.world x.name .folder time with generated := true } : Node) =
    folder
    at proper' founded target ⊢
  refine ends_bind (ends_call fun b waits => ?_)
  have sound := waits.leads.sound
  cases found : b.store.record? x.place with
  | none =>
    rw [← target] at found
    have step := sound.founds proper' (target ▸ found) target founded
    have there : (b.store.insertNode folder).record? x.place = some folder := by
      rw [← target]
      exact (Store.record?_insertNode proper' _).trans (if_pos rfl)
    simp only [Store.perform, sound.regular.charted.putIfAbsent_absent found]
    refine ⟨⟨proper', step⟩, ends_ite (fun absent => by cases absent) fun _ =>
      ends_bind (ends_tell (ends_pure (.made there ?_)))⟩
    rw [Contest.after, there, ← target, found]
    simp
  | some k =>
    have place := (sound.holds found).2
    rw [← target] at found
    simp only [Store.perform, sound.regular.charted.putIfAbsent_present found]
    refine ⟨⟨proper', sound.passes.leads⟩,
      ends_ite (fun _ => ends_throw ?_) fun there => absurd rfl there⟩
    rw [place]
    refine .met (target ▸ found) ?_
    rw [sound.passes.waits.won, waits.won, fresh]

theorem vying_createFolderLocked (proper : parent.Proper x.scope x.materializer.parameters)
    (place : parent.path = x.folder) (fresh : a.won = false) :
    (e.createFolderLocked parent x.world x.name).Ends (Setting.vying x) held a x.Settles := by
  have target : Path.join parent.path x.name = x.place := by rw [place]; rfl
  unfold Engine.createFolderLocked
  rw [target]
  refine ends_bind (Ends.mono vying_get ?_)
  rintro result b ⟨waits, rfl⟩
  have sound := waits.leads.sound
  have fresh := waits.won.trans fresh
  cases found : b.store.record? x.place with
  | none =>
    refine ends_bind (ends_now fun time valid => ?_)
    exact vying_make engine fair ready short proper place valid fresh
  | some existing =>
    have founded := sound.founded existing found
    have holds := (sound.holds found).1
    refine ends_ite (fun _ => ?_) fun isFile => absurd founded.isFolder isFile
    rw [← engine]
    refine ends_bind (Ends.mono (vying_isVisible fair sound (Contest.recalls_of_holds holds)) ?_)
    rintro _ c ⟨waits, rfl⟩
    rw [founded.visible]
    refine ends_bind (ends_pure (ends_ite (fun hidden => ?_) fun _ => ends_throw ?_))
    · cases hidden
    · exact .met (waits.leads.stays existing found) (waits.won.trans fresh)

theorem vying_createFolder (checked : e.worlds.check x.world = .ok ()) (sound : x.Sound a.store)
    (normalized : Path.normalize input = .ok x.folder)
    (found : Picture.resolve (x.materializer.shows x.origin) x.materializer
      x.world x.folder = .ok host)
    (isFolder : host.isFolder = true) (fresh : a.won = false) :
    (e.createFolder input x.world x.name).Ends (Setting.vying x) [] a x.Settles := by
  have named : Path.checkName x.name = .ok () := fair.named
  refine ends_bind (ends_fromWorld ?_)
  rw [checked]
  refine ends_bind (ends_fromPath ?_)
  rw [named]
  refine ends_bind (Ends.mono (vying_openParent engine fair sound normalized found isFolder) ?_)
  rintro _ b ⟨waits, parent, rfl, there⟩
  obtain ⟨holds, place⟩ := waits.leads.sound.holds there
  have proper := (waits.leads.sound.regular.sound.proper there).1
  refine ends_withLock rfl fun c waits' _ => ?_
  have known : (discard (getOr parent.path (.missing parent.path))).Vies x [parent.path] c
      fun result _ => result = .ok () := by
    rw [place]
    refine vying_discard
      ((vying_reread waits'.leads.sound (waits'.leads.record? waits.leads.sound there)).mono ?_)
    rintro _ b' _ ⟨n, rfl, _⟩
    rfl
  refine ends_bind (Ends.mono known ?_)
  rintro _ c' ⟨waits'', rfl⟩
  have fresh := ((waits.trans waits').trans waits'').won.trans fresh
  exact Ends.mono (vying_createFolderLocked engine fair ready short proper place fresh)
    fun _ _ settles => ⟨trivial, settles⟩

end Making

end Creating

end SeedTree
