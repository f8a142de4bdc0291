import SeedTree.Proofs.Engine.Making
import SeedTree.Proofs.Engine.Sharing

/- The operations on a shared store, one after the other: each makes only calls that the others can
   allow for, and gives back the locks it takes. -/
namespace SeedTree

open Attempt

variable {e : Engine} {scope : Scope} {c d : Chronicle} {parent : Node} {held : List String}
  {path name input : String} {world : World} {r : Operation} {α : Type}

theorem shared_change {p : Parameters} {edit : Store.Change} (fits : edit.Fits scope)
    (vouches : ∀ d : Chronicle, d.Vouches p path edit) :
    (call (.change path edit)).Ends (Setting.shared scope p) held c
      (Gives c fun _ answer => ∀ n, answer = some n → n.path = path) := by
  refine ends_call fun d waits => ⟨⟨fits, vouches d⟩, waits.grows.trans (d.grows_next _), ?_⟩
  intro answer ok n same
  have regular := waits.regular d.now List.mem_cons_self
  simp only [Store.perform] at ok
  rcases regular.update_cases path fits with ⟨_, step⟩ | ⟨k, found, _, step⟩ |
    ⟨k, new, found, applied, _, step⟩
  · rw [step] at ok
    cases ok
    cases same
  · rw [step] at ok
    cases ok
    cases same
    exact (regular.sound.proper found).2
  · rw [step] at ok
    cases ok
    cases same
    rw [(Store.Change.keeps applied).place.path]
    exact (regular.sound.proper found).2

section Operations

variable (ready : e.Ready scope e.materializer.parameters)

include ready

theorem shared_openParent : (e.openParent input world).Ends
    (Setting.shared scope e.materializer.parameters) [] c (Gives c fun d parent =>
      d.Recalls scope e.materializer.parameters parent ∧
        Path.normalize input = .ok parent.path ∧ d.WasFolder parent.path) := by
  refine shared_bind shared_fromPath ?_
  rintro path _ - ⟨rfl, normalized⟩
  refine shared_bind (shared_resolveFolder ready.within (Path.normalize_isNormal normalized)) ?_
  rintro n d - ⟨there, place, isFolder⟩
  have was := there.wasFolder isFolder
  refine shared_then (shared_expand ready.within there isFolder) fun _ d' grows => ?_
  refine shared_getOr.mono fun result d'' known => ⟨known.1, fun parent ok => ?_⟩
  obtain ⟨recalls, at_, _⟩ := known.2 parent ok
  rw [at_, place]
  refine ⟨recalls, normalized, ?_⟩
  rw [← place]
  exact (grows.trans known.1).wasFolder was

section Locked

variable (checked : e.worlds.check world = .ok ()) (named : Path.IsName name)
  (short : IsShort (Path.join parent.path name))
  (recalls : c.Recalls scope e.materializer.parameters parent) (place : Ready held c parent.path)

include checked named short recalls place

theorem shared_createFolderLocked : (e.createFolderLocked parent world name).Ends
    (Setting.shared scope e.materializer.parameters) held c
      (Gives c fun _ n => n.path = Path.join parent.path name) := by
  refine shared_bind shared_get ?_
  rintro found d grows ⟨_, stays, _⟩
  cases found with
  | none =>
    refine shared_bind shared_now ?_
    rintro time _ - ⟨rfl, valid⟩
    have made := handmade ready recalls.proper short named world .folder valid none (by simp)
    refine shared_bind (shared_putIfAbsent (place.later grows stays) made.proper made.unread rfl) ?_
    rintro ⟨stored, inserted⟩ d' - ⟨_, at_⟩
    exact ends_ite (fun _ => shared_throw) fun _ =>
      shared_then shared_tell fun _ _ _ => shared_pure at_
  | some existing =>
    refine ends_ite (fun _ => ?_) fun _ => ?_
    · refine shared_then (shared_isVisible ready.within) fun visible d' _ => ?_
      refine ends_bind (ends_pure (ends_ite (fun _ => ?_) fun _ => shared_throw))
      refine shared_bind (shared_change (ready.mem_worlds checked) fun _ => trivial)
        fun answer d'' _ at_ => ?_
      cases answer with
      | none => exact shared_throw
      | some revealed => exact shared_then shared_tell fun _ _ _ => shared_pure (at_ _ rfl)
    · exact ends_bind (ends_pure (ends_ite (fun impossible => by cases impossible)
        fun _ => shared_throw))

theorem shared_uploadLocked (data : Bytes) : (e.uploadLocked parent world name data).Ends
    (Setting.shared scope e.materializer.parameters) held c (Gives c Any) := by
  unfold Engine.uploadLocked
  generalize sha256 data = digest
  refine shared_bind shared_get ?_
  rintro found d grows ⟨_, stays, _⟩
  cases found with
  | none =>
    refine shared_bind shared_now ?_
    rintro time _ - ⟨rfl, valid⟩
    have made := handmade ready recalls.proper short named world .file valid (some digest) (by simp)
    refine shared_bind (shared_putIfAbsent (place.later grows stays) made.proper made.unread rfl) ?_
    rintro ⟨stored, inserted⟩ d' - _
    have told : (Attempt.tell .uploaded >>= fun _ => (pure stored : Attempt Node)).Ends
        (Setting.shared scope e.materializer.parameters) held d' (Gives d' Any) :=
      shared_then shared_tell fun _ _ _ => shared_pure trivial
    exact ends_ite (fun _ => shared_then shared_tell fun _ _ _ =>
      shared_then shared_tell fun _ _ _ => shared_pure trivial) fun _ => told
  | some existing =>
    refine ends_ite (fun _ => shared_throw) fun _ => ?_
    refine shared_bind shared_now ?_
    rintro time _ - ⟨rfl, valid⟩
    refine shared_then (shared_call fun _ _ => ⟨valid, trivial⟩) fun answer d' _ => ?_
    have reread : ∀ b : Chronicle, (Attempt.tell .replaced >>= fun _ =>
        getOr (Path.join parent.path name) (.missing (Path.join parent.path name))).Ends
          (Setting.shared scope e.materializer.parameters) held b (Gives b Any) := fun b =>
      shared_then shared_tell fun _ _ _ => shared_any shared_getOr
    cases answer with
    | none => exact shared_throw
    | some _ =>
      cases world with
      | primary => exact reread d'
      | named decider =>
        have listed : decider ∈ scope.worlds := ready.mem_worlds checked
        exact shared_then (shared_discard (shared_call fun _ _ => ⟨listed, trivial⟩)) fun _ b _ =>
          reread b

end Locked

theorem shared_underParent {f : Node → Attempt α} {gives : Chronicle → α → Prop}
    (leads : ∀ d parent, e.worlds.check world = .ok () → Path.IsName name →
      Path.normalize input = .ok parent.path →
      d.Recalls scope e.materializer.parameters parent → Ready [parent.path] d parent.path →
      (f parent).Ends (Setting.shared scope e.materializer.parameters) [parent.path] d
        (Gives d gives)) :
    (fromWorld (e.worlds.check world) >>= fun _ => fromPath (Path.checkName name) >>= fun _ =>
      e.openParent input world >>= fun parent => withLock parent.path
        (discard (getOr parent.path (.missing parent.path)) >>= fun _ => f parent)).Ends
      (Setting.shared scope e.materializer.parameters) [] c (Gives c gives) := by
  refine shared_bind shared_fromWorld ?_
  rintro ⟨⟩ _ - ⟨rfl, checked⟩
  refine shared_bind shared_fromPath ?_
  rintro ⟨⟩ _ - ⟨rfl, named⟩
  refine shared_bind (shared_openParent ready) ?_
  rintro parent d - ⟨recalls, normalized, was⟩
  refine shared_withLock Lock.ordered_nil fun d' grows => ?_
  have there : (discard (getOr parent.path (.missing parent.path))).Ends
      (Setting.shared scope e.materializer.parameters) [parent.path] d'
      (Gives d' fun b _ => Ready [parent.path] b parent.path) := by
    refine ends_discard (shared_getOr.mono ?_)
    rintro result b ⟨grows', known⟩
    cases result with
    | error failure => exact gives_error grows'
    | ok n =>
      obtain ⟨_, _, has⟩ := known n rfl
      exact gives_ok grows' ⟨List.mem_cons_self, ⟨_, has⟩, (grows.trans grows').wasFolder was⟩
  refine shared_bind there fun _ b grows' place => ?_
  exact leads b parent checked named normalized ((grows.trans grows').recalls recalls) place

theorem shared_createFolder (makes : ∀ folder, Path.normalize input = .ok folder →
    Path.IsName name → r.Makes (Path.join folder name)) (fits : r.Fits) :
    (e.createFolder input world name).Ends (Setting.shared scope e.materializer.parameters) [] c
      (Gives c fun _ n => ∃ folder, Path.normalize input = .ok folder ∧
        n.path = Path.join folder name) := by
  refine shared_underParent ready fun d parent checked named normalized recalls place => ?_
  refine (shared_createFolderLocked ready checked named (fits _ (makes _ normalized named)) recalls
    place).mono fun result d' known => ⟨known.1, fun n ok => ?_⟩
  exact ⟨_, normalized, known.2 n ok⟩

theorem shared_uploadFile (data : Bytes) (makes : ∀ folder, Path.normalize input = .ok folder →
    Path.IsName name → r.Makes (Path.join folder name)) (fits : r.Fits) :
    (e.uploadFile input world name data).Ends (Setting.shared scope e.materializer.parameters) []
      c (Gives c Any) :=
  shared_underParent ready fun _ _ checked named normalized recalls place =>
    shared_uploadLocked ready checked named (fits _ (makes _ normalized named)) recalls place data

theorem shared_createAlong {names : List String} {here : Node}
    (along : Operation.Along r.Makes here.path names) (fits : r.Fits) :
    (e.createAlong world names here).Ends (Setting.shared scope e.materializer.parameters) [] c
      (Gives c Any) := by
  induction names generalizing c here with
  | nil => exact shared_pure trivial
  | cons name more ih =>
    have normal := along.next.normal
    have onward : ∀ d n, n.path = Path.join here.path name →
        (e.createAlong world more n).Ends (Setting.shared scope e.materializer.parameters) [] d
          (Gives d Any) := fun d n there => ih (there ▸ along.next)
    unfold Engine.createAlong
    refine ends_bind (ends_outcome ((shared_resolve ready.within normal).mono ?_))
    rintro result d ⟨grows, known⟩
    simp only [then_ok]
    cases result with
    | ok n =>
      refine ends_ite (fun _ => ?_) fun _ => ends_throw (gives_error grows)
      exact (onward d n (known n rfl).2).mono fun _ _ given => given.earlier grows
    | error failure =>
      cases failure with
      | notFound what =>
        refine ends_bind (ends_outcome ((shared_createFolder ready along.makes_next fits).mono ?_))
        rintro result d' ⟨grows', made⟩
        have grown := grows.trans grows'
        simp only [then_ok]
        cases result with
        | ok n =>
          obtain ⟨folder, same, path⟩ := made n rfl
          rw [along.normal] at same
          cases same
          exact (onward d' n path).mono fun _ _ given => given.earlier grown
        | error failure =>
          cases failure with
          | alreadyExists path =>
            refine Ends.mono (shared_bind (shared_resolveFolder ready.within normal)
              fun n b _ found => ?_) fun _ _ given => given.earlier grown
            exact onward b n found.2.1
          | _ => exact ends_throw (gives_error grown)
      | _ => exact ends_throw (gives_error grows)

theorem shared_createFolderAll (makes : ∀ full names, Path.normalize input = .ok full →
    names ≠ [] → names <+: Path.components full → r.Makes (Path.ofNames names)) (fits : r.Fits) :
    (e.createFolderAll input world).Ends (Setting.shared scope e.materializer.parameters) [] c
      (Gives c Any) := by
  refine shared_bind shared_fromWorld ?_
  rintro ⟨⟩ _ - ⟨rfl, _⟩
  refine shared_bind shared_fromPath ?_
  rintro path _ - ⟨rfl, normalized⟩
  refine shared_bind (shared_resolve ready.within Path.isNormal_root) ?_
  rintro root d - ⟨_, top⟩
  have along := Operation.along_root (Path.normalize_isNormal normalized)
    fun names => makes path names normalized
  have place : root.path = Path.root := top
  rw [← place] at along
  exact shared_createAlong ready along fits

omit ready

theorem shared_hasChildren {p : Parameters} {folder : String} :
    (call (.hasChildren folder)).Ends (Setting.shared scope p) held c
      (Gives c fun d occupied => occupied = false → d.now.Bare folder) := by
  refine ends_call fun d waits => ⟨trivial, waits.grows.trans (d.grows_next _), ?_⟩
  rintro occupied ⟨⟩ empty n holds below
  have regular := waits.regular d.now List.mem_cons_self
  rw [(regular.charted.hasChildren_iff folder).mpr ⟨n, holds, below⟩] at empty
  cases empty

/-- The lock of a node is asked for under that of the folder it lies in. -/
theorem Node.Shaped.ordered {seed : UInt64} {n : Node} (shaped : n.Shaped seed)
    (below : n.path ≠ Path.root) : Lock.Ordered [n.parent.getD Path.root] n.path := by
  intro other member
  obtain ⟨folder, lies⟩ := Option.ne_none_iff_exists'.mp fun top =>
    below (shaped.parent_eq_none_iff.mp top)
  rw [List.mem_singleton.mp member, lies, ← shaped.parent, lies]
  rfl

theorem shared_deleteLocked {p : Parameters} (locked : path ∈ held) :
    (Engine.deleteLocked path).Ends (Setting.shared scope p) held c (Gives c Any) := by
  have removal : ∀ b : Chronicle, b.now.Has path false ∨ b.now.Bare path →
      (discard (call (.delete path)) >>= fun _ => Attempt.tell .deleted).Ends
        (Setting.shared scope p) held b (Gives b Any) := by
    intro b safe
    refine shared_then (shared_discard (shared_call fun d waits => ⟨locked, fun has => ?_⟩))
      fun _ _ _ => shared_tell
    have stays := waits.stays path locked
    rcases safe with file | bare
    · cases has.unique (stays.kind _ file)
    · exact stays.bare bare
  unfold Engine.deleteLocked
  refine shared_bind shared_getOr ?_
  rintro current d - ⟨_, rfl, has⟩
  refine ends_ite (fun _ => ?_) fun isFile => ?_
  · refine shared_bind shared_hasChildren fun occupied d' _ empty => ?_
    exact ends_ite (fun _ => shared_throw) fun free =>
      removal d' (Or.inr (empty (by simpa using free)))
  · refine ends_bind (ends_pure (ends_ite (fun impossible => by cases impossible) fun _ => ?_))
    have file : current.isFolder = false := by simpa using isFile
    rw [file] at has
    exact removal d (Or.inl has)

include ready

theorem shared_deleteNode : (e.deleteNode input world).Ends
    (Setting.shared scope e.materializer.parameters) [] c (Gives c Any) := by
  refine shared_bind shared_fromWorld ?_
  rintro ⟨⟩ _ - ⟨rfl, _⟩
  refine shared_bind shared_fromPath ?_
  rintro path _ - ⟨rfl, normalized⟩
  refine ends_ite (fun _ => shared_throw) fun inner => ?_
  refine shared_bind (shared_resolve ready.within (Path.normalize_isNormal normalized)) ?_
  rintro n d - ⟨recalls, place⟩
  have below : n.path ≠ Path.root := by simpa [Path.isRoot, place] using inner
  have locked : ∀ b : Chronicle,
      (withLock (n.parent.getD Path.root) (withLock n.path (Engine.deleteLocked n.path))).Ends
        (Setting.shared scope e.materializer.parameters) [] b (Gives b Any) := fun b =>
    shared_withLock Lock.ordered_nil fun _ _ =>
      shared_withLock (recalls.proper.shaped.ordered below) fun _ _ =>
        shared_deleteLocked List.mem_cons_self
  refine ends_ite (fun isFolder => ?_) fun _ => locked d
  exact shared_then (shared_expand ready.within recalls isFolder) fun _ b _ => locked b

theorem shared_getNode : (e.getNode input world).Ends
    (Setting.shared scope e.materializer.parameters) [] c (Gives c Any) := by
  refine shared_bind shared_fromWorld ?_
  rintro ⟨⟩ _ - ⟨rfl, _⟩
  refine shared_bind shared_fromPath ?_
  rintro path _ - ⟨rfl, normalized⟩
  exact shared_any (shared_resolve ready.within (Path.normalize_isNormal normalized))

theorem shared_listChildren : (e.listChildren input world).Ends
    (Setting.shared scope e.materializer.parameters) [] c (Gives c Any) := by
  refine shared_bind shared_fromWorld ?_
  rintro ⟨⟩ _ - ⟨rfl, _⟩
  refine shared_bind shared_fromPath ?_
  rintro path _ - ⟨rfl, normalized⟩
  exact shared_list ready.within (Path.normalize_isNormal normalized)

omit ready in
theorem shared_getById {p : Parameters} {id : NodeId} : (call (.getById id)).Ends
    (Setting.shared scope p) held c (Gives c fun d found => ∀ n, found = some n →
      d.Recalls scope p n) := by
  refine ends_call fun d waits => ⟨trivial, waits.grows.trans (d.grows_next _), ?_⟩
  rintro found ok n rfl
  have regular := waits.regular d.now List.mem_cons_self
  simp only [Store.perform] at ok
  rcases regular.charted.getById id with ⟨missing, _⟩ | ⟨k, read, holds, _⟩
  · rw [missing] at ok
    cases ok
  · rw [read] at ok
    cases ok
    exact (d.grows_next _).recalls ⟨d.now, List.mem_cons_self, regular, holds⟩

/-- The checksum that is noted is that of what was read, whatever stands there by then. -/
theorem shared_readContent (id : NodeId) : (e.readContent id).Ends
    (Setting.shared scope e.materializer.parameters) held c (Gives c Any) := by
  refine shared_bind shared_getById fun found d _ recalled => ?_
  cases found with
  | none => exact shared_throw
  | some n =>
    have recalls := recalled n rfl
    refine ends_ite (fun _ => shared_throw) fun isFile => ?_
    have served : d.Served n.path n.upload := recalls.served (by simpa using isFile)
    have same : fileContent n.id e.config.parameters.contentSeed n.upload
        = fileContent (nodeIdOf e.materializer.parameters.seed n.path)
          e.materializer.parameters.contentSeed n.upload := by
      rw [ready.config, recalls.proper.shaped.id]
    dsimp only
    have short := isShort_checksum (fileContent n.id e.config.parameters.contentSeed n.upload)
    have right := congrArg checksumOf same
    generalize fileContent n.id e.config.parameters.contentSeed n.upload = bytes at short right ⊢
    generalize checksumOf bytes = text at short right
    cases n.checksum with
    | some kept =>
      exact ends_ite (fun _ => shared_then shared_tell fun _ _ _ => shared_pure trivial)
        fun _ => shared_pure trivial
    | none =>
      refine shared_then (shared_discard (shared_call fun _ waits => ?_)) fun _ _ _ =>
        shared_pure trivial
      exact ⟨short, waits.grows.served served, right⟩

theorem shared_readRange (id : NodeId) (offset : UInt64) (length : Option UInt64) :
    (e.readRange id offset length).Ends (Setting.shared scope e.materializer.parameters) held c
      (Gives c Any) :=
  shared_then (shared_readContent ready id) fun _ _ _ => shared_pure trivial

theorem shared_checksum : (e.checksum input world).Ends
    (Setting.shared scope e.materializer.parameters) [] c (Gives c Any) := by
  refine shared_then (shared_getNode ready) fun n d _ => ?_
  refine ends_ite (fun _ => shared_throw) fun _ => ?_
  cases n.checksum with
  | some kept => exact shared_pure trivial
  | none => exact shared_then (shared_readContent ready n.id) fun _ _ _ => shared_pure trivial

/-- Whatever the others do, an operation makes only calls that they can allow for. -/
theorem shared_run (r : Operation) (fits : r.Fits) : (r.run e).Ends
    (Setting.shared scope e.materializer.parameters) [] c (Gives c Any) := by
  cases r with
  | getNode path world => exact shared_getNode ready
  | listChildren path world => exact shared_listChildren ready
  | createFolder parent world name =>
    refine shared_any (shared_createFolder ready ?_ fits)
    exact fun folder normalized named => ⟨folder, normalized, named, rfl⟩
  | createFolderAll path world =>
    refine shared_createFolderAll ready ?_ fits
    exact fun full names normalized some start => ⟨full, names, normalized, some, start, rfl⟩
  | uploadFile parent world name data =>
    refine shared_uploadFile ready data ?_ fits
    exact fun folder normalized named => ⟨folder, normalized, named, rfl⟩
  | deleteNode path world => exact shared_deleteNode ready
  | readContent id => exact shared_readContent ready id
  | readRange id offset length => exact shared_readRange ready id offset length
  | checksum path world => exact shared_checksum ready

end Operations

end SeedTree
