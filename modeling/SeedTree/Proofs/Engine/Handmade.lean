import SeedTree.Proofs.Engine.Attested

/- Creations under a name in a folder: what they leave on record at their target, and that the world
   in which they are made shows it. -/
namespace SeedTree

open Attempt
open SeedTree.Path (Within)

variable {e : Engine} {scope : Scope} {s t : Store} {parent n k : Node} {held : List String}
  {path name input folder : String} {world : World}

structure Engine.Makes (e : Engine) (scope : Scope) (parent : Node) (world : World)
    (name : String) (n : Node) : Prop where
  handmade : e.materializer.Handmade scope parent n
  place : n.path = Path.join parent.path name
  home : n.existence = e.worlds.onlyIn world

namespace Engine.Makes

variable (makes : e.Makes scope parent world name n)

include makes

theorem below : n.parent ≠ none := by
  rw [makes.handmade.below]
  exact Option.some_ne_none _

theorem existence (other : String) :
    n.existence[other]? = e.worlds.entries[other]?.map fun _ => decide (other = world.name) := by
  rw [makes.home]
  exact NameMap.getElem?_map _ _ _

theorem decided (offers : e.worlds.Offers world) : n.decision? world = some true := by
  cases world with
  | primary => rfl
  | named home =>
    obtain ⟨probability, listed⟩ := (mem_iff_getElem?_some _ _).mp offers
    rw [Node.decision?, Node.isRoot_eq_false makes.below, makes.existence, listed]
    simp [World.name]

theorem hidden {other : String} (listed : other ∈ e.worlds.entries)
    (elsewhere : other ≠ world.name) : n.existence[other]? = some false := by
  obtain ⟨probability, found⟩ := (mem_iff_getElem?_some _ _).mp listed
  rw [makes.existence, found]
  simp [elsewhere]

theorem holds : (s.insertNode n).Holds n := by
  rw [Store.Holds, Store.record?_insertNode makes.handmade.proper, if_pos rfl]

theorem moves (holds : s.Holds parent) (isFolder : parent.isFolder = true)
    (done : parent.generated = true) (free : s.record? (Path.join parent.path name) = none) :
    Moves e.materializer scope Deed.Lasts s (s.insertNode n) := by
  rw [← makes.place] at free
  have lasts : Deed.Lasts (.made n.path) := trivial
  exact .one lasts (.made holds isFolder done free makes.handmade)

end Engine.Makes

section Locked

variable (wf : s.WellFormed scope e.materializer.parameters)
  (ready : e.Ready scope e.materializer.parameters)
  (named : Path.IsName name) (holds : s.Holds parent)
  (short : IsShort (Path.join parent.path name))

include wf ready named holds short

section Absent

variable (absent : s.record? (Path.join parent.path name) = none)

include absent

theorem ends_createFolderLocked_absent : (e.createFolderLocked parent world name).Ends
    (Setting.alone scope e.materializer.parameters) held s fun result t =>
      ∃ n, e.Makes scope parent world name n ∧ n.isFolder = true ∧
        result = .ok n ∧ t = s.insertNode n := by
  have proper := (wf.regular.sound.proper holds).1
  refine ends_bind (alone_get wf.regular ?_)
  simp only [absent, then_ok]
  refine ends_bind (ends_now fun time valid => ?_)
  have made := handmade ready proper short named world .folder valid none (by simp)
  refine ends_bind (alone_putIfAbsent wf.regular made.proper ?_ fun _ => ?_)
  · intro k present
    exact absurd (absent.symm.trans present) (Option.some_ne_none k).symm
  · exact ends_bind (ends_tell (ends_pure ⟨_, ⟨made, rfl, rfl⟩, rfl, rfl, rfl⟩))

theorem ends_uploadLocked_absent (data : Bytes) : (e.uploadLocked parent world name data).Ends
    (Setting.alone scope e.materializer.parameters) held s fun result t =>
      ∃ n, e.Makes scope parent world name n ∧ n.isFolder = false ∧
        result = .ok n ∧ t = s.insertNode n := by
  have proper := (wf.regular.sound.proper holds).1
  unfold Engine.uploadLocked
  generalize sha256 data = digest
  refine ends_bind (alone_get wf.regular ?_)
  simp only [absent, then_ok]
  refine ends_bind (ends_now fun time valid => ?_)
  have made := handmade ready proper short named world .file valid (some digest) (by simp)
  refine ends_bind (alone_putIfAbsent wf.regular made.proper ?_ fun _ => ?_)
  · intro k present
    exact absurd (absent.symm.trans present) (Option.some_ne_none k).symm
  · exact ends_bind (ends_tell (ends_pure ⟨_, ⟨made, rfl, rfl⟩, rfl, rfl, rfl⟩))

end Absent

end Locked

/-- A node that a creation answers: it is on record, and its world shows it. -/
structure Store.Lays (t : Store) (world : World) (path : String) (n : Node) : Prop where
  place : n.path = path
  holds : t.Holds n
  below : n.parent ≠ none
  decided : n.decision? world = some true

theorem Engine.Makes.lays (makes : e.Makes scope parent world name n)
    (offers : e.worlds.Offers world) : (s.insertNode n).Lays world (Path.join parent.path name) n :=
  ⟨makes.place, makes.holds, makes.below, makes.decided offers⟩

theorem ends_reveal {decider : String} (wf : s.WellFormed scope e.materializer.parameters)
    (ready : e.Ready scope e.materializer.parameters) (holds : s.Holds n) (below : n.parent ≠ none)
    (listed : decider ∈ scope.worlds) : (call (.change n.path (.redecision decider true))).Ends
      (Setting.alone scope e.materializer.parameters) held s fun result t =>
        ∃ k, result = .ok (some k) ∧ Moves e.materializer scope Deed.Lasts s t ∧
          k.isFolder = n.isFolder ∧
          t.Lays (.named decider) n.path k := by
  have suits : (Store.Change.redecision decider true).Suits e.materializer scope n :=
    ⟨below, rfl, listed⟩
  have shows : ∀ {k : Node}, k.parent = n.parent → k.existence[decider]? = some true →
      k.decision? (.named decider) = some true := by
    intro k same kept
    rw [Node.decision?, Node.isRoot_eq_false (by rw [same]; exact below), kept]
    rfl
  refine alone_change wf.regular (suits.fits ready.within) holds ?_ ?_
  · intro same
    exact ⟨n, rfl, .none s, rfl, rfl, holds, below,
      shows rfl (Store.Change.redecision_declined same)⟩
  · intro k new proper
    have keeps := Store.Change.keeps new
    have kept : k.existence[decider]? = some true := by
      rw [Store.Change.redecision_cases new]
      exact Std.ExtTreeMap.getElem?_insert_self
    have stands : (s.replaced k).Holds k := Store.replaced_holds proper
    have move : Move e.materializer scope
        (.changed n.path (.redecision decider true)) s (s.replaced k) :=
      .changed holds suits new
    have lasts : Deed.Lasts (.changed n.path (.redecision decider true)) := trivial
    exact ⟨k, rfl, .one lasts move, keeps.isFolder, keeps.place.path, stands,
      keeps.place.parent ▸ below,
      shows keeps.place.parent kept⟩

theorem ends_replace {m : Materializer} {digest : Digest} {time : Moment}
    (wf : s.WellFormed scope m.parameters) (within : m.worlds.Within scope) (holds : s.Holds n)
    (isFile : n.isFolder = false) (valid : time.isValid = true) :
    (call (.change n.path (.content digest time))).Ends (Setting.alone scope m.parameters) held s
      fun result t => ∃ k, result = .ok (some k) ∧ Moves m scope Deed.Lasts s t ∧ t.Holds k ∧
        k.path = n.path ∧ k.parent = n.parent := by
  have suits : (Store.Change.content digest time).Suits m scope n := ⟨isFile, valid⟩
  refine alone_change wf.regular (suits.fits within) holds
    (fun impossible => by cases impossible) fun k new proper => ?_
  have place := (Store.Change.keeps new).place
  have lasts : Deed.Lasts (.changed n.path (.content digest time)) := trivial
  exact ⟨k, rfl, .one lasts (.changed holds suits new), Store.replaced_holds proper, place.path,
    place.parent⟩

theorem ends_reread_lays {m : Materializer} (wf : s.WellFormed scope m.parameters)
    (within : m.worlds.Within scope) (moves : Moves m scope Deed.Lasts s t)
    (lays : t.Lays world path k) :
    (Attempt.tell .replaced >>= fun _ => getOr path (.missing path)).Ends
      (Setting.alone scope m.parameters) held t fun result u => ∀ n, result = .ok n →
        Moves m scope Deed.Lasts s u ∧ u.Lays world path n := by
  refine ends_bind (ends_tell (alone_getOr (moves.wellFormed within wf).regular ?_ ?_))
  · rintro l found n ⟨⟩
    have same := lays.holds
    rw [Store.Holds, lays.place, found] at same
    cases same
    exact ⟨moves, lays⟩
  · rintro _ n ⟨⟩

section Locked

variable (wf : s.WellFormed scope e.materializer.parameters)
  (ready : e.Ready scope e.materializer.parameters) (offers : e.worlds.Offers world)
  (named : Path.IsName name)
  (holds : s.Holds parent) (isFolder : parent.isFolder = true) (done : parent.generated = true)
  (short : IsShort (Path.join parent.path name))

include wf ready offers named holds isFolder done short

theorem ends_createFolderLocked_lays : (e.createFolderLocked parent world name).Ends
    (Setting.alone scope e.materializer.parameters) held s fun result t =>
      (∃ n, result = .ok n ∧ Moves e.materializer scope Deed.Lasts s t ∧ n.isFolder = true ∧
        t.Lays world (Path.join parent.path name) n) ∨
      (result = .error (.alreadyExists (Path.join parent.path name)) ∧
        Moves e.materializer scope Deed.Walks s t ∧
          ∃ k, t.record? (Path.join parent.path name) = some k ∧
          (k.isFolder = true → k.decision? world = some true)) := by
  cases there : s.record? (Path.join parent.path name) with
  | none =>
    refine (ends_createFolderLocked_absent wf ready named holds short there).mono ?_
    rintro _ _ ⟨n, makes, kind, rfl, rfl⟩
    exact Or.inl ⟨n, rfl, makes.moves holds isFolder done there, kind, makes.lays offers⟩
  | some existing =>
    obtain ⟨stands, place⟩ := wf.holds there
    have below := wf.below_join (wf.shaped holds).normal named there
    refine ends_bind (alone_get wf.regular ?_)
    simp only [there, then_ok]
    refine ends_ite (fun kind => ?_) fun kind => ?_
    · refine ends_bind
        ((ends_isVisible_decides wf ready.within offers stands (.refl existing)).mono ?_)
      rintro _ t ⟨visible, k, rfl, decides, found, backfills, decided⟩
      have moves := decides.mono Deed.walks_of_decides
      have keeps := backfills.keeps
      refine ends_bind (ends_pure ?_)
      refine ends_ite (fun hidden => ?_) fun shown => ?_
      · cases world with
        | primary =>
          cases decided
          cases hidden
        | named decider =>
          have later := moves.wellFormed ready.within wf
          obtain ⟨stands', path⟩ := later.holds found
          rw [← place, ← path]
          have below' : k.parent ≠ none := by
            rw [keeps.place.parent]
            exact below
          refine ends_bind
            ((ends_reveal later ready stands' below' (ready.within decider offers)).mono ?_)
          rintro _ u ⟨l, rfl, rest, kind', lays⟩
          refine ends_bind (ends_tell (ends_pure (Or.inl ⟨l, rfl, ?_, ?_, lays⟩)))
          · exact (moves.mono Deed.lasts_of_walks).append rest
          · rw [kind', keeps.isFolder, kind]
      · have visible : visible = true := by simpa using shown
        subst visible
        rw [place] at found
        exact ends_throw (Or.inr ⟨rfl, moves, k, found, fun _ => decided⟩)
    · refine ends_bind (ends_pure (ends_ite (fun impossible => by cases impossible) fun _ => ?_))
      exact ends_throw
        (Or.inr ⟨rfl, .none s, existing, there, fun isFolder => absurd isFolder kind⟩)

theorem ends_uploadLocked_lays (data : Bytes) : (e.uploadLocked parent world name data).Ends
    (Setting.alone scope e.materializer.parameters) held s fun result t => ∀ n, result = .ok n →
      Moves e.materializer scope Deed.Lasts s t ∧ t.Lays world (Path.join parent.path name) n := by
  cases there : s.record? (Path.join parent.path name) with
  | none =>
    refine (ends_uploadLocked_absent wf ready named holds short there data).mono ?_
    rintro _ _ ⟨n, makes, _, rfl, rfl⟩ n ⟨⟩
    exact ⟨makes.moves holds isFolder done there, makes.lays offers⟩
  | some existing =>
    obtain ⟨stands, place⟩ := wf.holds there
    have below := wf.below_join (wf.shaped holds).normal named there
    unfold Engine.uploadLocked
    generalize sha256 data = digest
    refine ends_bind (alone_get wf.regular ?_)
    simp only [there, then_ok]
    refine ends_ite (fun kind => ends_throw (by rintro n ⟨⟩)) fun kind => ?_
    refine ends_bind (ends_now fun time valid => ?_)
    rw [← place]
    refine ends_bind
      ((ends_replace wf ready.within stands (by simpa using kind) valid).mono ?_)
    rintro _ t ⟨k, rfl, moves, stands', path, parent⟩
    have later := moves.wellFormed ready.within wf
    simp only [then_ok]
    rw [← path]
    cases world with
    | primary =>
      exact ends_reread_lays wf ready.within moves ⟨rfl, stands', parent ▸ below, rfl⟩
    | named decider =>
      refine ends_bind (ends_discard
        ((ends_reveal later ready stands' (parent ▸ below) (ready.within decider offers)).mono ?_))
      rintro _ u ⟨l, rfl, rest, _, lays⟩
      exact ends_reread_lays wf ready.within (moves.append rest) lays

end Locked

structure Store.Hosts (t : Store) (n : Node) : Prop where
  holds : t.Holds n
  isFolder : n.isFolder = true
  done : n.generated = true

section Opening

variable {m : Materializer} (wf : s.WellFormed scope m.parameters) (within : m.worlds.Within scope)

include wf within

theorem ends_reopen (found : s.record? n.path = some k) (keeps : Store.Change.Keeps n k)
    (isFolder : k.isFolder = true) :
    (m.expand n >>= fun _ => getOr n.path (.missing n.path)).Ends
      (Setting.alone scope m.parameters) held s
      fun result t => Moves m scope Deed.Walks s t ∧
        ((∃ parent, result = .ok parent ∧ parent.path = n.path ∧ t.Hosts parent) ∨
          result = .error (.unending n.path) ∧ m.Undrawable t n.path) := by
  have place := (wf.holds found).2
  have reread : ∀ {u l}, Moves m scope Deed.Walks s u →
    u.record? n.path = some l → l.isFolder = true →
      l.generated = true → (getOr n.path (.missing n.path)).Ends
        (Setting.alone scope m.parameters) held u
        fun result t => Moves m scope Deed.Walks s t ∧
          ((∃ parent, result = .ok parent ∧ parent.path = n.path ∧ t.Hosts parent) ∨
            result = .error (.unending n.path) ∧ m.Undrawable t n.path) := by
    intro u l moves there kind done
    have later := moves.wellFormed within wf
    refine alone_getOr later.regular ?_ ?_
    · intro l' there'
      cases Store.Holds.unique there there'
      obtain ⟨holds, path⟩ := later.holds there
      exact ⟨moves, Or.inl ⟨l, rfl, path, holds, kind, done⟩⟩
    · intro absent
      rw [there] at absent
      cases absent
  refine ends_bind (ends_expand wf within found isFolder keeps.generated ?_ ?_ ?_)
  · exact fun done => reread (.none s) found isFolder done
  · intro time specs opens
    refine reread (l := k.expanded) (.one (Deed.walks_expanded _) (.expanded opens)) ?_ isFolder rfl
    rw [opens.record? wf within, place, if_pos rfl]
  · intro _ undrawn
    rw [place]
    exact ⟨.none s, Or.inr ⟨rfl, k, found, undrawn⟩⟩

end Opening

section Creating

variable (wf : s.WellFormed scope e.materializer.parameters)
  (ready : e.Ready scope e.materializer.parameters) (offers : e.worlds.Offers world)

include wf ready

omit ready in
theorem ends_underLock {α : Type} {f : Node → Attempt α} {post : Except Failure α → Store → Prop}
    (holds : s.Holds parent)
    (ends : (f parent).Ends (Setting.alone scope e.materializer.parameters)
      (parent.path :: held) s post) :
    (withLock parent.path
      (discard (getOr parent.path (.missing parent.path)) >>= fun _ => f parent)).Ends
      (Setting.alone scope e.materializer.parameters) held s post := by
  refine alone_withLock
    (ends_bind (ends_discard (alone_getOr wf.regular (fun _ _ => ends) fun absent => ?_)))
  rw [holds] at absent
  cases absent

theorem ends_openParent_attested (normal : Path.IsNormal path)
    (attests : s.Attests world path) (found : s.record? path = some k)
    (isFolder : k.isFolder = true) :
    (e.openParent path world).Ends
      (Setting.alone scope e.materializer.parameters) held s fun result t =>
      Moves e.materializer scope Deed.Walks s t ∧
        ((∃ parent, result = .ok parent ∧ parent.path = path ∧ t.Hosts parent) ∨
          result = .error (.unending path) ∧ e.materializer.Undrawable t path) := by
  refine ends_bind (ends_fromPath ?_)
  rw [normal]
  refine ends_bind (ends_bind ((ends_resolve_attested wf normal attests).mono ?_))
  rintro _ _ ⟨rfl, n, rfl, found'⟩
  cases Store.Holds.unique found found'
  obtain rfl := (wf.holds found).2
  refine ends_ite (fun _ => ends_pure ?_) fun isFile => absurd isFolder isFile
  exact ends_reopen wf ready.within found (.refl k) isFolder

include offers

theorem ends_openParent_attests :
    (e.openParent input world).Ends (Setting.alone scope e.materializer.parameters)
    held s fun result t => Moves e.materializer scope Deed.Walks s t ∧
      ∀ parent, result = .ok parent →
      Path.normalize input = .ok parent.path ∧ t.Attests world parent.path ∧ t.Hosts parent := by
  refine ends_bind (ends_fromPath ?_)
  cases normalized : Path.normalize input with
  | error fault => exact ⟨.none s, fun parent ok => by cases ok⟩
  | ok path =>
    refine ends_bind (ends_bind ((ends_resolve_attests wf ready.within offers
      (Path.normalize_isNormal normalized)).mono ?_))
    rintro result t ⟨moves, arrived⟩
    cases result with
    | error failure => exact ⟨moves, fun parent ok => by cases ok⟩
    | ok n =>
      obtain ⟨place, attests, l, found, keeps⟩ := arrived n rfl
      have later := moves.wellFormed ready.within wf
      refine ends_ite (fun isFolder => ends_pure ?_) fun _ =>
        ends_throw ⟨moves, fun parent ok => by cases ok⟩
      rw [← place] at found
      refine (ends_reopen later ready.within found keeps (keeps.isFolder.trans isFolder)).mono ?_
      rintro _ u ⟨rest, ⟨parent, rfl, path, hosts⟩ | ⟨rfl, -⟩⟩
      · refine ⟨moves.append rest, ?_⟩
        rintro _ ⟨⟩
        rw [path, place]
        exact ⟨rfl, attests.walks ready.within later rest, hosts⟩
      · exact ⟨moves.append rest, fun parent ok => by cases ok⟩

theorem ends_inParent {f : Node → Attempt Node} {post : Except Failure Node → Store → Prop}
    (fails : ∀ failure t, post (.error failure) t)
    (leads : ∀ t parent, Moves e.materializer scope Deed.Walks s t →
      t.WellFormed scope e.materializer.parameters → t.Hosts parent → t.Attests world parent.path →
      Path.normalize input = .ok parent.path → Path.IsName name →
      (f parent).Ends (Setting.alone scope e.materializer.parameters)
        (parent.path :: held) t post) :
    (fromWorld (e.worlds.check world) >>= fun _ => fromPath (Path.checkName name) >>= fun _ =>
      e.openParent input world >>= fun parent => withLock parent.path
        (discard (getOr parent.path (.missing parent.path)) >>= fun _ => f parent)).Ends
      (Setting.alone scope e.materializer.parameters) held s post := by
  refine ends_bind (ends_fromWorld ?_)
  cases e.worlds.check world with
  | error fault => exact fails _ s
  | ok passed =>
    refine ends_bind (ends_fromPath ?_)
    cases named : Path.checkName name with
    | error fault => exact fails _ s
    | ok passed' =>
      refine ends_bind ((ends_openParent_attests wf ready offers).mono ?_)
      rintro result t ⟨moves, opened⟩
      cases result with
      | error failure => exact fails _ t
      | ok parent =>
        obtain ⟨normalized, attests, hosts⟩ := opened parent rfl
        have later := moves.wellFormed ready.within wf
        exact ends_underLock later hosts.holds
          (leads t parent moves later hosts attests normalized named)

end Creating

namespace Operation

inductive Creates (input : String) (world : World) (name : String) : Operation → Prop where
  | folder : Creates input world name (.createFolder input world name)
  | file (data : Bytes) : Creates input world name (.uploadFile input world name data)

variable {r : Operation}

theorem Creates.makes (creates : r.Creates input world name) (path : String) : r.Makes path ↔
    ∃ folder, Path.normalize input = .ok folder ∧ Path.IsName name ∧
      path = Path.join folder name := by
  cases creates <;> exact Iff.rfl

section Ending

variable (wf : s.WellFormed scope e.materializer.parameters)
  (ready : e.Ready scope e.materializer.parameters) (offers : e.worlds.Offers world)
  (creates : r.Creates input world name) (fits : r.Fits)

include wf ready offers creates fits

theorem ends_creates_attests :
    (r.run e).Ends (Setting.alone scope e.materializer.parameters) held s fun result t =>
    result.isOk = true → ∀ path, r.Makes path → t.Attests world path := by
  have lays : ∀ {t u : Store} {parent n}, t.WellFormed scope e.materializer.parameters →
    t.Hosts parent →
      t.Attests world parent.path → Path.normalize input = .ok parent.path → Path.IsName name →
      Moves e.materializer scope Deed.Lasts t u → u.Lays world (Path.join parent.path name) n →
      ∀ path, r.Makes path → u.Attests world path := by
    intro t u parent n later hosts attests normalized named moves lays path makes
    obtain ⟨folder, same, _, rfl⟩ := (creates.makes path).mp makes
    rw [normalized] at same
    cases same
    exact (Store.attests_join (later.shaped hosts.holds).normal named).mpr
      ⟨attests.moves ready.within later moves, n, lays.place ▸ lays.holds, lays.decided⟩
  have short : ∀ {folder}, Path.normalize input = .ok folder → Path.IsName name →
      IsShort (Path.join folder name) :=
    fun normalized named => fits _ ((creates.makes _).mpr ⟨_, normalized, named, rfl⟩)
  cases creates with
  | folder =>
    refine ends_inParent wf ready offers
      (fun _ _ => nofun) fun t parent _ later hosts attests normalized named => ?_
    refine (ends_createFolderLocked_lays later ready offers named hosts.holds
      hosts.isFolder hosts.done
      (short normalized named)).mono ?_
    rintro _ u (⟨n, rfl, moves, _, laid⟩ | ⟨rfl, _⟩)
    · exact fun _ => lays later hosts attests normalized named moves laid
    · rintro ⟨⟩
  | file data =>
    refine ends_inParent wf ready offers
      (fun _ _ => nofun) fun t parent _ later hosts attests normalized named => ?_
    refine (ends_uploadLocked_lays later ready offers named hosts.holds hosts.isFolder hosts.done
      (short normalized named) data).mono ?_
    intro result u laid
    cases result with
    | error failure => rintro ⟨⟩
    | ok n => exact fun _ => lays later hosts attests normalized named (laid n rfl).1 (laid n rfl).2

theorem ends_creates_makes (normalized : Path.normalize input = .ok folder)
    (bars : e.materializer.Bars s (Path.join folder name)) :
    (r.run e).Ends (Setting.alone scope e.materializer.parameters) held s fun result t =>
      result.isOk = true →
      ∃ parent n, e.Makes scope parent world name n ∧
        t.record? (Path.join folder name) = some n := by
  have short : Path.IsName name → IsShort (Path.join folder name) :=
    fun named => fits _ ((creates.makes _).mpr ⟨_, normalized, named, rfl⟩)
  have absent : ∀ {t : Store}, Moves e.materializer scope Deed.Walks s t → Path.IsName name →
      t.record? (Path.join folder name) = none := by
    intro t moves named
    have normal := Path.isNormal_join (Path.normalize_isNormal normalized) named
    have unmade : ¬ Deed.Walks (.made (Path.join folder name)) := id
    exact (bars.moves ready.within moves wf normal unmade).absent
      (moves.wellFormed ready.within wf) normal
  cases creates with
  | folder =>
    refine ends_inParent wf ready offers
      (fun _ _ => nofun) fun t parent moves later hosts _ same named => ?_
    rw [normalized] at same
    cases same
    refine (ends_createFolderLocked_absent later ready named hosts.holds (short named)
      (absent moves named)).mono ?_
    rintro _ _ ⟨n, makes, _, rfl, rfl⟩ _
    exact ⟨parent, n, makes, makes.place ▸ makes.holds⟩
  | file data =>
    refine ends_inParent wf ready offers
      (fun _ _ => nofun) fun t parent moves later hosts _ same named => ?_
    rw [normalized] at same
    cases same
    refine (ends_uploadLocked_absent later ready named hosts.holds (short named)
      (absent moves named) data).mono ?_
    rintro _ _ ⟨n, makes, _, rfl, rfl⟩ _
    exact ⟨parent, n, makes, makes.place ▸ makes.holds⟩

end Ending

end Operation

end SeedTree
