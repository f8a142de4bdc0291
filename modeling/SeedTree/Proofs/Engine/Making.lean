import SeedTree.Proofs.Engine.Foresight

/- The operations that make and remove nodes, each on a well-formed store with nothing in
   between. -/
namespace SeedTree

open Attempt

variable {e : Engine} {scope : Scope} {s t : Store} {parent n shown : Node}
  {held more : List String}
  {path name input : String} {world : World} {may : Deed → Prop} {v : Picture}

/-- A deletion fails and only reads, or it removes the record that it found, as foreseen. -/
structure Deleted (e : Engine) (scope : Scope) (v : Picture) (input : String) (world : World)
    (s : Store) (result : Except Failure Unit) (t : Store) : Prop where
  outcome : (∃ failure, result = .error failure ∧ Moves e.materializer scope Deed.Walks s t) ∨
    (result = .ok () ∧ ∃ u n, Path.normalize input = .ok n.path ∧
      Moves e.materializer scope Deed.Walks s u ∧ u.Holds n ∧ n.parent ≠ none ∧
      (∀ k, u.Holds k → k.parent ≠ some n.path) ∧ t = u.eraseNode n.path n)
  answer : Agree (fun _ _ => True) (v.remove e input world) result
  depicts : e.materializer.Depicts (v.without (v.remove e input world)) t

/-- What is done about a place ends as foreseen: a node that is answered lies there, and a failure
only reads. -/
structure ForeseenAt (e : Engine) (scope : Scope) (may : Deed → Prop) (v : Picture)
    (expected : Except Failure Node) (place : String) (s : Store) (result : Except Failure Node)
    (t : Store) : Prop where
  foreseen : Foreseen e.materializer scope may expected (v.after expected) s result t
  place : ∀ n, result = .ok n → n.path = place
  harmless : ∀ failure, result = .error failure → Moves e.materializer scope Deed.Walks s t

section Making

variable (wf : s.WellFormed scope e.materializer.parameters)
  (ready : e.Ready scope e.materializer.parameters) (depicts : e.materializer.Depicts v s)

include wf ready depicts

omit wf ready in
theorem Materializer.Depicts.still (moves : Moves e.materializer scope Deed.Walks s t)
    (wf : s.WellFormed scope e.materializer.parameters)
    (ready : e.Ready scope e.materializer.parameters) : e.materializer.Depicts v t :=
  depicts.reads ready.within wf moves fun _ walks => walks.reads

theorem ForeseenAt.refused {expected : Except Failure Node} {failure : Failure} {place : String}
    (walks : ∀ deed, deed.Walks → may deed) (moves : Moves e.materializer scope Deed.Walks s t)
    (same : expected = .error failure) :
    ForeseenAt e scope may v expected place s (.error failure) t :=
  ⟨.refused (moves.mono walks) (depicts.still moves wf ready) same, (fun _ ok => by cases ok),
    fun _ _ => moves⟩

theorem ends_lookup {path : String} {post : Except Failure Node → Store → Prop}
    (normal : Path.IsNormal path)
    (fails : ∀ failure t, Moves e.materializer scope Deed.Walks s t →
      v.resolve e.materializer world path = .error failure → post (.error failure) t)
    (leads : ∀ n drawn t u, v.resolve e.materializer world path = .ok drawn →
      drawn.Like e.materializer n → n.path = path → Moves e.materializer scope Deed.Walks s u →
      u.Holds n → Moves e.materializer scope Deed.Walks u t → post (.ok n) t) :
    (e.materializer.resolve path world).Ends (Setting.alone scope e.materializer.parameters) held s
      post := by
  have pictured := depicts.resolve wf world normal
  refine (ends_resolve wf ready.within normal).mono fun result t walked => ?_
  cases result with
  | error failure =>
    rw [walked.answer.eq_error] at pictured
    exact fails failure t walked.moves pictured.eq_error
  | ok n =>
    obtain ⟨shown, resolved, u, before, holds, after, alike⟩ := walked.answer.of_ok
    rw [resolved] at pictured
    obtain ⟨drawn, same, like⟩ := pictured.of_ok
    refine leads n drawn t u same (like.trans alike.like) ?_ before holds after
    rw [alike.like.place.path]
    exact wf.resolved_path normal resolved

theorem ends_lookupFolder {path : String} {post : Except Failure Node → Store → Prop}
    (normal : Path.IsNormal path)
    (fails : ∀ failure t, Moves e.materializer scope Deed.Walks s t →
      v.folder e.materializer world path = .error failure → post (.error failure) t)
    (leads : ∀ n drawn t u, v.folder e.materializer world path = .ok drawn →
      drawn.Like e.materializer n → n.path = path → n.isFolder = true →
      Moves e.materializer scope Deed.Walks s u → u.Holds n →
      Moves e.materializer scope Deed.Walks u t → post (.ok n) t) :
    (e.materializer.resolveFolder path world).Ends (Setting.alone scope e.materializer.parameters)
      held s post := by
  refine ends_bind (ends_lookup wf ready depicts normal ?_ ?_)
  · intro failure t moves failed
    refine fails failure t moves ?_
    rw [Picture.folder, failed]
    rfl
  · intro n drawn t u found like place before holds after
    have folder : v.folder e.materializer world path =
        if n.isFolder then .ok drawn else .error (.notADirectory n.path) := by
      rw [Picture.folder, found, like.isFolder, like.place.path]
      rfl
    refine ends_ite (fun isFolder => ends_pure ?_) fun isFile => ends_throw ?_
    · exact leads n drawn t u (by rw [folder, if_pos isFolder]) like place
        isFolder before holds after
    · exact fails _ t (before.append after) (by rw [folder, if_neg isFile])

theorem ends_openFound {post : Except Failure Unit → Store → Prop}
    (before : Moves e.materializer scope Deed.Walks s u) (holds : u.Holds n)
    (isFolder : n.isFolder = true) (after : Moves e.materializer scope Deed.Walks u t)
    (fails : ∀ failure, (∀ name, Path.IsName name → v (Path.join n.path name) = .error failure) →
      post (.error failure) t)
    (leads : ∀ k w, Moves e.materializer scope Deed.Walks s w → w.Holds k → k.path = n.path →
      k.generated = true → Store.Change.Keeps n k → n.Like e.materializer k → post (.ok ()) w) :
    (e.materializer.expand n).Ends (Setting.alone scope e.materializer.parameters) held t post := by
  have middle := before.wellFormed ready.within wf
  have normal := (middle.shaped holds).normal
  refine ends_open middle ready.within holds isFolder after ?_ ?_
  · intro w k rest there done keeps alike
    have moves := before.append rest
    obtain ⟨stands, place⟩ := (moves.wellFormed ready.within wf).holds there
    exact leads k w moves stands place done keeps alike.like
  · intro failure unending
    refine fails failure fun name named => ?_
    have shows := (depicts.still before wf ready) _ (Path.isNormal_join normal named)
    rw [middle.shows_join normal named, middle.shows_record normal holds] at shows
    simp only [Except.bind, isFolder, if_true] at shows
    rw [unending name named] at shows
    exact shows.eq_error

theorem ends_openParent {post : Except Failure Node → Store → Prop}
    (fails : ∀ failure t, Moves e.materializer scope Deed.Walks s t →
      (∀ name, Path.IsName name → ((v.host e.materializer world input).bind fun host =>
        v (Path.join host.path name)) = .error failure) → post (.error failure) t)
    (leads : ∀ t parent shown, v.host e.materializer world input = .ok shown →
      shown.Like e.materializer parent → Path.normalize input = .ok parent.path →
      Moves e.materializer scope Deed.Walks s t → t.Holds parent → parent.isFolder = true →
      parent.generated = true → post (.ok parent) t) :
    (e.openParent input world).Ends
      (Setting.alone scope e.materializer.parameters) held s post := by
  refine ends_bind (ends_fromPath ?_)
  cases normalized : Path.normalize input with
  | error fault =>
    refine fails _ s (.none s) fun name _ => ?_
    rw [Picture.host, normalized]
    rfl
  | ok path =>
    have hosted : v.host e.materializer world input = v.folder e.materializer world path := by
      rw [Picture.host, normalized]
      rfl
    rw [hosted] at fails leads
    refine ends_bind (ends_lookupFolder wf ready depicts (Path.normalize_isNormal normalized) ?_ ?_)
    · intro failure t moves failed
      refine fails failure t moves fun name _ => ?_
      rw [failed]
      rfl
    · intro n host t u found like place isFolder before holds after
      refine ends_bind (ends_openFound wf ready depicts before holds isFolder after ?_ ?_)
      · intro failure unending
        refine fails failure t (before.append after) fun name named => ?_
        rw [found, ← unending name named, like.place.path]
        rfl
      · intro k w moves stands path done keeps like'
        refine alone_getOr (moves.wellFormed ready.within wf).regular ?_ ?_
        · intro k' there
          rw [← path] at there
          cases Store.Holds.unique stands there
          refine leads w k host found (like.trans like') ?_ moves stands
            (keeps.isFolder.trans isFolder) done
          rw [normalized, path, place]
        · intro absent
          rw [← path, stands] at absent
          cases absent

theorem ends_redecide {post : Except Failure (Option Node) → Store → Prop}
    (holds : s.Holds n) (below : n.parent ≠ none) {decider : String}
    (permitted : may (.changed n.path (.redecision decider true))) (listed : decider ∈ scope.worlds)
    (like : shown.Like e.materializer n)
    (leads : ∀ k t, Moves e.materializer scope may s t → t.Holds k → k.path = n.path →
      (shown.revealed (.named decider)).Like e.materializer k →
      e.materializer.Depicts (v.put n.path (some (shown.revealed (.named decider)))) t →
      post (.ok (some k)) t) :
    (call (.change n.path (.redecision decider true))).Ends
      (Setting.alone scope e.materializer.parameters) held s post := by
  have suits : (Store.Change.redecision decider true).Suits e.materializer scope n :=
    ⟨below, rfl, listed⟩
  have revealed := like.revealed (.named decider)
  refine alone_change wf.regular (suits.fits ready.within) holds ?_ ?_
  · intro same
    have kept : n.existence[decider]? = some true := Store.Change.redecision_declined same
    have like' := revealed.trans (.kept below kept)
    refine leads n s (.none s) holds rfl like' (depicts.put (fun _ _ _ => rfl) ?_)
    rw [wf.shows_record (wf.shaped holds).normal holds]
    exact .some like'
  · intro k new proper
    have kept := (Store.Change.keeps new).place.path
    have like' : (shown.revealed (.named decider)).Like e.materializer k := by
      rw [Store.Change.redecision_cases new]
      exact revealed
    exact leads k _ (.one permitted (.changed holds suits new)) (Store.replaced_holds proper)
      kept like' (depicts.changed ready.within wf holds suits new like')

theorem ends_refill {post : Except Failure (Option Node) → Store → Prop} {digest : Digest}
    {time : Moment} (holds : s.Holds n) (isFile : n.isFolder = false) (valid : time.isValid = true)
    (permitted : may (.changed n.path (.content digest time))) (like : shown.Like e.materializer n)
    (leads : ∀ k t, Moves e.materializer scope may s t → t.Holds k → k.path = n.path →
      k.parent = n.parent → (shown.uploaded digest).Like e.materializer k →
      e.materializer.Depicts (v.put n.path (some (shown.uploaded digest))) t →
      post (.ok (some k)) t) :
    (call (.change n.path (.content digest time))).Ends
      (Setting.alone scope e.materializer.parameters) held s post := by
  have suits : (Store.Change.content digest time).Suits e.materializer scope n := ⟨isFile, valid⟩
  refine alone_change wf.regular (suits.fits ready.within) holds
    (fun impossible => by cases impossible) fun k new proper => ?_
  have kept := (Store.Change.keeps new).place
  have uploaded : (shown.uploaded digest).Like e.materializer k := by
    cases new
    exact ⟨{ like.place with }, like.depth, like.kind, like.size, rfl, like.sees⟩
  exact leads k _ (.one permitted (.changed holds suits new)) (Store.replaced_holds proper)
    kept.path kept.parent uploaded (depicts.changed ready.within wf holds suits new uploaded)

omit depicts in
theorem ends_reread (moves : Moves e.materializer scope may s t) (holds : t.Holds n)
    (like : shown.Like e.materializer n)
    (pictured : e.materializer.Depicts (v.put n.path (some shown)) t) :
    (Attempt.tell .replaced >>= fun _ => getOr n.path (.missing n.path)).Ends
      (Setting.alone scope e.materializer.parameters) held t
      (Foreseen e.materializer scope may (.ok shown) (v.after (.ok shown)) s) := by
  have regular := (moves.wellFormed ready.within wf).regular
  refine ends_bind (ends_tell (alone_getOr regular ?_ ?_))
  · intro k found
    cases Store.Holds.unique holds found
    exact .settled moves holds like pictured
  · intro absent
    rw [holds] at absent
    cases absent

section Locked

variable (founds : Deed.Founding may world (Path.join parent.path name))
  (checked : e.worlds.check world = .ok ()) (named : Path.IsName name) (holds : s.Holds parent)
  (isFolder : parent.isFolder = true) (done : parent.generated = true)

omit wf depicts in
theorem handmade (proper : parent.Proper scope e.materializer.parameters)
    (short : IsShort (Path.join parent.path name)) (named : Path.IsName name) (world : World)
    (kind : NodeKind) {time : Moment} (valid : time.isValid = true) (upload : Option Digest)
    (plain : kind = .folder ↔ upload = none) :
    e.materializer.Handmade scope parent { e.madeByHand parent world name kind time with
      generated := decide (kind = .folder), upload := upload } where
  proper := Node.proper_child proper named short valid (ready.within.onlyIn world) decide_eq_true
  below := rfl
  decided := ⟨world, rfl⟩
  complete := rfl
  unread := rfl
  plain := fun isFolder => plain.mp (Node.isFolder_iff.mp isFolder)
  uploaded := fun isFile none => by
    cases (Node.not_isFolder_iff.mp isFile).symm.trans (plain.mpr none)

include founds holds isFolder done

theorem ends_make {made : Node} {post : Except Failure (Node × Bool) → Store → Prop}
    (handmade : e.materializer.Handmade scope parent made)
    (place : made.path = Path.join parent.path name)
    (absent : s.record? (Path.join parent.path name) = none)
    (like : shown.Like e.materializer made)
    (leads : ∀ t, Foreseen e.materializer scope may (.ok shown)
      (v.after (.ok shown)) s (.ok made) t →
      post (.ok (made, true)) t) :
    (call (.putIfAbsent made)).Ends (Setting.alone scope e.materializer.parameters) held s
      post := by
  have permitted := founds.made
  rw [← place] at absent permitted
  refine alone_putIfAbsent wf.regular handmade.proper ?_ ?_
  · intro m present
    rw [absent] at present
    cases present
  · intro _
    have moves : Moves e.materializer scope may s (s.insertNode made) :=
      .one permitted (.made holds isFolder done absent handmade)
    have pictured := depicts.made ready.within wf holds isFolder done absent handmade like
    refine leads _ (.settled moves ?_ like pictured)
    rw [Store.Holds, Store.record?_insertNode handmade.proper, if_pos rfl]

omit isFolder done in
include checked named in
theorem ends_revealFolder {existing drawn : Node} {expected : Except Failure Node}
    (walks : ∀ deed, deed.Walks → may deed)
    (there : s.record? (Path.join parent.path name) = some existing)
    (like : drawn.Like e.materializer existing)
    (hidden : e.materializer.sees existing world = .ok false)
    (answer : expected = .ok (drawn.revealed world))
    (moves : Moves e.materializer scope Deed.Walks s t) :
    (call (.change (Path.join parent.path name) (.redecision world.name true))).Ends
      (Setting.alone scope e.materializer.parameters) held t fun result u => ∃ k,
        result = .ok (some k) ∧
          ForeseenAt e scope may v expected (Path.join parent.path name) s (.ok k) u := by
  have later := moves.wellFormed ready.within wf
  obtain ⟨stands, place⟩ := wf.holds there
  obtain ⟨k, there', keeps, alike⟩ := moves.read ready.within (fun _ walks => walks.reads) wf stands
  obtain ⟨stands', path⟩ := later.holds there'
  have below : k.parent ≠ none := by
    rw [keeps.place.parent]
    exact wf.below_join (wf.shaped holds).normal named there
  have place' : k.path = Path.join parent.path name := path.trans place
  rw [← place'] at founds ⊢
  cases world with
  | primary => cases hidden.symm.trans (e.materializer.sees_of_decision rfl)
  | named decider =>
    refine ends_redecide later ready (depicts.still moves wf ready) stands' below
      (founds.shown decider rfl) (ready.mem_worlds checked) (like.trans alike.like)
      fun n u changed holds' same revealed pictured => ?_
    have whole := (moves.mono walks).append changed
    rw [← same] at pictured
    rw [answer]
    refine ⟨n, rfl, .settled whole holds' revealed pictured, fun n' ok => ?_,
      fun _ failed => by cases failed⟩
    cases ok
    exact same

variable {found : Option Node} (like : shown.Like e.materializer parent)
  (rel : Option.Rel (Node.Like e.materializer) found (s.record? (Path.join parent.path name)))

include checked named like rel

theorem ends_createFolderLocked (walks : ∀ deed, deed.Walks → may deed) :
    (e.createFolderLocked parent world name).Ends
      (Setting.alone scope e.materializer.parameters) held s
      (ForeseenAt e scope may v (e.folderIn world name shown found)
        (Path.join parent.path name) s) := by
  have proper := (wf.regular.sound.proper holds).1
  have target : Path.join shown.path name = Path.join parent.path name := by rw [like.place.path]
  refine ends_bind (alone_get wf.regular ?_)
  simp only [then_ok]
  cases there : s.record? (Path.join parent.path name) with
  | none =>
    rw [there] at rel
    cases rel
    refine ends_bind (ends_now fun time valid => ?_)
    have made := handmade ready proper founds.short named world .folder valid none (by simp)
    refine ends_bind (ends_make wf ready depicts founds holds isFolder done made rfl there
      (like.newFolder e world name Moment.epoch time) ?_)
    intro t foreseen
    exact ends_bind
      (ends_tell (ends_pure ⟨foreseen, fun n ok => by cases ok; rfl, foreseen.harmless⟩))
  | some existing =>
    rw [there] at rel
    obtain ⟨stands, place⟩ := wf.holds there
    cases rel with
    | @some drawn _ like' =>
      refine ends_ite (fun kind => ?_) fun kind => ?_
      · have kind' : drawn.isFolder = true := like'.isFolder.symm.trans kind
        have answer : e.folderIn world name shown (some drawn)
            = (e.materializer.sees existing world).bind fun visible =>
              if visible then .error (.alreadyExists (Path.join shown.path name))
              else .ok (drawn.revealed world) := by
          rw [Engine.folderIn, if_pos kind', like'.sees]
        refine ends_bind (ends_isVisible wf ready.within stands (.refl existing) fun t moves => ?_)
        cases seen : e.materializer.sees existing world with
        | error failure =>
          exact .refused wf ready depicts walks moves (by rw [answer, seen]; rfl)
        | ok visible =>
          rw [seen] at answer
          refine ends_bind (ends_pure ?_)
          cases visible with
          | false =>
            refine ends_ite (fun _ => ?_) fun impossible => absurd rfl impossible
            refine ends_bind ((ends_revealFolder wf ready depicts founds checked named holds walks
              there like' seen answer moves).mono ?_)
            rintro result u ⟨k, rfl, foreseen⟩
            exact ends_bind (ends_tell (ends_pure foreseen))
          | true =>
            refine ends_ite (fun impossible => by cases impossible) fun _ => ends_throw ?_
            exact .refused wf ready depicts walks moves (by rw [answer, target]; rfl)
      · have kind' : drawn.isFolder = false := like'.isFolder.symm.trans (by simpa using kind)
        refine ends_bind (ends_pure (ends_ite (fun impossible => by cases impossible)
          fun _ => ends_throw (.refused wf ready depicts walks (.none s) ?_)))
        rw [Engine.folderIn, kind', target]
        rfl

theorem ends_uploadLocked (data : Bytes)
    (content : ∀ upload time, may (.changed (Path.join parent.path name) (.content upload time))) :
    (e.uploadLocked parent world name data).Ends
      (Setting.alone scope e.materializer.parameters) held s
      fun result t => Foreseen e.materializer scope may
        (e.fileIn world name (sha256 data) shown found)
        (v.after (e.fileIn world name (sha256 data) shown found)) s result t ∧
        ∀ failure, result = .error failure → Moves e.materializer scope Deed.Walks s t := by
  have proper := (wf.regular.sound.proper holds).1
  unfold Engine.uploadLocked
  generalize sha256 data = digest
  refine ends_bind (alone_get wf.regular ?_)
  simp only [then_ok]
  cases there : s.record? (Path.join parent.path name) with
  | none =>
    rw [there] at rel
    cases rel
    refine ends_bind (ends_now fun time valid => ?_)
    have made := handmade ready proper founds.short named world .file valid (some digest) (by simp)
    refine ends_bind (ends_make wf ready depicts founds holds isFolder done made rfl there
      (like.newFile e world name digest Moment.epoch time) fun t foreseen => ?_)
    exact ends_ite (fun impossible => by cases impossible) fun _ =>
      ends_bind (ends_tell (ends_pure ⟨foreseen, foreseen.harmless⟩))
  | some existing =>
    rw [there] at rel
    cases rel with
    | @some drawn _ like' =>
      dsimp only
      refine ends_ite (fun kind => ends_throw ?_) fun kind => ?_
      · refine ⟨.refused (.none s) depicts ?_, fun _ _ => .none s⟩
        rw [Engine.fileIn, if_pos (like'.isFolder.symm.trans kind), like.place.path]
      have isFile : existing.isFolder = false := by simpa using kind
      have answer : e.fileIn world name digest shown (some drawn)
          = .ok ((drawn.uploaded digest).revealed world) := by
        rw [Engine.fileIn, like'.isFolder.symm.trans isFile]
        rfl
      rw [answer]
      obtain ⟨stands, place⟩ := wf.holds there
      have below := wf.below_join (wf.shaped holds).normal named there
      rw [← place] at founds content ⊢
      refine ends_bind (ends_now fun time valid => ends_bind (ends_refill wf ready depicts stands
        isFile valid (content ..) like' fun k t moves stands' path parent uploaded pictured => ?_))
      rw [← path] at founds pictured ⊢
      refine Attempt.Ends.mono ?_ fun _ _ foreseen => ⟨foreseen, foreseen.harmless⟩
      cases world with
      | primary => exact ends_reread wf ready moves stands' uploaded pictured
      | named decider =>
        refine ends_bind
          (ends_discard (ends_redecide (moves.wellFormed ready.within wf) ready pictured
          stands' (parent ▸ below) (founds.shown decider rfl) (ready.mem_worlds checked) uploaded
          fun n u changed holds' same revealed pictured' => ?_))
        rw [Picture.put_put, ← same] at pictured'
        rw [← same]
        exact ends_reread wf ready (moves.append changed) holds' revealed pictured'

end Locked

/-- What is done in a parent happens under its lock, when its children are in the store. -/
theorem ends_underParent {α : Type} {f : Node → Attempt α} {post : Except Failure α → Store → Prop}
    (fails : ∀ failure t, Moves e.materializer scope Deed.Walks s t →
      v.enter e input world name = .error failure → post (.error failure) t)
    (leads : ∀ t parent shown found, v.enter e input world name = .ok (shown, found) →
      shown.Like e.materializer parent →
      Option.Rel (Node.Like e.materializer) found (t.record? (Path.join parent.path name)) →
      e.worlds.check world = .ok () → Path.IsName name → Path.normalize input = .ok parent.path →
      Moves e.materializer scope Deed.Walks s t → t.Holds parent → parent.isFolder = true →
      parent.generated = true →
      (f parent).Ends (Setting.alone scope e.materializer.parameters)
        (parent.path :: held) t post) :
    (fromWorld (e.worlds.check world) >>= fun _ => fromPath (Path.checkName name) >>= fun _ =>
      e.openParent input world >>= fun parent => withLock parent.path
        (discard (getOr parent.path (.missing parent.path)) >>= fun _ => f parent)).Ends
      (Setting.alone scope e.materializer.parameters) held s post := by
  refine ends_bind (ends_fromWorld ?_)
  cases checked : e.worlds.check world with
  | error fault =>
    refine fails _ s (.none s) ?_
    rw [Picture.enter, checked]
    rfl
  | ok passed =>
    refine ends_bind (ends_fromPath ?_)
    cases named : Path.checkName name with
    | error fault =>
      refine fails _ s (.none s) ?_
      rw [Picture.enter, checked, named]
      rfl
    | ok passed' =>
      have entered : v.enter e input world name = (v.host e.materializer world input).bind
          fun parent => (v (Path.join parent.path name)).map fun found => (parent, found) := by
        rw [Picture.enter, checked, named]
        rfl
      refine ends_bind (ends_openParent wf ready depicts ?_ ?_)
      · intro failure t moves failed
        refine fails failure t moves ?_
        have failed := failed name named
        rw [entered]
        cases hosted : v.host e.materializer world input with
        | error other =>
          rw [hosted] at failed
          cases failed
          rfl
        | ok host =>
          rw [hosted] at failed
          simp only [Except.bind] at failed ⊢
          rw [failed]
          rfl
      · intro t parent shown hosted like normalized moves holds isFolder done
        have later := moves.wellFormed ready.within wf
        have normal := (later.shaped holds).normal
        obtain ⟨found, drawn, rel⟩ := (depicts.still moves wf ready).record later normal named
          ⟨parent, holds, isFolder, done⟩
        refine alone_withLock (ends_bind (ends_discard (alone_getOr later.regular ?_ ?_)))
        · intro k _
          refine leads t parent shown found ?_ like rel checked named
            normalized moves holds isFolder
            done
          rw [entered, hosted]
          simp only [Except.bind]
          rw [← like.place.path, drawn]
          rfl
        · intro absent
          rw [holds] at absent
          cases absent

theorem ends_createFolder (walks : ∀ deed, deed.Walks → may deed)
    (founds : ∀ folder, Path.normalize input = .ok folder → Path.IsName name →
      Deed.Founding may world (Path.join folder name)) :
    (e.createFolder input world name).Ends (Setting.alone scope e.materializer.parameters) held s
      fun result t => Foreseen e.materializer scope may (v.createFolder e input world name)
        (v.after (v.createFolder e input world name)) s result t ∧
        (∀ n, result = .ok n →
          ∃ folder, Path.normalize input = .ok folder ∧ n.path = Path.join folder name) ∧
        ∀ failure, result = .error failure → Moves e.materializer scope Deed.Walks s t := by
  refine ends_underParent wf ready depicts ?_ ?_
  · intro failure t moves failed
    refine ⟨.refused (moves.mono walks) (depicts.still moves wf ready) ?_,
      (fun _ ok => by cases ok),
      fun _ _ => moves⟩
    rw [Picture.createFolder, failed]
    rfl
  · intro t parent shown found entered like rel checked named normalized moves holds isFolder done
    have later := moves.wellFormed ready.within wf
    have answer : v.createFolder e input world name = e.folderIn world name shown found := by
      rw [Picture.createFolder, entered]
      rfl
    rw [answer]
    refine (ends_createFolderLocked later ready (depicts.still moves wf ready)
      (founds _ normalized named) checked named holds isFolder done like rel walks).mono ?_
    rintro result u ⟨made, place, harmless⟩
    exact ⟨made.onward (moves.mono walks), fun n ok => ⟨_, normalized, place n ok⟩,
      fun failure failed => moves.append (harmless failure failed)⟩

theorem ends_uploadFile (data : Bytes) (walks : ∀ deed, deed.Walks → may deed)
    (founds : ∀ folder, Path.normalize input = .ok folder → Path.IsName name →
      Deed.Founding may world (Path.join folder name) ∧
        ∀ upload time, may (.changed (Path.join folder name) (.content upload time))) :
    (e.uploadFile input world name data).Ends (Setting.alone scope e.materializer.parameters) held s
      fun result t => Foreseen e.materializer scope may (v.uploadFile e input world name data)
        (v.after (v.uploadFile e input world name data)) s result t ∧
        ∀ failure, result = .error failure → Moves e.materializer scope Deed.Walks s t := by
  refine ends_underParent wf ready depicts ?_ ?_
  · intro failure t moves failed
    refine ⟨.refused (moves.mono walks) (depicts.still moves wf ready) ?_, fun _ _ => moves⟩
    rw [Picture.uploadFile, failed]
    rfl
  · intro t parent shown found entered like rel checked named normalized moves holds isFolder done
    have later := moves.wellFormed ready.within wf
    have answer : v.uploadFile e input world name data
        = e.fileIn world name (sha256 data) shown found := by
      rw [Picture.uploadFile, entered]
      rfl
    rw [answer]
    obtain ⟨founds, content⟩ := founds _ normalized named
    refine (ends_uploadLocked later ready (depicts.still moves wf ready) founds checked named holds
      isFolder done like rel data content).mono ?_
    rintro result u ⟨made, harmless⟩
    exact ⟨made.onward (moves.mono walks),
      fun failure failed => moves.append (harmless failure failed)⟩

theorem ends_makeNext {here : Node} {post : Except Failure Node → Store → Prop}
    (walks : ∀ deed, deed.Walks → may deed)
    (along : Operation.Along (Deed.Founding may world) here.path (name :: more))
    (fails : ∀ failure t, v.createFolder e here.path world name = .error failure →
      Moves e.materializer scope may s t → e.materializer.Depicts v t → post (.error failure) t)
    (leads : ∀ n drawn t, v.createFolder e here.path world name = .ok drawn →
      drawn.Like e.materializer n → n.path = Path.join here.path name →
      Moves e.materializer scope may s t →
        e.materializer.Depicts (v.put drawn.path (some drawn)) t →
      (∃ u, Moves e.materializer scope may s u ∧ u.Holds n) → post (.ok n) t) :
    (e.createFolder here.path world name).Ends
      (Setting.alone scope e.materializer.parameters) held s
      post := by
  refine (ends_createFolder wf ready depicts walks along.makes_next).mono ?_
  rintro result t ⟨made, answer, _⟩
  have pictured := made.depicts
  cases result with
  | ok n =>
    obtain ⟨folder, same, path⟩ := answer n rfl
    obtain ⟨drawn, foreseen, like⟩ := made.answer.of_ok
    rw [along.normal] at same
    cases same
    rw [foreseen] at pictured
    exact leads n drawn t foreseen like path made.moves pictured (made.stood n rfl)
  | error failure =>
    have foreseen := made.answer.eq_error
    rw [foreseen] at pictured
    exact fails failure t foreseen made.moves pictured

/-- One name of the way: the picture fails with it, or both stand in the folder of that name. -/
theorem ends_createAlong_cons {here : Node} {post : Except Failure Node → Store → Prop}
    (walks : ∀ deed, deed.Walks → may deed)
    (along : Operation.Along (Deed.Founding may world) here.path (name :: more))
    (like : shown.Like e.materializer here)
    (fails : ∀ failure w t, v.createAlong e world (name :: more) shown = (.error failure, w) →
      Moves e.materializer scope may s t → e.materializer.Depicts w t → post (.error failure) t)
    (leads : ∀ n drawn w t,
      v.createAlong e world (name :: more) shown = w.createAlong e world more drawn →
      Moves e.materializer scope may s t → e.materializer.Depicts w t →
      n.path = Path.join here.path name → drawn.Like e.materializer n →
      (∃ u, Moves e.materializer scope may s u ∧ u.Holds n) →
      (e.createAlong world more n).Ends
        (Setting.alone scope e.materializer.parameters) held t post) :
    (e.createAlong world (name :: more) here).Ends
    (Setting.alone scope e.materializer.parameters) held
      s post := by
  have normal := along.next.normal
  rw [Picture.createAlong, ← like.place.path] at fails leads
  refine ends_bind (ends_outcome (ends_lookup wf ready depicts normal ?_ ?_))
  · intro failure t moves failed
    have moved := moves.mono walks
    have later := moves.wellFormed ready.within wf
    have still := depicts.still moves wf ready
    rw [failed] at fails leads
    cases failure with
    | notFound what =>
      refine ends_bind (ends_outcome (ends_makeNext later ready still walks along ?_ ?_))
      · intro failure u refused made unchanged
        simp only [refused] at fails leads
        have moved' := moved.append made
        have last := made.wellFormed ready.within later
        cases failure with
        | alreadyExists path =>
          refine ends_bind (ends_lookupFolder last ready unchanged normal ?_ ?_)
          · intro failure w moves failed'
            exact fails failure v w (by rw [failed']) (moved'.append (moves.mono walks))
              (unchanged.still moves last ready)
          · intro n drawn w u' found like' place _ early holds late
            have moves := early.append late
            exact leads n drawn v w (by rw [found]) (moved'.append (moves.mono walks))
              (unchanged.still moves last ready) place like'
              ⟨u', moved'.append (early.mono walks), holds⟩
        | _ => exact ends_throw (fails _ v u rfl moved' unchanged)
      · rintro n drawn u made like' place founds pictured ⟨w, early, holds⟩
        simp only [made] at leads
        exact leads n drawn _ u rfl (moved.append founds) pictured place like'
          ⟨w, moved.append early, holds⟩
    | _ => exact ends_throw (fails _ v t rfl moved still)
  · intro n drawn t u found like' place early holds late
    have moves := early.append late
    have still := depicts.still moves wf ready
    simp only [found, ← like'.isFolder] at fails leads
    refine ends_ite (fun kind => ?_) fun kind => ends_throw ?_
    · rw [if_pos kind] at leads
      exact leads n drawn v t rfl (moves.mono walks) still place like' ⟨u, early.mono walks, holds⟩
    · rw [if_neg kind, ← like'.place.path] at fails
      exact fails _ v t rfl (moves.mono walks) still

theorem ends_createAlong {names : List String} {here : Node} {start : Store}
    (walks : ∀ deed, deed.Walks → may deed)
    (along : Operation.Along (Deed.Founding may world) here.path names)
    (like : shown.Like e.materializer here)
    (before : Moves e.materializer scope may start s)
    (stood : ∃ u, Moves e.materializer scope may start u ∧ u.Holds here) :
    (e.createAlong world names here).Ends (Setting.alone scope e.materializer.parameters) held s
      (Foreseen e.materializer scope may (v.createAlong e world names shown).1
        (v.createAlong e world names shown).2 start) := by
  induction names generalizing s here shown v with
  | nil =>
    refine ends_pure ⟨before, like, depicts, ?_⟩
    intro n ok
    cases ok
    exact stood
  | cons name more ih =>
    refine ends_createAlong_cons wf ready depicts walks along like ?_ ?_
    · intro failure w t failed moves pictured
      rw [failed]
      exact .failed (before.append moves) pictured rfl
    · rintro n drawn w t same moves pictured there like' ⟨u, early, holds⟩
      rw [same]
      exact ih (moves.wellFormed ready.within wf) pictured (there ▸ along.next) like'
        (before.append moves) ⟨u, before.append early, holds⟩

theorem ends_createFolderAll (walks : ∀ deed, deed.Walks → may deed)
    (founds : ∀ full names, Path.normalize input = .ok full → names ≠ [] →
      names <+: Path.components full → Deed.Founding may world (Path.ofNames names)) :
    (e.createFolderAll input world).Ends (Setting.alone scope e.materializer.parameters) held s
      (Foreseen e.materializer scope may (v.createFolderAll e input world).1
        (v.createFolderAll e input world).2 s) := by
  unfold Picture.createFolderAll
  refine Engine.ends_accept ?_ fun path accepted normal => ?_
  · intro failure refused
    rw [refused]
    exact .failed (.none s) depicts rfl
  rw [accepted]
  refine ends_bind (ends_lookup wf ready depicts Path.isNormal_root ?_ ?_)
  · intro failure t moves failed
    simp only [failed]
    exact .failed (moves.mono walks) (depicts.still moves wf ready) rfl
  · intro root drawn t u found like place early holds late
    have moves := early.append late
    have normalized := (Engine.accept_ok_iff.mp accepted).2
    have along := Operation.along_root normal fun names => founds path names normalized
    rw [← place] at along
    simp only [found]
    exact ends_createAlong (moves.wellFormed ready.within wf) ready
      (depicts.still moves wf ready) walks along
      like (moves.mono walks) ⟨u, early.mono walks, holds⟩

omit ready depicts in
theorem ends_deleteLocked {post : Except Failure Unit → Store → Prop} (holds : s.Holds n)
    (fails : ∀ k, n.isFolder = true → s.Holds k → k.parent = some n.path →
      post (.error (.notEmpty n.path)) s)
    (leads : (∀ k, s.Holds k → k.parent ≠ some n.path) → post (.ok ()) (s.eraseNode n.path n)) :
    (Engine.deleteLocked n.path).Ends (Setting.alone scope e.materializer.parameters) held s
      post := by
  have removal (empty : ∀ k, s.Holds k → k.parent ≠ some n.path) :
      (discard (call (.delete n.path)) >>= fun _ => Attempt.tell .deleted).Ends
        (Setting.alone scope e.materializer.parameters) held s post :=
    ends_bind (ends_discard (alone_delete wf.regular holds (ends_tell (leads empty))))
  unfold Engine.deleteLocked
  refine ends_bind (alone_getOr wf.regular ?_ ?_)
  · intro k found
    cases Store.Holds.unique holds found
    simp only [then_ok]
    refine ends_ite (fun isFolder => ends_bind (alone_hasChildren ?_)) fun isFile => ?_
    · refine ends_ite (fun occupied => ends_throw ?_) fun empty => removal ?_
      · obtain ⟨k, stands, inside⟩ := (wf.regular.charted.hasChildren_iff n.path).mp occupied
        exact fails k isFolder stands inside
      · intro child stands at_
        exact empty ((wf.regular.charted.hasChildren_iff n.path).mpr ⟨child, stands, at_⟩)
    · refine ends_bind (ends_pure (ends_ite (fun impossible => by cases impossible) fun _ =>
        removal fun child stands at_ => ?_))
      exact Store.not_holdsOpen_of_file holds (by simpa using isFile)
        (wf.parented child n.path stands at_)
  · intro absent
    rw [holds] at absent
    cases absent

theorem Deleted.refused {failure : Failure} (moves : Moves e.materializer scope Deed.Walks s t)
    (same : v.remove e input world = .error failure) :
    Deleted e scope v input world s (.error failure) t := by
  refine ⟨Or.inl ⟨failure, rfl, moves⟩, ?_, ?_⟩
  · rw [same]
    rfl
  · rw [same]
    exact depicts.still moves wf ready

open Classical in
theorem ends_deleteFound {n : Node} (drawn : Node)
    (moves : Moves e.materializer scope Deed.Walks s t)
    (stands : t.Holds n) (below : n.parent ≠ none) (done : n.isFolder = true → n.generated = true)
    (normalized : Path.normalize input = .ok n.path) (place : drawn.path = n.path)
    (answer : v.remove e input world = if n.isFolder then (v (Path.join n.path "a")).bind fun _ =>
      if v.Bare n.path then .ok drawn else .error (.notEmpty n.path) else .ok drawn) :
    (Engine.deleteLocked n.path).Ends (Setting.alone scope e.materializer.parameters) held t
      (Deleted e scope v input world s) := by
  have later := moves.wellFormed ready.within wf
  have still := depicts.still moves wf ready
  have normal := (later.shaped stands).normal
  have named : Path.IsName "a" := by decide +kernel
  have expected : v.remove e input world =
      if n.isFolder = true → v.Bare n.path then .ok drawn else .error (.notEmpty n.path) := by
    rw [answer]
    cases isFolder : n.isFolder with
    | false => simp
    | true =>
      obtain ⟨found, shown, _⟩ :=
        still.record later normal named ⟨n, stands, isFolder, done isFolder⟩
      simp [shown, Except.bind]
  have bare : n.isFolder = true →
      (v.Bare n.path ↔ ∀ child, t.Holds child → child.parent ≠ some n.path) :=
    fun isFolder => still.bare_iff later stands isFolder (done isFolder)
  refine ends_deleteLocked later stands ?_ ?_
  · intro child isFolder there inside
    refine Deleted.refused wf ready depicts moves ?_
    rw [expected, if_neg]
    exact fun vacant => (bare isFolder).mp (vacant isFolder) child there inside
  · intro empty
    rw [if_pos fun isFolder => (bare isFolder).mpr empty] at expected
    refine ⟨Or.inr ⟨rfl, t, n, normalized, moves, stands, below, empty, rfl⟩, ?_, ?_⟩
    · rw [expected]
      trivial
    · rw [expected]
      have gone := still.removed ready.within later stands below empty done
      have whole : v.without (.ok drawn) = v.put n.path none := by
        rw [← place]
        rfl
      rw [whole]
      exact gone

open Classical in
/-- The same under both locks, and for a record that has kept what was found of it. -/
theorem ends_deleteKept {n k : Node} (drawn : Node)
    (moves : Moves e.materializer scope Deed.Walks s t) (stands : t.Holds k)
    (keeps : Store.Change.Keeps n k) (path : k.path = n.path) (below : n.parent ≠ none)
    (done : n.isFolder = true → k.generated = true)
    (normalized : Path.normalize input = .ok n.path) (place : drawn.path = n.path)
    (answer : v.remove e input world = if n.isFolder then (v (Path.join n.path "a")).bind fun _ =>
      if v.Bare n.path then .ok drawn else .error (.notEmpty n.path) else .ok drawn) :
    (withLock (n.parent.getD Path.root) (withLock n.path (Engine.deleteLocked n.path))).Ends
      (Setting.alone scope e.materializer.parameters) held t (Deleted e scope v input world s) := by
  have kind := keeps.isFolder
  rw [← path] at normalized place ⊢
  refine alone_withLock (alone_withLock ?_)
  refine ends_deleteFound wf ready depicts drawn moves stands ?_ ?_ normalized place ?_
  · rw [keeps.place.parent]
    exact below
  · exact fun isFolder => done (kind.symm.trans isFolder)
  · rw [answer, path, kind]

open Classical in
theorem ends_deleteNode : (e.deleteNode input world).Ends
    (Setting.alone scope e.materializer.parameters) held s (Deleted e scope v input world s) := by
  refine Engine.ends_accept (fun failure refused => ?_) ?_
  · refine .refused wf ready depicts (.none s) ?_
    rw [Picture.remove, refused]
    rfl
  intro path accepted normal
  have answer : v.remove e input world =
      if Path.isRoot path then .error (.invalidPath .rootDeletion)
      else (v.resolve e.materializer world path).bind fun n =>
        if n.isFolder then (v (Path.join n.path "a")).bind fun _ =>
          if v.Bare n.path then .ok n else .error (.notEmpty n.path)
        else .ok n := by
    rw [Picture.remove, accepted]
    rfl
  refine ends_ite (fun top => ends_throw (.refused wf ready depicts (.none s) ?_)) fun inner => ?_
  · rw [answer, if_pos top]
  rw [if_neg inner] at answer
  refine ends_bind (ends_lookup wf ready depicts normal ?_ ?_)
  · intro failure t moves failed
    refine .refused wf ready depicts moves ?_
    rw [answer, failed]
    rfl
  · intro n drawn t u found like place before holds after
    rw [found] at answer
    simp only [Except.bind, ← like.isFolder, ← like.place.path] at answer
    have middle := before.wellFormed ready.within wf
    have normalized := (Engine.accept_ok_iff.mp accepted).2
    rw [← place] at normalized
    have below : n.parent ≠ none := by
      intro top
      have root := (middle.shaped holds).parent_eq_none_iff.mp top
      simp [Path.isRoot, ← place, root] at inner
    refine ends_ite (fun isFolder => ?_) fun isFile => ?_
    · refine ends_bind (ends_openFound wf ready depicts before holds isFolder after ?_ ?_)
      · intro failure unending
        refine .refused wf ready depicts (before.append after) ?_
        rw [answer, if_pos isFolder, unending "a" (by decide +kernel)]
      · exact fun k w moves stands path done keeps _ => ends_deleteKept wf ready depicts drawn moves
          stands keeps path below (fun _ => done) normalized like.place.path.symm answer
    · obtain ⟨k, there, keeps, _⟩ :=
        after.read ready.within (fun _ walks => walks.reads) middle holds
      have moves := before.append after
      obtain ⟨stands, path⟩ := (moves.wellFormed ready.within wf).holds there
      exact ends_deleteKept wf ready depicts drawn moves stands keeps path below
        (fun isFolder => absurd isFolder isFile) normalized like.place.path.symm answer

omit depicts in
/-- Every operation leaves a well-formed store as it should. -/
theorem ends_run (r : Operation) (fits : r.Fits) : (r.run e).Ends
    (Setting.alone scope e.materializer.parameters) held s fun result t =>
      r.Leaves e.materializer scope result.isOk s t := by
  have depicts : e.materializer.Depicts (e.materializer.shows s) s := .self _ s
  have walks : ∀ {r : Operation} {succeeded : Bool} (deed : Deed), deed.Walks →
      r.Does e.materializer.parameters.seed succeeded deed := fun _ => Operation.does_of_walks
  have sums : ∀ {r : Operation} {succeeded : Bool} (deed : Deed),
      deed.Sums (r.Hashes e.materializer.parameters.seed) →
        r.Does e.materializer.parameters.seed succeeded deed := fun _ => Operation.does_of_sums
  cases r with
  | getNode path world =>
    exact (ends_getNode wf ready).mono fun _ _ walked => .kept (walked.moves.mono walks)
  | listChildren path world =>
    exact (ends_listChildren wf ready).mono fun _ _ listed => .kept (listed.1.mono walks)
  | createFolder parent world name =>
    refine (ends_createFolder wf ready depicts walks (Operation.founds_createFolder fits)).mono ?_
    rintro result t ⟨made, _, harmless⟩
    cases result with
    | ok n => exact .kept made.moves
    | error failure => exact .kept ((harmless failure rfl).mono walks)
  | createFolderAll path world =>
    exact (ends_createFolderAll wf ready depicts (fun deed walks' _ => walks deed walks')
      (Operation.founds_createFolderAll fits)).mono
        fun _ _ made => .kept (made.moves.mono fun _ does => does _)
  | uploadFile parent world name data =>
    refine (ends_uploadFile wf ready depicts data walks (Operation.founds_uploadFile fits)).mono ?_
    rintro result t ⟨made, harmless⟩
    cases result with
    | ok n => exact .kept made.moves
    | error failure => exact .kept ((harmless failure rfl).mono walks)
  | deleteNode path world =>
    refine (ends_deleteNode wf ready depicts).mono fun result t deleted => ?_
    rcases deleted.outcome with ⟨failure, _, moves⟩ | ⟨_, u, n, normalized, moves,
      holds, below, empty, rfl⟩
    · exact .kept (moves.mono walks)
    · exact .removed (moves.mono walks) normalized holds below empty
  | readContent id =>
    exact (ends_readContent wf ready id).mono fun _ _ read =>
      .kept (read.1.mono (sums (r := .readContent id)))
  | readRange id offset length =>
    exact (ends_readRange wf ready id offset length).mono fun _ _ read =>
      .kept (read.1.mono (sums (r := .readRange id offset length)))
  | checksum path world =>
    exact (ends_checksum wf ready).mono fun _ _ summed => .kept (summed.1.mono sums)

end Making

end SeedTree
