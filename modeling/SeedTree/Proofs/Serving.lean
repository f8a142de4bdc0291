import SeedTree.Proofs.Transparency

/- What a file serves is decided by what was last uploaded to its path since its record was put
   there, and by nothing else. -/
namespace SeedTree

inductive Operation.Uploads (path : String) (data : Bytes) :
    (r : Operation) → Except Failure r.Answer → Prop where
  | uploads {input folder name : String} {world : World} {n : Node}
      (normalized : Path.normalize input = .ok folder) (target : path = Path.join folder name) :
      Uploads path data (.uploadFile input world name data) (.ok n)

variable {m : Materializer} {e : Engine} {scope : Scope} {s t : Store} {n parent : Node}
  {found : Option Node} {v : Picture} {path input name : String} {world : World} {data : Bytes}
  {digest : Option Digest}

theorem of_mapError_ok {ε α : Type} {x : Except ε α} {f : ε → Failure} {a : α}
    (done : x.mapError f = .ok a) : x = .ok a := by
  cases x with
  | error fault => cases done
  | ok b => rw [Except.ok.inj done]

@[simp] theorem Node.revealed_path (n : Node) (world : World) :
    (n.revealed world).path = n.path := by
  cases world <;> rfl

@[simp] theorem Node.revealed_upload (n : Node) (world : World) :
    (n.revealed world).upload = n.upload := by
  cases world <;> rfl

@[simp] theorem Node.revealed_isFolder (n : Node) (world : World) :
    (n.revealed world).isFolder = n.isFolder := by
  cases world <;> rfl

theorem Store.WellFormed.unrecorded_upload (wf : s.WellFormed scope m.parameters)
    (normal : Path.IsNormal path) (absent : s.record? path = none)
    (shown : m.shows s path = .ok (some n)) : n.upload = none := by
  induction normal using Path.IsNormal.induct with
  | top =>
    obtain ⟨top, root⟩ := wf.root
    rw [root] at absent
    cases absent
  | below folder name normal named _ =>
    rw [wf.shows_join normal named] at shown
    obtain ⟨found, above, shown⟩ := of_bind_ok shown
    cases found with
    | none => cases shown
    | some here =>
      have place := (wf.shown_settled normal above).1
      simp only at shown
      split at shown
      · unfold Materializer.lookup at shown
        split at shown
        · rw [place, absent] at shown
          cases shown
        · unfold Materializer.promised at shown
          split at shown
          · cases shown
          · obtain ⟨spec, _, same⟩ := Option.map_eq_some_iff.mp (Except.ok.inj shown)
            rw [← same]
            rfl
      · cases shown

theorem Store.WellFormed.resolved_eq (wf : s.WellFormed scope m.parameters) {k : Node}
    (holds : s.Holds n) (resolved : m.resolved s world n.path = .ok k) : k = n := by
  obtain ⟨top, root⟩ := wf.root
  have shown := wf.shows_record (m := m) (wf.shaped holds).normal holds
  rw [Materializer.resolved, root] at resolved
  rw [m.shows_root root, Materializer.view_of_walk resolved] at shown
  exact Option.some.inj (Except.ok.inj shown)

namespace Picture

/-- A file at a path, if the picture has one there, serves by the digest of an upload. -/
def Serves (v : Picture) (path : String) (digest : Option Digest) : Prop :=
  ∀ n, v path = .ok (some n) → n.isFolder = false → n.upload = digest

theorem Serves.put (serves : v.Serves path digest)
    (kept : n.path = path → n.isFolder = false → n.upload = digest) :
    (v.put n.path (some n)).Serves path digest := by
  intro k here isFile
  unfold Picture.put at here
  split at here
  · rename_i same
    cases here
    exact kept same.symm isFile
  · exact serves k here isFile

theorem Serves.without (serves : v.Serves path digest) (removed : Except Failure Node) :
    (v.without removed).Serves path digest := by
  cases removed with
  | error failure => exact serves
  | ok n =>
    intro k here isFile
    simp only [Picture.without, Picture.put] at here
    split at here
    · cases here
    · exact serves k here isFile

theorem isFolder_of_folderIn (made : e.folderIn world name parent found = .ok n) :
    n.isFolder = true := by
  cases found with
  | none =>
    cases made
    rfl
  | some existing =>
    simp only [Engine.folderIn] at made
    split at made
    · rename_i isFolder
      obtain ⟨visible, _, made⟩ := of_bind_ok made
      cases visible with
      | true => cases made
      | false =>
        cases made
        rw [Node.revealed_isFolder, isFolder]
    · cases made

theorem isFolder_of_createFolder (made : v.createFolder e input world name = .ok n) :
    n.isFolder = true := by
  obtain ⟨_, _, made⟩ := of_bind_ok made
  exact isFolder_of_folderIn made

theorem Serves.createFolder (serves : v.Serves path digest) (e : Engine) (input : String)
    (world : World) (name : String) :
    (v.after (v.createFolder e input world name)).Serves path digest := by
  cases made : v.createFolder e input world name with
  | error failure => exact serves
  | ok n =>
    refine serves.put fun _ isFile => ?_
    rw [isFolder_of_createFolder made] at isFile
    cases isFile

theorem Serves.createAlong (serves : v.Serves path digest) (e : Engine) (world : World)
    (names : List String) (here : Node) :
    (v.createAlong e world names here).2.Serves path digest := by
  induction names generalizing v here with
  | nil => exact serves
  | cons name more ih =>
    unfold Picture.createAlong
    split
    · split
      · exact ih serves _
      · exact serves
    · have next := serves.createFolder e here.path world name
      split
      · rename_i made
        rw [made] at next
        exact ih next _
      · split
        · exact ih serves _
        · exact serves
      · exact serves
    · exact serves

theorem Serves.createFolderAll (serves : v.Serves path digest) (e : Engine) (input : String)
    (world : World) : (v.createFolderAll e input world).2.Serves path digest := by
  unfold Picture.createFolderAll
  split
  · split
    · exact serves.createAlong e world _ _
    · exact serves
  · exact serves

end Picture

namespace Materializer.Depicts

variable (wf : s.WellFormed scope m.parameters) (depicts : m.Depicts v s)

include wf depicts

theorem serves (serves : v.Serves path digest) (holds : s.Holds n) (place : n.path = path)
    (isFile : n.isFolder = false) : n.upload = digest := by
  have normal := (wf.shaped holds).normal
  have known := depicts n.path normal
  rw [wf.shows_record normal holds] at known
  obtain ⟨found, drawn, rel⟩ := known.of_ok
  cases rel with
  | some like =>
    rw [place] at drawn
    rw [like.upload]
    exact serves _ drawn (like.isFolder.symm.trans isFile)

theorem place (normal : Path.IsNormal path) (drawn : v path = .ok (some n)) : n.path = path := by
  have known := depicts path normal
  rw [drawn] at known
  obtain ⟨found, shown, rel⟩ := known.of_eq_ok
  cases rel with
  | some like => rw [← like.place.path, (wf.shown_settled normal shown).1]

end Materializer.Depicts

namespace Materializer.Depicts

variable (wf : s.WellFormed scope e.materializer.parameters) (depicts : e.materializer.Depicts v s)

include wf depicts

theorem entered (entered : v.enter e input world name = .ok (parent, found)) :
    ∃ folder, Path.normalize input = .ok folder ∧ Path.IsName name ∧ parent.path = folder ∧
      v (Path.join folder name) = .ok found := by
  obtain ⟨_, _, entered⟩ := of_bind_ok entered
  obtain ⟨passed, named, entered⟩ := of_bind_ok entered
  obtain ⟨host, hosted, entered⟩ := of_bind_ok entered
  obtain ⟨folder, normalized, hosted⟩ := of_bind_ok hosted
  have normalized := of_mapError_ok normalized
  have normal := Path.normalize_isNormal normalized
  have place : host.path = folder := by
    obtain ⟨n, resolved, isFolder⟩ := of_bind_ok hosted
    have agree := depicts.resolve wf world normal
    rw [resolved] at agree
    obtain ⟨k, found, like⟩ := agree.of_eq_ok
    split at isFolder
    · cases isFolder
      rw [← like.place.path, wf.resolved_path normal found]
    · cases isFolder
  cases drawn : v (Path.join host.path name) with
  | error failure =>
    rw [drawn] at entered
    cases entered
  | ok other =>
    rw [drawn] at entered
    cases entered
    exact ⟨folder, normalized, of_mapError_ok named, place, by rw [← place, drawn]⟩

theorem uploaded (done : v.uploadFile e input world name data = .ok n) :
    n.upload = some (sha256 data) ∧
      ∃ folder, Path.normalize input = .ok folder ∧ n.path = Path.join folder name := by
  obtain ⟨⟨parent, found⟩, entered, done⟩ := of_bind_ok done
  obtain ⟨folder, normalized, named, place, drawn⟩ := depicts.entered wf entered
  cases found with
  | none =>
    cases done
    exact ⟨rfl, folder, normalized, by rw [← place]; rfl⟩
  | some existing =>
    simp only [Engine.fileIn] at done
    split at done
    · cases done
    · cases done
      have normal := Path.isNormal_join (Path.normalize_isNormal normalized) named
      refine ⟨by rw [Node.revealed_upload]; rfl, folder, normalized, ?_⟩
      have known : existing.path = _ := depicts.place wf normal drawn
      rw [Node.revealed_path, ← known]
      rfl

end Materializer.Depicts

namespace Session

variable {a b : Session} {site : Site} {r : Operation} {last : Option Bytes}

/-- The data that was last uploaded to a path since the record there was put into the store, if any
was. -/
inductive LastUpload (scope : Scope) (path : String) : Option Bytes → Session → Prop where
  | begins {a : Session} (begins : Begins scope a) : LastUpload scope path none a
  | uploaded {a : Session} {site : Site} {last : Option Bytes} {data : Bytes} {r : Operation}
      (before : LastUpload scope path last a) (fits : r.Fits) (here : site.store = a.store)
      (timely : site.Timely) (uploads : r.Uploads path data ((r.run a.engine).runOn site).1) :
      LastUpload scope path (some data) (a.after r site)
  | operated {a : Session} {site : Site} {last : Option Bytes} {r : Operation}
      (before : LastUpload scope path last a) (fits : r.Fits) (here : site.store = a.store)
      (timely : site.Timely)
      (other : ∀ data, ¬ r.Uploads path data ((r.run a.engine).runOn site).1) :
      LastUpload scope path (if (a.store.record? path).isSome then last else none) (a.after r site)
  | reopened {a : Session} {config : Config} {site : Site} {engine : Engine} {last : Option Bytes}
      (before : LastUpload scope path last a)
      (shape : config.parameters = a.engine.config.parameters) (within : config.Within scope)
      (here : site.store = a.store) (timely : site.Timely)
      (started : ((Engine.start config).runOn site).1 = .ok engine) :
      LastUpload scope path last (opened engine a.paths config site)

theorem LastUpload.reached (upload : LastUpload scope path last a) : a.Reached scope := by
  induction upload with
  | begins begins => exact ⟨_, begins, .none _⟩
  | uploaded _ fits here timely _ ih =>
    obtain ⟨start, begins, turns⟩ := ih
    exact ⟨start, begins, .more turns trivial (.operates _ fits here timely)⟩
  | operated _ fits here timely _ ih =>
    obtain ⟨start, begins, turns⟩ := ih
    exact ⟨start, begins, .more turns trivial (.operates _ fits here timely)⟩
  | reopened _ shape within here timely started ih =>
    obtain ⟨start, begins, turns⟩ := ih
    exact ⟨start, begins, .more turns trivial (.reopens shape within here timely started)⟩

theorem Reached.lastUpload (reached : a.Reached scope) (path : String) :
    ∃ last, LastUpload scope path last a := by
  obtain ⟨start, begins, turns⟩ := reached
  induction turns with
  | none a => exact ⟨none, .begins begins⟩
  | @more _ _ b _ rest _ turn ih =>
    obtain ⟨last, before⟩ := ih begins
    cases turn with
    | @operates _ site r fits here timely =>
      by_cases uploads : ∃ data, r.Uploads path data ((r.run b.engine).runOn site).1
      · obtain ⟨data, uploads⟩ := uploads
        exact ⟨_, .uploaded before fits here timely uploads⟩
      · exact ⟨_, .operated before fits here timely fun data done => uploads ⟨data, done⟩⟩
    | reopens shape within here timely started =>
      exact ⟨_, .reopened before shape within here timely started⟩

section Operating

variable (sound : a.Sound scope) (fits : r.Fits)
  (here : site.store = a.store) (timely : site.Timely)
  (depicts : a.engine.materializer.Depicts v a.store)

include sound fits here timely depicts

theorem Sound.serves (serves : v.Serves path digest)
    (other : ∀ data, ¬ r.Uploads path data ((r.run a.engine).runOn site).1) :
    ∃ next : Picture, next.Serves path digest ∧
      a.engine.materializer.Depicts next (a.after r site).store := by
  have reads : r.Reads → ∃ next : Picture, next.Serves path digest ∧
      a.engine.materializer.Depicts next (a.after r site).store := fun reads =>
    ⟨v, serves, sound.quiet depicts fits here timely (.reads reads)⟩
  cases r with
  | getNode | listChildren | readContent | readRange | checksum => exact reads trivial
  | createFolder input world name =>
    obtain ⟨next, ⟨_, rfl⟩, shown⟩ :=
      sound.foretold depicts fits trivial here timely fun sums => sums.elim
    exact ⟨_, serves.createFolder a.engine input world name, shown⟩
  | createFolderAll input world =>
    obtain ⟨next, ⟨_, rfl⟩, shown⟩ :=
      sound.foretold depicts fits trivial here timely fun sums => sums.elim
    exact ⟨_, serves.createFolderAll a.engine input world, shown⟩
  | deleteNode input world =>
    obtain ⟨next, ⟨_, rfl⟩, shown⟩ :=
      sound.foretold depicts fits trivial here timely fun sums => sums.elim
    exact ⟨_, serves.without _, shown⟩
  | uploadFile input world name data =>
    obtain ⟨next, ⟨agree, rfl⟩, shown⟩ :=
      sound.foretold depicts fits trivial here timely fun sums =>
        sums.elim
    refine ⟨_, ?_, shown⟩
    cases done : v.uploadFile a.engine input world name data with
    | error failure => exact serves
    | ok n =>
      refine serves.put fun place _ => ?_
      obtain ⟨_, folder, normalized, target⟩ := depicts.uploaded sound.valid.wellFormed done
      rw [done] at agree
      obtain ⟨k, answer, _⟩ := agree.of_eq_ok
      refine absurd ?_ (other data)
      rw [answer]
      exact .uploads normalized (place.symm.trans target)

theorem Sound.serves_uploaded (uploads : r.Uploads path data ((r.run a.engine).runOn site).1) :
    ∃ next : Picture, next.Serves path (some (sha256 data)) ∧
      a.engine.materializer.Depicts next (a.after r site).store := by
  generalize answer : ((r.run a.engine).runOn site).1 = result at uploads
  cases uploads with
  | @uploads input folder name world n normalized target =>
    obtain ⟨next, ⟨agree, rfl⟩, shown⟩ :=
      sound.foretold depicts fits trivial here timely fun sums =>
        sums.elim
    rw [answer] at agree
    obtain ⟨drawn, done, like⟩ := agree.of_ok
    obtain ⟨upload, folder', normalized', place⟩ := depicts.uploaded sound.valid.wellFormed done
    rw [normalized] at normalized'
    cases normalized'
    refine ⟨_, ?_, shown⟩
    rw [done]
    intro k at_ _
    simp only [Picture.after, Picture.put, target, ← place, if_true] at at_
    cases at_
    exact upload

end Operating

theorem LastUpload.upload_eq (upload : LastUpload scope path last a) (holds : a.store.Holds n)
    (place : n.path = path) (isFile : n.isFolder = false) : n.upload = last.map sha256 := by
  induction upload generalizing n with
  | begins begins =>
    obtain ⟨time, rfl⟩ := begins.root holds
    cases isFile
  | @uploaded a site last data r before fits here timely uploads ih =>
    have sound := before.reached.sound
    obtain ⟨next, serves, shown⟩ := sound.serves_uploaded fits here timely (.self _ _) uploads
    have later := (sound.turn (.operates r fits here timely)).valid.wellFormed
    exact shown.serves later serves holds place isFile
  | @operated a site last r before fits here timely other ih =>
    have sound := before.reached.sound
    have wf := sound.valid.wellFormed
    have later := (sound.turn (.operates r fits here timely)).valid.wellFormed
    have normal : Path.IsNormal path := by
      rw [← place]
      exact (later.shaped holds).normal
    have serves : Picture.Serves (a.engine.materializer.shows a.store) path
        ((if (a.store.record? path).isSome then last else none).map sha256) := by
      intro k shown isFile'
      cases there : a.store.record? path with
      | none => exact wf.unrecorded_upload normal there shown
      | some l =>
        rw [wf.shows_record normal there] at shown
        cases shown
        obtain ⟨stands, place'⟩ := wf.holds there
        exact ih stands place' isFile'
    obtain ⟨next, serves, shown⟩ := sound.serves fits here timely (.self _ _) serves other
    exact shown.serves later serves holds place isFile
  | @reopened a config site engine last before shape within here timely started ih =>
    obtain ⟨same, _⟩ := before.reached.valid.reopened shape here timely started
    exact ih ((same.holds_iff n).mp holds) place isFile

/-- A file serves its content, and the checksum of it, to whoever reads it by its identity, and this
checksum in every world that shows it. -/
structure Serves (a : Session) (n : Node) (content : Bytes) : Prop where
  read : ∀ site, site.store = a.store → site.Timely →
    Store.Distinct a.engine.config.parameters.seed a.paths →
    ((a.engine.readContent n.id).runOn site).1 = .ok (content, checksumOf content)
  summed : ∀ input world site, site.store = a.store → site.Timely →
    Store.Distinct a.engine.config.parameters.seed (a.after (.checksum input world) site).paths →
    Path.normalize input = .ok n.path →
    (∃ shown, ((a.engine.getNode input world).runOn site).1 = .ok shown) →
    ((a.engine.checksum input world).runOn site).1 = .ok (checksumOf content)

theorem Sound.serves_content (sound : a.Sound scope) (holds : a.store.Holds n)
    (isFile : n.isFolder = false) : a.Serves n (a.engine.content n) where
  read := by
    intro site here timely distinct
    have wf := sound.valid.wellFormed
    rw [sound.valid.ready.config] at distinct
    have entered := (sound.valid.tracked distinct).entered
    rw [← here] at wf holds entered
    have ends : (a.engine.readContent n.id).Ends
      (Setting.alone scope a.engine.materializer.parameters) []
      site.store _ := ends_readContent wf sound.valid.ready n.id
    obtain ⟨_, read, _⟩ := ends.runOn timely
    exact read.own wf sound.valid.ready holds isFile (.none _)
      (fun _ reads => reads) (fun _ _ => rfl) entered
  summed := by
    intro input world site here timely distinct normalized shown
    have wf := sound.valid.wellFormed
    have honest := sound.honest
    have later := (sound.turn (.operates (.checksum input world) (fun _ makes => makes.elim) here
      timely)).valid
    rw [sound.valid.ready.config] at distinct
    have entered := (later.tracked distinct).entered
    rw [← here] at wf holds honest
    have looks : (a.engine.getNode input world).Ends
      (Setting.alone scope a.engine.materializer.parameters)
      [] site.store _ := ends_getNode wf sound.valid.ready
    have sums : (a.engine.checksum input world).Ends
      (Setting.alone scope a.engine.materializer.parameters)
      [] site.store _ := ends_checksum wf sound.valid.ready
    obtain ⟨k, shown⟩ := shown
    obtain ⟨_, answer⟩ := looks.runOn timely
    rw [shown] at answer
    obtain ⟨found, expected, _⟩ := answer.of_ok
    obtain ⟨path, accepted, resolved⟩ := of_bind_ok expected
    have place := (Engine.accept_ok_iff.mp accepted).2
    rw [normalized] at place
    cases place
    rw [wf.resolved_eq holds resolved] at expected
    obtain ⟨_, summed⟩ := sums.runOn timely
    rw [summed honest entered, expected]
    simp only [Except.bind, isFile, Bool.false_eq_true, if_false]

/-- A file serves what the data keys that was last uploaded to its path, if any was. -/
theorem serves_last_upload (reached : a.Reached scope) (holds : a.store.Holds n)
    (isFile : n.isFolder = false) : (∃ last, LastUpload scope n.path last a) ∧
      ∀ last, LastUpload scope n.path last a →
        a.Serves n (fileContent n.id a.engine.config.parameters.contentSeed (last.map sha256)) := by
  refine ⟨reached.lastUpload n.path, fun last upload => ?_⟩
  rw [← upload.upload_eq holds rfl isFile]
  exact reached.sound.serves_content holds isFile

def newFile : Session := newTree.after (.uploadFile "/" .primary "a" []) (.still newTree.store)

theorem newFile_answered : ∃ n, ((newTree.engine.uploadFile "/" .primary "a" []).runOn
    (.still newTree.store)).1 = .ok n := by
  have succeeded : ((newTree.engine.uploadFile "/" .primary "a" []).runOn
      (.still newTree.store)).1.isOk = true := by
    decide +kernel
  generalize ((newTree.engine.uploadFile "/" .primary "a" []).runOn (.still newTree.store)).1 =
    result
    at succeeded ⊢
  cases result with
  | ok n => exact ⟨n, rfl⟩
  | error failure => cases succeeded

theorem newFile_upload : LastUpload .bare "/a" (some []) newFile := by
  have short : IsShort (Path.join "/" "a") := by decide +kernel
  have fits : (Operation.uploadFile "/" .primary "a" []).Fits :=
    Operation.fits_uploadFile (by rfl) short
  obtain ⟨n, answered⟩ := newFile_answered
  refine .uploaded (.begins newTree_begins) fits (Site.still_store _) (Site.still_timely _) ?_
  change Operation.Uploads "/a" [] (.uploadFile "/" .primary "a" [])
    ((newTree.engine.uploadFile "/" .primary "a" []).runOn (.still newTree.store)).1
  rw [answered]
  exact .uploads (by rfl) (by rfl)

theorem newFile_serves : ∃ n, newFile.Reached .bare ∧ newFile.store.Holds n ∧ n.path = "/a" ∧
    n.isFolder = false ∧ ((newFile.engine.readContent n.id).runOn (.still newFile.store)).1
      = .ok (fileContent n.id newFile.engine.config.parameters.contentSeed (some (sha256 [])),
        checksumOf
          (fileContent n.id newFile.engine.config.parameters.contentSeed (some (sha256 [])))) := by
  have seen : (newFile.store.record? "/a").any (fun n => n.path = "/a" && !n.isFolder) = true := by
    decide +kernel
  have distinct : Store.Distinct newFile.engine.config.parameters.seed newFile.paths := by
    decide +kernel
  obtain ⟨n, found, known⟩ := Option.any_eq_true _ _ |>.mp seen
  rw [Bool.and_eq_true, decide_eq_true_iff, Bool.not_eq_true'] at known
  obtain ⟨place, isFile⟩ := known
  have holds : newFile.store.Holds n := by rw [Store.Holds, place, found]
  have reached := newFile_upload.reached
  have upload : LastUpload .bare n.path (some []) newFile := by rw [place]; exact newFile_upload
  have serves := (serves_last_upload reached holds isFile).2 (some []) upload
  exact ⟨n, reached, holds, place, isFile,
    serves.read _ (Site.still_store _) (Site.still_timely _) distinct⟩

end Session

end SeedTree
