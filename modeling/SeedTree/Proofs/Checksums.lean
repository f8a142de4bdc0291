import SeedTree.Proofs.Scene
import SeedTree.Proofs.Unfolding

/- Checksums on record while operations act side by side. A checksum is that of what a file at the
   path has served; but a read that is late may note it on a folder that has taken the place of the
   file. -/
namespace SeedTree

theorem Scene.run_append (e : Engine) (sc : Scene) (cues more : List Cue) :
    sc.run e (cues ++ more) = (sc.run e cues).bind fun sc => sc.run e more := by
  induction cues generalizing sc with
  | nil => rfl
  | cons cue cues ih =>
    rw [List.cons_append, Scene.run, Scene.run, Option.bind_assoc]
    exact congrArg _ (funext fun sc => ih sc)

def Thread.notes (t : Thread) (path : String) : Bool :=
  match t.program with
  | .ask (.store (.change place (.checksum _ upload))) _ => place = path && upload = none
  | _ => false

theorem Thread.eq_of_notes {t : Thread} {path : String} (noting : t.notes path = true) :
    ∃ text next, t = ⟨t.held, .ask (.store (.change path (.checksum text none))) next⟩ := by
  obtain ⟨held, program⟩ := t
  unfold notes at noting
  split at noting
  · rename_i place text upload next same
    rw [Bool.and_eq_true, decide_eq_true_iff, decide_eq_true_iff] at noting
    obtain ⟨rfl, rfl⟩ := noting
    exact ⟨text, next, by rw [← same]⟩
  · cases noting

/-- The checksum is noted on whatever stands at the path, if this has no checksum and no upload
either. -/
theorem Scene.Sound.noted {scope : Scope} {p : Parameters} {sc : Scene}
    {t : Thread} {n : Node} {i : Nat}
    {path : String} (sound : sc.Sound scope p) (here : sc.threads[i]? = some t)
    (noting : t.notes path = true) (found : sc.chronicle.now.record? path = some n)
    (unread : n.checksum = none) (fresh : n.upload = none) (time : Moment) :
    ∃ after text, sc.proceed i time = some after ∧
      after.chronicle.now.Holds { n with checksum := some text } := by
  obtain ⟨text, next, program⟩ := Thread.eq_of_notes noting
  rw [program] at here
  obtain ⟨b, waits, ends⟩ := sound.works _ (List.mem_of_getElem? here)
  have fits := (ends _ waits).1.1
  have regular := sound.regular _ List.mem_cons_self
  have applied : (Store.Change.checksum text none).apply n =
      some { n with checksum := some text } := by
    simp [Store.Change.apply, unread, fresh]
  obtain ⟨proper, place⟩ := regular.sound.proper found
  have proper' := fits.proper applied proper
  have step := regular.charted.update_changed found applied rfl
  refine ⟨_, text, by rw [Scene.proceed, here], ?_⟩
  change Store.Holds (sc.chronicle.now.update path _).2 _
  rw [step, Store.Holds, Store.record?_replaced proper', if_pos rfl]

namespace Session

variable {scope : Scope} {a : Session} {n : Node} {text : String}

theorem Reached.vouched (reached : a.Reached scope) :
    a.scene.chronicle.Vouched a.engine.materializer.parameters := by
  intro n text holds known
  obtain ⟨isFile, right⟩ := reached.obeys (fun p => honest_rule scope p) n holds text known
  exact ⟨right, a.store, List.mem_cons_self, n, holds, isFile, rfl⟩

/-- In whatever order operations act on one store, a checksum on record is that of what the identity
and the upload of its node key, and the node is a file, unless it is a folder in the place of a file
that served just that. -/
theorem run_vouched (reached : a.Reached scope) {cues : List Cue} (fits : ∀ cue ∈ cues, cue.Fits)
    {sc : Scene} (ran : a.scene.run a.engine cues = some sc) (holds : sc.chronicle.now.Holds n)
    (known : n.checksum = some text) : text = checksumOf (a.engine.content n) ∧
      (n.isFolder = false ∨ ∃ s ∈ sc.chronicle.past, ∃ k, s.record? n.path = some k ∧
        k.isFolder = false ∧ k.upload = n.upload) := by
  have valid := reached.valid
  have vouched := valid.scene_sound.run_preserves valid.ready
    (fun c held call regular allows => allows.vouched
      (regular.effect allows.lawful) regular) fits ran
    reached.vouched
  obtain ⟨right, s, moment, k, there, isFile, upload⟩ := vouched n text holds known
  refine ⟨?_, ?_⟩
  · rw [Engine.content, valid.ready.config, right]
  · rcases List.mem_cons.mp moment with rfl | before
    · rw [Store.Holds.unique there holds] at isFile
      exact Or.inl isFile
    · exact Or.inr ⟨s, before, k, there, isFile, upload⟩

/-- A generated file is read, but before its checksum is noted it is deleted and a folder takes its
place. -/
def lateRead : List Cue :=
  [.arrives (.readContent (nodeIdOf 42 "/harbor.txt")),
    .arrives (.deleteNode "/harbor.txt" .primary),
    .arrives (.createFolder "/" .primary "harbor.txt")]
    ++ ([0] ++ List.replicate 9 1 ++ List.replicate 9 2).map fun thread =>
      .proceeds thread Moment.epoch

theorem lateRead_fits : ∀ cue ∈ lateRead ++ [.proceeds 0 Moment.epoch], cue.Fits := by
  have short : IsShort (Path.join "/" "harbor.txt") := by decide +kernel
  intro cue member
  rcases List.mem_append.mp member with before | last
  · rcases List.mem_append.mp before with arrival | turn
    · simp only [List.mem_cons, List.not_mem_nil, or_false] at arrival
      rcases arrival with rfl | rfl | rfl
      · exact fun _ makes => makes.elim
      · exact fun _ makes => makes.elim
      · exact Operation.fits_createFolder (by rfl) short
    · obtain ⟨thread, _, rfl⟩ := List.mem_map.mp turn
      trivial
  · rw [List.mem_singleton.mp last]
    trivial

theorem listed_reached : listed.Reached .bare :=
  ⟨_, newTree_begins, .more (.none _) trivial
    (.operates _ (fun _ makes => makes.elim) (Site.still_store _) (Site.still_timely _))⟩

theorem lateRead_misplaces : ∃ sc n, listed.Reached .bare ∧
    listed.scene.run listed.engine (lateRead ++ [.proceeds 0 Moment.epoch]) = some sc ∧
    sc.chronicle.now.Holds n ∧ n.path = "/harbor.txt" ∧ n.isFolder = true ∧
    n.checksum = some (checksumOf (listed.engine.content n)) ∧
    ∃ s ∈ sc.chronicle.past, ∃ k, s.record? n.path = some k ∧ k.isFolder = false ∧
      k.upload = n.upload := by
  have seen : (listed.scene.run listed.engine lateRead).any (fun sc =>
      (sc.threads[0]?).any (·.notes "/harbor.txt") &&
        (sc.chronicle.now.record? "/harbor.txt").any fun n =>
          n.path = "/harbor.txt" && n.isFolder && n.checksum.isNone && n.upload.isNone) = true := by
    decide +kernel
  have reached := listed_reached
  have valid := reached.valid
  obtain ⟨before, ran, noting⟩ := Option.any_eq_true _ _ |>.mp seen
  rw [Bool.and_eq_true] at noting
  obtain ⟨thread, stands⟩ := noting
  obtain ⟨t, here, noting⟩ := Option.any_eq_true _ _ |>.mp thread
  obtain ⟨n, found, kind⟩ := Option.any_eq_true _ _ |>.mp stands
  simp only [Bool.and_eq_true, decide_eq_true_iff, Option.isNone_iff_eq_none] at kind
  obtain ⟨⟨⟨place, isFolder⟩, unread⟩, fresh⟩ := kind
  have fits : ∀ cue ∈ lateRead, cue.Fits := fun cue member =>
    lateRead_fits cue (List.mem_append_left _ member)
  have sound := valid.scene_sound.run valid.ready fits ran
  obtain ⟨after, text, goes, holds⟩ := sound.noted here noting found unread fresh Moment.epoch
  have ran' : listed.scene.run listed.engine (lateRead ++ [.proceeds 0 Moment.epoch]) =
      some after := by
    rw [Scene.run_append, ran]
    change (before.proceed 0 Moment.epoch).bind some = some after
    rw [goes]
    rfl
  obtain ⟨right, isFile | placed⟩ := run_vouched reached lateRead_fits ran' holds rfl
  · cases isFolder.symm.trans isFile
  · exact ⟨after, _, reached, ran', holds, place, isFolder, congrArg some right, placed⟩

end Session

end SeedTree
