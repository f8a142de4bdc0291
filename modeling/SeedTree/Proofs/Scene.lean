import SeedTree.Proofs.Engine.SharedOperations
import SeedTree.Proofs.Session

/- Operations side by side on one store. They take turns at their single actions in any order, new
   ones arrive at any time, and a lock is got when nobody holds it. -/
namespace SeedTree

/-- An operation under way: the locks it holds and what it has yet to do. -/
structure Thread where
  held : List String
  program : Program Unit

structure Scene where
  chronicle : Chronicle
  threads : List Thread

/-- What happens next: an operation arrives, or one that is under way takes an action. The time is
what a clock reads, should it be asked. -/
inductive Cue where
  | arrives (operation : Operation)
  | proceeds (thread : Nat) (time : Moment)

def Cue.Fits : Cue → Prop
  | .arrives operation => operation.Fits
  | .proceeds _ _ => True

def Thread.start (e : Engine) (operation : Operation) : Thread :=
  ⟨[], Program.bind (operation.run e).run fun _ => .done ()⟩

namespace Scene

def goes (sc : Scene) (i : Nat) (held : List String) (program : Program Unit) : List Thread :=
  sc.threads.set i ⟨held, program⟩

def proceed (sc : Scene) (i : Nat) (time : Moment) : Option Scene :=
  match sc.threads[i]? with
  | some ⟨held, .ask (.store call) next⟩ =>
    let answer := sc.chronicle.now.perform call
    some ⟨sc.chronicle.next answer.2, sc.goes i held (next answer.1)⟩
  | some ⟨held, .ask .clock next⟩ =>
    if time.isValid then some ⟨sc.chronicle, sc.goes i held (next time)⟩ else none
  | some ⟨held, .ask (.acquire path) next⟩ =>
    if ∀ other ∈ sc.threads, path ∉ other.held then
      some ⟨sc.chronicle, sc.goes i (path :: held) (next ())⟩
    else none
  | some ⟨held, .ask (.release path) next⟩ =>
    some ⟨sc.chronicle, sc.goes i (held.erase path) (next ())⟩
  | some ⟨held, .ask (.tell _) next⟩ => some ⟨sc.chronicle, sc.goes i held (next ())⟩
  | _ => none

def next (e : Engine) (sc : Scene) : Cue → Option Scene
  | .arrives operation => some { sc with threads := sc.threads ++ [.start e operation] }
  | .proceeds i time => sc.proceed i time

def run (e : Engine) : Scene → List Cue → Option Scene
  | sc, [] => some sc
  | sc, cue :: more => (sc.next e cue).bind fun sc => run e sc more

end Scene

def Session.scene (a : Session) : Scene := ⟨⟨a.store, []⟩, []⟩

/-- A thread keeps to what the shared setting allows, from a moment since which its locks were
respected, and gives back its locks in the end. -/
def Thread.Works (scope : Scope) (p : Parameters) (c : Chronicle) (t : Thread) : Prop :=
  ∃ b, b.Waits scope p t.held c ∧
    t.program.Ends (Setting.shared scope p) t.held b fun _ held _ => held = []

namespace Scene

structure Sound (scope : Scope) (p : Parameters) (sc : Scene) : Prop where
  regular : ∀ s ∈ sc.chronicle.moments, s.Regular scope p
  sheltered : sc.chronicle.Sheltered
  apart : ∀ (i j : Nat) (t u : Thread), i ≠ j → sc.threads[i]? = some t → sc.threads[j]? = some u →
    ∀ path ∈ t.held, path ∉ u.held
  works : ∀ t ∈ sc.threads, t.Works scope p sc.chronicle

variable {scope : Scope} {p : Parameters} {e : Engine} {sc after : Scene}
  {c : Chronicle} {t : Thread}
  {i : Nat} {held : List String} {program : Program Unit} {time : Moment}

/-- One thread goes on. It may take locks that nobody held, and the others can allow for what it
did. -/
theorem Sound.goes (sound : sc.Sound scope p) (here : sc.threads[i]? = some t)
    (regular : ∀ s ∈ c.moments, s.Regular scope p) (sheltered : c.Sheltered)
    (free : ∀ path ∈ held, path ∈ t.held ∨ ∀ other ∈ sc.threads, path ∉ other.held)
    (works : Thread.Works scope p c ⟨held, program⟩)
    (others : ∀ (j : Nat) (u : Thread), i ≠ j → sc.threads[j]? = some u →
      u.Works scope p sc.chronicle →
      u.Works scope p c) : Sound scope p ⟨c, sc.goes i held program⟩ := by
  have bound : i < sc.threads.length := (List.getElem?_eq_some_iff.mp here).1
  have found : ∀ (j : Nat) (u : Thread), (sc.goes i held program)[j]? = some u →
      (j = i ∧ u = ⟨held, program⟩) ∨ (i ≠ j ∧ sc.threads[j]? = some u) := by
    intro j u there
    rw [Scene.goes] at there
    by_cases same : i = j
    · subst same
      rw [List.getElem?_set_self bound] at there
      exact Or.inl ⟨rfl, (Option.some.inj there).symm⟩
    · rw [List.getElem?_set_ne same] at there
      exact Or.inr ⟨same, there⟩
  refine ⟨regular, sheltered, ?_, ?_⟩
  · intro j k u v distinct first second path mine yours
    rcases found j u first with ⟨rfl, rfl⟩ | ⟨one, old⟩ <;>
      rcases found k v second with ⟨rfl, rfl⟩ | ⟨other, old'⟩
    · exact distinct rfl
    · rcases free path mine with kept | new
      · exact sound.apart j k t v distinct here old' path kept yours
      · exact new v (List.mem_of_getElem? old') yours
    · rcases free path yours with kept | new
      · exact sound.apart j k u t distinct old here path mine kept
      · exact new u (List.mem_of_getElem? old) mine
    · exact sound.apart j k u v distinct old old' path mine yours
  · intro u member
    obtain ⟨j, there⟩ := List.mem_iff_getElem?.mp member
    rcases found j u there with ⟨rfl, rfl⟩ | ⟨other, old⟩
    · exact works
    · exact others j u other old (sound.works u (List.mem_of_getElem? old))

theorem Sound.proceed (sound : sc.Sound scope p) (goes : sc.proceed i time = some after) :
    after.Sound scope p := by
  unfold Scene.proceed at goes
  have stays : ∀ (j : Nat) (u : Thread), i ≠ j → sc.threads[j]? = some u →
    u.Works scope p sc.chronicle →
      u.Works scope p sc.chronicle := fun _ _ _ _ works => works
  split at goes
  · rename_i held call next here
    cases goes
    obtain ⟨b, waits, ends⟩ := sound.works _ (List.mem_of_getElem? here)
    obtain ⟨allows, leads⟩ := ends sc.chronicle waits
    have regular := sound.regular sc.chronicle.now List.mem_cons_self
    have effect := regular.effect allows.lawful
    have regular' : ∀ s ∈ (sc.chronicle.next (sc.chronicle.now.perform call).2).moments,
        s.Regular scope p := by
      intro s moment
      rcases List.mem_cons.mp moment with rfl | old
      · exact effect.regular regular
      · exact sound.regular s old
    refine sound.goes here regular' (allows.sheltered effect sound.sheltered)
      (fun path mine => Or.inl mine) ⟨_, Chronicle.waits_refl regular', leads⟩ ?_
    rintro j u other there ⟨b', waits', ends'⟩
    refine ⟨b', waits'.trans ⟨Chronicle.grows_next _ _, regular', fun path theirs => ?_⟩, ends'⟩
    exact allows.stays effect fun mine => sound.apart i j _ u other here there path mine theirs
  · rename_i held next here
    obtain ⟨b, waits, ends⟩ := sound.works _ (List.mem_of_getElem? here)
    split at goes
    · rename_i valid
      cases goes
      exact sound.goes here sound.regular sound.sheltered (fun path mine => Or.inl mine)
        ⟨b, waits, ends time valid⟩ stays
    · cases goes
  · rename_i held path next here
    obtain ⟨b, waits, ends⟩ := sound.works _ (List.mem_of_getElem? here)
    split at goes
    · rename_i free
      cases goes
      refine sound.goes here sound.regular sound.sheltered (fun other mine => ?_)
        ⟨sc.chronicle, Chronicle.waits_refl sound.regular, ends.2 _ waits trivial⟩ stays
      rcases List.mem_cons.mp mine with rfl | kept
      · exact Or.inr free
      · exact Or.inl kept
    · cases goes
  · rename_i held path next here
    cases goes
    obtain ⟨b, waits, ends⟩ := sound.works _ (List.mem_of_getElem? here)
    have fewer : ∀ other ∈ held.erase path, other ∈ held := fun _ mine => List.mem_of_mem_erase mine
    exact sound.goes here sound.regular sound.sheltered
      (fun other mine => Or.inl (fewer other mine))
      ⟨b, waits.mono fewer, ends.2⟩ stays
  · rename_i held event next here
    cases goes
    obtain ⟨b, waits, ends⟩ := sound.works _ (List.mem_of_getElem? here)
    exact sound.goes here sound.regular sound.sheltered (fun path mine => Or.inl mine)
      ⟨b, waits, ends⟩ stays
  · cases goes

theorem Sound.arrives (sound : sc.Sound scope e.materializer.parameters)
    (ready : e.Ready scope e.materializer.parameters) {operation : Operation}
    (fits : operation.Fits) : Sound scope e.materializer.parameters
      { sc with threads := sc.threads ++ [.start e operation] } := by
  refine ⟨sound.regular, sound.sheltered, ?_, ?_⟩
  · have held : ∀ (j : Nat) (u : Thread), (sc.threads ++ [Thread.start e operation])[j]? = some u →
        sc.threads[j]? = some u ∨ u.held = [] := by
      intro j u there
      rcases Nat.lt_or_ge j sc.threads.length with old | new
      · rw [List.getElem?_append_left old] at there
        exact Or.inl there
      · rw [List.getElem?_append_right new] at there
        have member := List.mem_of_getElem? there
        rw [List.mem_singleton.mp member]
        exact Or.inr rfl
    intro j k u v distinct first second path mine yours
    rcases held j u first with old | none
    · rcases held k v second with old' | none
      · exact sound.apart j k u v distinct old old' path mine yours
      · rw [none] at yours
        cases yours
    · rw [none] at mine
      cases mine
  · intro u member
    rcases List.mem_append.mp member with old | new
    · exact sound.works u old
    · rw [List.mem_singleton.mp new]
      refine ⟨sc.chronicle, Chronicle.waits_refl sound.regular, ?_⟩
      exact Program.Ends.bind (Program.Ends.mono (shared_run ready operation fits)
        fun _ _ _ known => known.1)

theorem Sound.proceed_preserves {kept : Chronicle → Prop} (sound : sc.Sound scope p)
    (preserves : ∀ c held call, c.now.Regular scope p → c.Allows scope p held call → kept c →
      kept (c.next (c.now.perform call).2))
    (goes : sc.proceed i time = some after) (start : kept sc.chronicle) : kept after.chronicle := by
  unfold Scene.proceed at goes
  split at goes
  · rename_i held call next here
    cases goes
    obtain ⟨b, waits, ends⟩ := sound.works _ (List.mem_of_getElem? here)
    exact preserves _ held call (sound.regular _ List.mem_cons_self) (ends _ waits).1 start
  · split at goes
    · cases goes
      exact start
    · cases goes
  · split at goes
    · cases goes
      exact start
    · cases goes
  · cases goes
    exact start
  · cases goes
    exact start
  · cases goes

theorem Sound.run (sound : sc.Sound scope e.materializer.parameters)
    (ready : e.Ready scope e.materializer.parameters) {cues : List Cue}
    (fits : ∀ cue ∈ cues, cue.Fits) (ran : sc.run e cues = some after) :
    after.Sound scope e.materializer.parameters := by
  induction cues generalizing sc with
  | nil =>
    cases ran
    exact sound
  | cons cue more ih =>
    obtain ⟨first, fits⟩ := List.forall_mem_cons.mp fits
    rw [Scene.run] at ran
    obtain ⟨middle, next, rest⟩ := Option.bind_eq_some_iff.mp ran
    refine ih ?_ fits rest
    cases cue with
    | arrives operation =>
      cases next
      exact sound.arrives ready first
    | proceeds thread time => exact sound.proceed next

theorem Sound.run_preserves {kept : Chronicle → Prop}
    (sound : sc.Sound scope e.materializer.parameters)
    (ready : e.Ready scope e.materializer.parameters)
    (preserves : ∀ c held call, c.now.Regular scope e.materializer.parameters →
      c.Allows scope e.materializer.parameters held call → kept c →
        kept (c.next (c.now.perform call).2))
    {cues : List Cue} (fits : ∀ cue ∈ cues, cue.Fits) (ran : sc.run e cues = some after)
    (start : kept sc.chronicle) : kept after.chronicle := by
  induction cues generalizing sc with
  | nil =>
    cases ran
    exact start
  | cons cue more ih =>
    obtain ⟨first, others⟩ := List.forall_mem_cons.mp fits
    rw [Scene.run] at ran
    obtain ⟨middle, next, rest⟩ := Option.bind_eq_some_iff.mp ran
    cases cue with
    | arrives operation =>
      cases next
      exact ih (sound.arrives ready first) others rest start
    | proceeds thread time =>
      exact ih (sound.proceed next) others rest (sound.proceed_preserves preserves next start)

end Scene

namespace Session

variable {scope : Scope} {a : Session}

theorem Valid.scene_sound (valid : a.Valid scope) :
    a.scene.Sound scope a.engine.materializer.parameters := by
  have wf := valid.wellFormed
  refine ⟨fun s moment => ?_, fun n folder holds below => Or.inl ?_, ?_, ?_⟩
  · rw [List.mem_singleton.mp moment]
    exact wf.regular
  · obtain ⟨above, found, isFolder, _⟩ := wf.parented n folder holds below
    exact ⟨above, found, isFolder⟩
  · intro i j t u _ here
    cases here
  · intro t member
    cases member

/-- In whatever order operations act on one store, every record but the root lies in a folder,
unless a file took the place of the folder that it lay in or was to be put into. -/
theorem run_sheltered (reached : a.Reached scope) {cues : List Cue} (fits : ∀ cue ∈ cues, cue.Fits)
    {sc : Scene} (ran : a.scene.run a.engine cues = some sc) {n : Node}
    (holds : sc.chronicle.now.Holds n) (below : n.path ≠ Path.root) :
    ∃ folder, n.parent = some folder ∧
      (sc.chronicle.now.Has folder true ∨ sc.chronicle.Replaced folder) := by
  have valid := reached.valid
  have sound := valid.scene_sound.run valid.ready fits ran
  have regular := sound.regular _ List.mem_cons_self
  have shaped := (regular.sound.proper holds).1.shaped
  obtain ⟨folder, at_⟩ := Option.ne_none_iff_exists'.mp fun top =>
    below (shaped.parent_eq_none_iff.mp top)
  exact ⟨folder, at_, sound.sheltered n folder holds at_⟩

/-- A folder is about to receive a folder while it is deleted and a file takes its place. -/
def race : List Cue :=
  [.arrives (.createFolder "/a" .primary "b"), .arrives (.deleteNode "/a" .primary),
    .arrives (.uploadFile "/" .primary "a" [])]
    ++ ([0, 0, 0] ++ List.replicate 10 1 ++ List.replicate 9 2 ++ List.replicate 7 0).map
      fun thread => .proceeds thread Moment.epoch

theorem race_fits : ∀ cue ∈ race, cue.Fits := by
  have first : IsShort (Path.join "/a" "b") := by decide +kernel
  have last : IsShort (Path.join "/" "a") := by decide +kernel
  intro cue member
  rcases List.mem_append.mp member with arrival | turn
  · simp only [List.mem_cons, List.not_mem_nil, or_false] at arrival
    rcases arrival with rfl | rfl | rfl
    · exact Operation.fits_createFolder (by rfl) first
    · exact fun _ makes => makes.elim
    · exact Operation.fits_uploadFile (by rfl) last
  · obtain ⟨thread, _, rfl⟩ := List.mem_map.mp turn
    trivial

/-- The folder is made all the same, in the file. -/
theorem race_shelters_nothing : ∃ sc n, newFolder.Reached .bare ∧
    newFolder.scene.run newFolder.engine race = some sc ∧ sc.chronicle.now.Holds n ∧
    n.parent = some "/a" ∧ sc.chronicle.now.Has "/a" false ∧ sc.chronicle.Replaced "/a" := by
  have seen : ((newFolder.scene.run newFolder.engine race).any fun sc =>
      (sc.chronicle.now.record? "/a").any (!·.isFolder) &&
        (sc.chronicle.now.record? "/a/b").any fun n => n.path = "/a/b" && n.parent = some "/a")
          = true := by
    decide +kernel
  cases ran : newFolder.scene.run newFolder.engine race with
  | none =>
    rw [ran] at seen
    cases seen
  | some sc =>
    rw [ran, Option.any_some, Bool.and_eq_true, Option.any_eq_true, Option.any_eq_true] at seen
    obtain ⟨⟨file, there, isFile⟩, n, found, place⟩ := seen
    rw [Bool.and_eq_true, decide_eq_true_iff, decide_eq_true_iff] at place
    have holds : sc.chronicle.now.Holds n := by rw [Store.Holds, place.1, found]
    have has : sc.chronicle.now.Has "/a" false := ⟨file, there, by simpa using isFile⟩
    have below : n.path ≠ Path.root := by rw [place.1]; decide
    obtain ⟨folder, at_, stands⟩ := run_sheltered newFolder_reached race_fits ran holds below
    rw [place.2] at at_
    cases at_
    refine ⟨sc, n, newFolder_reached, rfl, holds, place.2, has, ?_⟩
    exact stands.resolve_left fun isFolder => by cases has.unique isFolder

end Session

end SeedTree
