import Mathlib.Data.Set.Finite.Lemmas
import SeedTree.Proofs.Scene

/- Waiting for locks. Who holds a lock asks only for one below it, so of all operations that wait
   the one that waits for the deepest path waits for somebody who does not wait. -/
namespace SeedTree

theorem Path.length_parent? {path above : String} (lies : parent? path = some above) :
    above.length < path.length := by
  unfold parent? at lies
  split at lies
  · cases lies
  · rename_i inner
    obtain ⟨⟨before, name⟩, split_, same⟩ := Option.map_eq_some_iff.mp lies
    have whole := congrArg List.length (Text.eq_of_splitLast? split_)
    simp only [String.length_toList, List.length_append, List.length_cons] at whole
    cases before with
    | nil =>
      simp only [List.isEmpty_nil, if_true] at same
      have nonempty : name ≠ [] := by
        rintro rfl
        have slash := Text.eq_of_splitLast? split_
        exact inner (decide_eq_true (String.toList_injective slash))
      have some := List.length_pos_of_ne_nil nonempty
      rw [← same, whole]
      simp only [root, List.length_nil]
      change 1 < _
      omega
    | cons c more =>
      simp only [List.isEmpty_cons, Bool.false_eq_true, if_false] at same
      rw [← same, whole, String.length_ofList]
      omega

namespace Lock.Ordered

variable {held : List String} {path other : String}

theorem length_lt (ordered : Lock.Ordered held path) (member : other ∈ held) :
    other.length < path.length :=
  Path.length_parent? (ordered other member)

theorem not_mem (ordered : Lock.Ordered held path) : path ∉ held := by
  intro member
  exact absurd (ordered.length_lt member) (Nat.lt_irrefl _)

end Lock.Ordered

namespace Thread

def isFinished (t : Thread) : Bool :=
  match t.program with
  | .done _ => true
  | .ask _ _ => false

def request? (t : Thread) : Option String :=
  match t.program with
  | .ask (.acquire path) _ => some path
  | _ => none

def depth (t : Thread) : Nat := t.request?.elim 0 String.length

variable {scope : Scope} {p : Parameters} {c : Chronicle} {t : Thread} {path : String}

theorem Works.ordered (works : t.Works scope p c) (asks : t.request? = some path) :
    Lock.Ordered t.held path := by
  obtain ⟨b, _, ends⟩ := works
  obtain ⟨held, program⟩ := t
  unfold request? at asks
  split at asks
  · rename_i same
    cases asks
    subst same
    exact ends.1
  · cases asks

theorem Works.held_of_finished (works : t.Works scope p c) (finished : t.isFinished = true) :
    t.held = [] := by
  obtain ⟨b, _, ends⟩ := works
  obtain ⟨held, program⟩ := t
  cases program with
  | done a => exact ends
  | ask action next => cases finished

end Thread

namespace Scene

def Blocks (sc : Scene) (t : Thread) : Prop :=
  ∃ path, t.request? = some path ∧ ∃ other ∈ sc.threads, path ∈ other.held

variable {scope : Scope} {p : Parameters} {e : Engine} {sc : Scene} {t : Thread}
  {i : Nat} {time : Moment}

/-- Nothing but a lock that is held keeps an operation from its next action. -/
theorem proceeds_of_not_blocks (here : sc.threads[i]? = some t) (busy : t.isFinished = false)
    (free : ¬ sc.Blocks t) (valid : time.isValid = true) :
    ∃ after, sc.proceed i time = some after := by
  obtain ⟨held, program⟩ := t
  unfold proceed
  rw [here]
  cases program with
  | done a => cases busy
  | ask action next =>
    cases action with
    | store call => exact ⟨_, rfl⟩
    | clock => exact ⟨_, if_pos valid⟩
    | acquire path =>
      have unheld : ∀ other ∈ sc.threads, path ∉ other.held := by
        intro other member mine
        exact free ⟨path, rfl, other, member, mine⟩
      exact ⟨_, if_pos unheld⟩
    | release path => exact ⟨_, rfl⟩
    | tell event => exact ⟨_, rfl⟩

theorem Sound.holder (sound : sc.Sound scope p) (blocks : sc.Blocks t) :
    ∃ u ∈ sc.threads, u.isFinished = false ∧ (sc.Blocks u → t.depth < u.depth) := by
  obtain ⟨path, asks, u, member, holds⟩ := blocks
  have works := sound.works u member
  refine ⟨u, member, ?_, ?_⟩
  · cases finished : u.isFinished with
    | false => rfl
    | true =>
      rw [works.held_of_finished finished] at holds
      cases holds
  · rintro ⟨deeper, asks', _⟩
    simp only [Thread.depth, asks, asks', Option.elim]
    exact (works.ordered asks').length_lt holds

/-- Among operations that have not ended there is always one that can go on. -/
theorem Sound.someone_proceeds (sound : sc.Sound scope p) (member : t ∈ sc.threads)
    (busy : t.isFinished = false) : ∃ u ∈ sc.threads, u.isFinished = false ∧ ¬ sc.Blocks u := by
  by_contra stuck
  have all : ∀ u ∈ sc.threads, u.isFinished = false → sc.Blocks u := by
    intro u member busy
    by_contra free
    exact stuck ⟨u, member, busy, free⟩
  -- The one that waits for the deepest path waits for somebody who waits for a path below.
  have finite : {u | u ∈ sc.threads ∧ u.isFinished = false}.Finite :=
    sc.threads.finite_toSet.subset fun u unfinished => unfinished.1
  obtain ⟨last, ⟨among, unfinished⟩, deepest⟩ :=
    Set.exists_max_image _ Thread.depth finite ⟨t, member, busy⟩
  obtain ⟨u, member', busy', deeper⟩ := sound.holder (all last among unfinished)
  have most := deepest u ⟨member', busy'⟩
  have more := deeper (all u member' busy')
  omega

end Scene

namespace Session

variable {scope : Scope} {a : Session}

/-- In whatever order operations act on one store, none asks for a lock that it holds, and while not
all have ended one of those that have not can go on. -/
theorem run_never_stuck (reached : a.Reached scope) {cues : List Cue}
    (fits : ∀ cue ∈ cues, cue.Fits) {sc : Scene} (ran : a.scene.run a.engine cues = some sc) :
    (∀ t ∈ sc.threads, ∀ path, t.request? = some path → path ∉ t.held) ∧
      ((∃ t ∈ sc.threads, t.isFinished = false) →
        ∃ (i : Nat) (t : Thread), sc.threads[i]? = some t ∧
        t.isFinished = false ∧ ¬ sc.Blocks t ∧
          ∀ time : Moment, time.isValid = true → ∃ after, sc.proceed i time = some after) := by
  have valid := reached.valid
  have sound := valid.scene_sound.run valid.ready fits ran
  constructor
  · intro t member path asks
    exact ((sound.works t member).ordered asks).not_mem
  · rintro ⟨t, member, busy⟩
    obtain ⟨u, among, busy', free⟩ := sound.someone_proceeds member busy
    obtain ⟨i, here⟩ := List.mem_iff_getElem?.mp among
    exact ⟨i, u, here, busy', free, fun time timely =>
      Scene.proceeds_of_not_blocks here busy' free timely⟩

/-- A folder is about to be put into `/a`; a deletion holds the lock of `/` and waits for that of
`/a`, and an upload waits for that of `/`. -/
def queue : List Cue :=
  [.arrives (.createFolder "/a" .primary "b"), .arrives (.deleteNode "/a" .primary),
    .arrives (.uploadFile "/" .primary "c" [])]
    ++ [0, 0, 0, 0, 1, 1, 1, 2, 2].map fun thread => .proceeds thread Moment.epoch

theorem queue_fits : ∀ cue ∈ queue, cue.Fits := by
  have first : IsShort (Path.join "/a" "b") := by decide +kernel
  have last : IsShort (Path.join "/" "c") := by decide +kernel
  intro cue member
  rcases List.mem_append.mp member with arrival | turn
  · simp only [List.mem_cons, List.not_mem_nil, or_false] at arrival
    rcases arrival with rfl | rfl | rfl
    · exact Operation.fits_createFolder (by rfl) first
    · exact fun _ makes => makes.elim
    · exact Operation.fits_uploadFile (by rfl) last
  · obtain ⟨thread, _, rfl⟩ := List.mem_map.mp turn
    trivial

theorem queue_never_stuck :
    ∃ sc, newFolder.Reached .bare ∧ newFolder.scene.run newFolder.engine queue = some sc ∧
    sc.threads.map (fun t => (t.held, t.request?)) =
      [(["/a"], none), (["/"], some "/a"), ([], some "/")] ∧
      ∃ (i : Nat) (t : Thread), sc.threads[i]? = some t ∧ t.isFinished = false ∧ ¬ sc.Blocks t := by
  have seen : ((newFolder.scene.run newFolder.engine queue).any fun sc =>
      sc.threads.map (fun t => (t.held, t.request?))
          = [(["/a"], none), (["/"], some "/a"), ([], some "/")] &&
        sc.threads.any (!·.isFinished)) = true := by
    decide +kernel
  cases ran : newFolder.scene.run newFolder.engine queue with
  | none =>
    rw [ran] at seen
    cases seen
  | some sc =>
    rw [ran, Option.any_some, Bool.and_eq_true, decide_eq_true_iff, List.any_eq_true] at seen
    obtain ⟨waits, t, member, busy⟩ := seen
    obtain ⟨_, goes⟩ := run_never_stuck newFolder_reached queue_fits ran
    obtain ⟨i, u, here, busy', free, _⟩ := goes ⟨t, member, by simpa using busy⟩
    exact ⟨sc, newFolder_reached, rfl, waits, i, u, here, busy', free⟩

end Session

end SeedTree
