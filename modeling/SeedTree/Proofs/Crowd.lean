import Mathlib.Logic.Hydra
import SeedTree.Proofs.Engine.LookingOperations
import SeedTree.Proofs.Transparency

/- Readers in a crowd: operations that look at nodes act on one store in turns, one action at a time
   and in any order. Each is answered as if it were alone, no folder is expanded twice, and the
   store becomes the one that the operations would leave one after another. -/
namespace SeedTree

/-- What an action does to a store and to the locks of the one who takes it, if it can be taken now.
A lock is got when nobody has it, and the time is what a clock reads, should it be asked. -/
def Action.take (s : Store) (held : List String) (taken : String → Bool) (time : Moment) :
    (action : Action) → Option (action.Reply × Store × List String)
  | .store call => some ((s.perform call).1, (s.perform call).2, held)
  | .clock => if time.isValid then some (time, s, held) else none
  | .acquire path => if taken path then none else some ((), s, path :: held)
  | .release path => some ((), s, held.erase path)
  | .tell _ => some ((), s, held)

/-- An operation under way: the locks it holds and what it has yet to do. -/
structure Walker where
  operation : Operation
  held : List String
  program : Program (Except Failure operation.Answer)

def Walker.answer? (w : Walker) : Option (Except Failure w.operation.Answer) :=
  match w.program with
  | .done answer => some answer
  | .ask .. => none

structure Crowd where
  store : Store
  walkers : List Walker
  /-- The paths that nodes have been put at so far, or have been tried to be put at. -/
  puts : List String

namespace Crowd

def isTaken (c : Crowd) (path : String) : Bool := c.walkers.any fun w => path ∈ w.held

def proceed (c : Crowd) (i : Nat) (time : Moment) : Option Crowd :=
  match c.walkers[i]? with
  | some ⟨operation, held, .ask action next⟩ =>
    (action.take c.store held c.isTaken time).map fun (reply, store, held) =>
      ⟨store, c.walkers.set i ⟨operation, held, next reply⟩, c.puts ++ action.puts⟩
  | _ => none

def run : Crowd → List (Nat × Moment) → Option Crowd
  | c, [] => some c
  | c, (i, time) :: more => (c.proceed i time).bind fun c => run c more

def Follows (later c : Crowd) : Prop := ∃ i time, c.proceed i time = some later

def Done (c : Crowd) : Prop := ∀ w ∈ c.walkers, w.answer?.isSome = true

instance (c : Crowd) : Decidable c.Done :=
  inferInstanceAs (Decidable (∀ w ∈ c.walkers, w.answer?.isSome = true))

end Crowd

/-- Two answers of an operation are alike, and both are true to what a store shows. -/
structure Operation.Repeats (m : Materializer) (s : Store) (r : Operation)
    (first second : Except Failure r.Answer) : Prop where
  resemble : Agree (r.Resembles m) first second
  faithful : r.Faithful m s first ∧ r.Faithful m s second

def Session.crowd (a : Session) (calls : List Operation) : Crowd :=
  ⟨a.store, calls.map fun r => ⟨r, [], (r.run a.engine).run⟩, []⟩

theorem Walker.done_of_answer? {w : Walker} {answer : Except Failure w.operation.Answer}
    (ended : w.answer? = some answer) : w.program = .done answer := by
  unfold Walker.answer? at ended
  split at ended
  · rename_i at_
    cases ended
    exact at_
  · cases ended

theorem Action.puts_nodup (action : Action) : action.puts.Nodup := by
  cases action with
  | store call => cases call <;> first | exact List.nodup_nil | exact List.pairwise_singleton _ _
  | _ => exact List.nodup_nil

variable {e : Engine} {m : Materializer} {scope : Scope}
  {traces : Trace → Prop} {origin b s t : Store}
  {held held' : List String} {path : String} {time : Moment}

section Taking

variable {action : Action} {reply : action.Reply} {taken : String → Bool}
  {next : action.Reply → List String → Store → Prop}

/-- What an action of a reader does to a store and to locks, which are got when they are free and
given back in good order. -/
structure Materializer.Advances (m : Materializer) (scope : Scope)
    (traces : Trace → Prop) (origin : Store)
    (s t : Store) (held held' : List String) (taken : String → Bool) : Prop where
  trodden : m.Trodden scope traces origin t
  looked : s.Looked m scope traces held t
  free : ∀ path ∈ held', path ∈ held ∨ taken path = false
  shut : ∀ path ∈ held, path ∉ held' → t.Shut path

theorem Setting.Asks.take (wf : origin.WellFormed scope m.parameters)
    (within : m.worlds.Within scope)
    (asks : (Setting.looking m scope traces origin).Asks action held b next)
    (early : m.Trodden scope traces origin b) (trodden : m.Trodden scope traces origin s)
    (onward : b.Onward m held s) (free : ∀ path, taken path = false → s.Shut path)
    (took : action.take s held taken time = some (reply, t, held')) :
    m.Advances scope traces origin s t held held' taken ∧
      (∀ path ∈ action.puts, s.record? path = none ∧ ∃ n, t.record? path = some n) ∧
      ∃ b', m.Trodden scope traces origin b' ∧ b'.Onward m held' t ∧ next reply held' b' := by
  have stays : ∀ path ∈ held, path ∉ held → s.Shut path := fun _ mine free => absurd mine free
  cases action with
  | store call =>
    cases took
    obtain ⟨⟨looked, puts⟩, leads⟩ := asks s ⟨trodden, onward⟩
    have trodden' := looked.trodden trodden wf within
    exact ⟨⟨trodden', looked, fun _ mine => Or.inl mine, fun _ mine free => absurd mine free⟩, puts,
      _, trodden', .refl held _, leads⟩
  | clock =>
    simp only [Action.take] at took
    split at took
    · rename_i valid
      cases took
      exact ⟨⟨trodden, .same, fun _ mine => Or.inl mine, stays⟩,
        fun _ none => absurd none List.not_mem_nil,
        b, early, onward, asks _ valid⟩
    · cases took
  | acquire path =>
    simp only [Action.take] at took
    split at took
    · cases took
    · rename_i untaken
      have untaken : taken path = false := by simpa using untaken
      cases took
      refine ⟨⟨trodden, .same, fun other mine => ?_, fun other mine free => ?_⟩,
        fun _ none => absurd none List.not_mem_nil, s, trodden, .refl _ s,
        asks.2 s ⟨trodden, onward⟩ (free path untaken)⟩
      · rcases List.mem_cons.mp mine with rfl | kept
        · exact Or.inr untaken
        · exact Or.inl kept
      · exact absurd (List.mem_cons_of_mem path mine) free
  | release path =>
    cases took
    refine ⟨⟨trodden, .same, fun other mine => Or.inl (List.mem_of_mem_erase mine),
      fun other mine gone => ?_⟩,
      fun _ none => absurd none List.not_mem_nil, b, early,
      ⟨onward.grows, fun other mine => onward.guards other (List.mem_of_mem_erase mine)⟩, asks.2⟩
    have same : other = path := by
      by_contra apart
      exact gone ((List.mem_erase_of_ne apart).mpr mine)
    rw [same] at mine ⊢
    exact asks.1.onward early.regular onward mine
  | tell event =>
    cases took
    exact ⟨⟨trodden, .same, fun _ mine => Or.inl mine, stays⟩,
      fun _ none => absurd none List.not_mem_nil,
      b, early, onward, asks⟩

theorem Materializer.Advances.onward {others : List String}
    (advances : m.Advances scope traces origin s t held held' taken)
    (within : m.worlds.Within scope) (regular : s.Regular scope m.parameters)
    (apart : ∀ path ∈ others, path ∉ held) : s.Onward m others t :=
  ⟨advances.looked.grows regular within, fun path theirs =>
    advances.looked.guards regular within (apart path theirs)⟩

theorem Materializer.Advances.stays_shut
    (advances : m.Advances scope traces origin s t held held' taken)
    (within : m.worlds.Within scope) (regular : s.Regular scope m.parameters) (gone : path ∉ held')
    (free : path ∉ held → s.Shut path) : t.Shut path := by
  by_cases mine : path ∈ held
  · exact advances.shut path mine gone
  · have onward : s.Onward m [path] t := advances.onward within regular fun other here => by
      rw [List.mem_singleton.mp here]
      exact mine
    exact (free mine).onward regular onward (List.mem_singleton_self path)

end Taking

section Alone

variable {α : Type} (wf : origin.WellFormed scope m.parameters) (within : m.worlds.Within scope)

include wf within

theorem Program.Ends.alone {program : Program α}
    {post : α → List String → Store → Prop} {site : Site}
    (ends : program.Ends (Setting.looking m scope traces origin) held b post)
    (early : m.Trodden scope traces origin b) (trodden : m.Trodden scope traces origin site.store)
    (onward : b.Onward m held site.store) (shut : ∀ path, path ∉ held → site.store.Shut path)
    (timely : site.Timely) :
    ∃ b' held', post (program.run site).1 held' b' ∧ m.Trodden scope traces origin b' ∧
      m.Trodden scope traces origin (program.run site).2.store ∧
      b'.Onward m held' (program.run site).2.store ∧
      ∀ path, path ∉ held' → (program.run site).2.store.Shut path := by
  induction program generalizing held b site with
  | done a => exact ⟨b, held, ends, early, trodden, onward, shut⟩
  | ask action next ih =>
    have took : ∃ held', action.take site.store held (· ∈ held) (site.clock site.ticks)
        = some ((site.act action).1, (site.act action).2.store, held') := by
      cases action with
      | store call => exact ⟨_, rfl⟩
      | clock => exact ⟨_, if_pos (timely site.ticks)⟩
      | acquire path =>
        obtain ⟨rfl, _⟩ := ends
        exact ⟨_, rfl⟩
      | release path => exact ⟨_, rfl⟩
      | tell event => exact ⟨_, rfl⟩
    obtain ⟨held', took⟩ := took
    have free : ∀ path, decide (path ∈ held) = false → site.store.Shut path := fun path none =>
      shut path (by simpa using none)
    obtain ⟨advances, _, b', early', onward', leads⟩ :=
      Setting.Asks.take wf within ends early trodden onward free took
    exact ih _ leads early' advances.trodden onward' (fun path gone =>
      advances.stays_shut within trodden.regular gone (shut path)) (timely.act action)

end Alone

/-- A walker keeps to what readers may do, from a moment since which its locks were respected. -/
def Walker.Works (e : Engine) (scope : Scope) (traces : Trace → Prop)
    (origin s : Store) (w : Walker) : Prop :=
  ∃ b, e.materializer.Trodden scope traces origin b ∧ b.Onward e.materializer w.held s ∧
    w.program.Ends (Setting.looking e.materializer scope traces origin)
      w.held b fun result held t =>
      held = [] ∧ e.materializer.Trodden scope traces origin t ∧
        w.operation.Reports e origin t result

namespace Crowd

structure Sound (e : Engine) (scope : Scope) (traces : Trace → Prop)
    (origin : Store) (calls : List Operation) (c : Crowd) : Prop where
  calls : c.walkers.map Walker.operation = calls
  trodden : e.materializer.Trodden scope traces origin c.store
  works : ∀ w ∈ c.walkers, w.Works e scope traces origin c.store
  apart : ∀ (i j : Nat) (w u : Walker), i ≠ j → c.walkers[i]? = some w → c.walkers[j]? = some u →
    ∀ path ∈ w.held, path ∉ u.held
  shut : ∀ path, c.isTaken path = false → c.store.Shut path
  once : c.puts.Nodup
  new : ∀ path ∈ c.puts, origin.record? path = none ∧ ∃ n, c.store.record? path = some n

variable {calls : List Operation} {c later : Crowd} {i : Nat} {w : Walker}

theorem isTaken_eq_false : c.isTaken path = false ↔ ∀ w ∈ c.walkers, path ∉ w.held := by
  simp [isTaken]

section Instead

variable {walkers : List Walker} {w' u : Walker} {j : Nat}

theorem set_cases (there : (walkers.set i w)[j]? = some u) :
    (j = i ∧ u = w) ∨ (i ≠ j ∧ walkers[j]? = some u) := by
  rw [List.getElem?_set] at there
  split at there
  · rename_i same
    split at there
    · exact Or.inl ⟨same.symm, (Option.some.inj there).symm⟩
    · cases there
  · rename_i other
    exact Or.inr ⟨other, there⟩

theorem set_apart (here : walkers[i]? = some w)
    (apart : ∀ (j k : Nat) (u v : Walker), j ≠ k → walkers[j]? = some u → walkers[k]? = some v →
      ∀ path ∈ u.held, path ∉ v.held)
    (free : ∀ path ∈ w'.held, path ∈ w.held ∨ ∀ u ∈ walkers, path ∉ u.held)
    (j k : Nat) (u v : Walker)
    (distinct : j ≠ k) (first : (walkers.set i w')[j]? = some u)
    (second : (walkers.set i w')[k]? = some v) : ∀ path ∈ u.held, path ∉ v.held := by
  intro path mine yours
  rcases set_cases first with ⟨rfl, rfl⟩ | ⟨_, old⟩ <;>
    rcases set_cases second with ⟨rfl, rfl⟩ | ⟨_, old'⟩
  · exact distinct rfl
  · rcases free path mine with kept | free
    · exact apart j k w v distinct here old' path kept yours
    · exact free v (List.mem_of_getElem? old') yours
  · rcases free path yours with kept | free
    · exact apart j k u w distinct old here path mine kept
    · exact free u (List.mem_of_getElem? old) mine
  · exact apart j k u v distinct old old' path mine yours

theorem map_set_operation (here : walkers[i]? = some w) (same : w'.operation = w.operation) :
    (walkers.set i w').map Walker.operation = walkers.map Walker.operation := by
  obtain ⟨bound, rfl⟩ := List.getElem?_eq_some_iff.mp here
  rw [List.map_set, same, ← List.map_set, List.set_getElem_self]

end Instead

section Proceeding

variable (wf : origin.WellFormed scope e.materializer.parameters)
  (within : e.materializer.worlds.Within scope) (sound : c.Sound e scope traces origin calls)

include wf within sound

theorem Sound.proceed (goes : c.proceed i time = some later) :
    later.Sound e scope traces origin calls := by
  unfold Crowd.proceed at goes
  split at goes
  · rename_i operation held action next here
    obtain ⟨⟨reply, t, held'⟩, took, rfl⟩ := Option.map_eq_some_iff.mp goes
    obtain ⟨b, early, onward, ends⟩ := sound.works _ (List.mem_of_getElem? here)
    obtain ⟨advances, puts, b', early', onward', leads⟩ :=
      Setting.Asks.take wf within ends early sound.trodden onward sound.shut took
    have regular := sound.trodden.regular
    have grows := advances.looked.grows regular within
    refine ⟨?_, advances.trodden, ?_, ?_, ?_, ?_, ?_⟩
    · rw [← sound.calls]
      exact map_set_operation here rfl
    · intro u member
      obtain ⟨j, there⟩ := List.mem_iff_getElem?.mp member
      rcases set_cases there with ⟨rfl, rfl⟩ | ⟨other, old⟩
      · exact ⟨b', early', onward', leads⟩
      · obtain ⟨b, early, onward, ends⟩ := sound.works u (List.mem_of_getElem? old)
        have meanwhile : c.store.Onward e.materializer u.held t :=
          advances.onward within regular (sound.apart j i u _ other.symm old here)
        exact ⟨b, early, onward.trans early.regular meanwhile, ends⟩
    · refine set_apart here sound.apart fun path mine => ?_
      exact (advances.free path mine).imp_right isTaken_eq_false.mp
    · intro path free
      have free := isTaken_eq_false.mp free
      have bound : i < c.walkers.length := (List.getElem?_eq_some_iff.mp here).1
      have gone : path ∉ held' := free _ (List.mem_of_getElem? (List.getElem?_set_self bound))
      refine advances.stays_shut within regular gone fun none => ?_
      refine sound.shut path (isTaken_eq_false.mpr fun u member => ?_)
      obtain ⟨j, there⟩ := List.mem_iff_getElem?.mp member
      by_cases same : i = j
      · subst same
        rw [here] at there
        cases there
        exact none
      · exact free u (List.mem_of_getElem? ((List.getElem?_set_ne same).trans there))
    · refine List.nodup_append.mpr ⟨sound.once, action.puts_nodup, ?_⟩
      rintro path old _ new rfl
      obtain ⟨_, n, stands⟩ := sound.new path old
      rw [(puts path new).1] at stands
      cases stands
    · intro path member
      rcases List.mem_append.mp member with old | new
      · obtain ⟨absent, n, stands⟩ := sound.new path old
        obtain ⟨k, there, _⟩ := grows.record? (regular.sound.holds stands)
        exact ⟨absent, k, (regular.sound.proper stands).2 ▸ there⟩
      · obtain ⟨absent, there⟩ := puts path new
        refine ⟨?_, there⟩
        cases early : origin.record? path with
        | none => rfl
        | some n =>
          obtain ⟨k, stands⟩ := sound.trodden.kept path n early
          rw [absent] at stands
          cases stands
  · cases goes

theorem Sound.run {cues : List (Nat × Moment)} (ran : c.run cues = some later) :
    later.Sound e scope traces origin calls := by
  induction cues generalizing c with
  | nil =>
    cases ran
    exact sound
  | cons cue more ih =>
    obtain ⟨i, time⟩ := cue
    obtain ⟨middle, goes, rest⟩ := Option.bind_eq_some_iff.mp ran
    exact ih (sound.proceed wf within goes) rest

end Proceeding

/-- Those who never wait while they hold a lock never wait for one another in a circle: as long as
one is under way, one can go on. -/
theorem done_of_stuck {g : Setting} (awaits : ∀ held path, g.awaits held path → held = [])
    (works : ∀ w ∈ c.walkers, ∃ s : g.State, w.program.Ends g w.held s fun _ held _ => held = [])
    (stuck : ∀ i time, c.proceed i time = none) : c.Done := by
  have refused : ∀ operation held action next,
    (⟨operation, held, .ask action next⟩ : Walker) ∈ c.walkers →
      action.take c.store held c.isTaken Moment.epoch = none := by
    intro operation held action next member
    obtain ⟨i, here⟩ := List.mem_iff_getElem?.mp member
    have known := stuck i Moment.epoch
    unfold Crowd.proceed at known
    rw [here] at known
    exact Option.map_eq_none_iff.mp known
  have idle : ∀ w ∈ c.walkers, w.held = [] := by
    rintro ⟨operation, held, program⟩ member
    obtain ⟨s, ends⟩ := works _ member
    cases program with
    | done answer => exact ends
    | ask action next =>
      have known := refused operation held action next member
      cases action with
      | acquire path => exact awaits _ _ ends.1
      | _ => cases known
  rintro ⟨operation, held, program⟩ member
  cases program with
  | done answer => rfl
  | ask action next =>
    have known := refused operation held action next member
    cases action with
    | acquire path =>
      have free : c.isTaken path = false := isTaken_eq_false.mpr fun u there => by
        rw [idle u there]
        exact List.not_mem_nil
      simp only [Action.take, free, Bool.false_eq_true, if_false] at known
      cases known
    | _ => cases known

theorem Sound.done (sound : c.Sound e scope traces origin calls)
    (stuck : ∀ i time, c.proceed i time = none) : c.Done := by
  refine done_of_stuck (g := Setting.looking e.materializer scope traces origin)
    (fun _ _ free => free) ?_ stuck
  intro w member
  obtain ⟨b, _, _, ends⟩ := sound.works w member
  exact ⟨b, Program.Ends.mono ends fun _ _ _ known => known.1⟩

end Crowd

section Ending

inductive Walker.Follows : Walker → Walker → Prop where
  | next {operation : Operation} {held held' : List String} {action : Action}
      {next : action.Reply → Program (Except Failure operation.Answer)} (reply : action.Reply) :
      Follows ⟨operation, held', next reply⟩ ⟨operation, held, .ask action next⟩

theorem Walker.ends (w : Walker) : Acc Walker.Follows w := by
  obtain ⟨operation, held, program⟩ := w
  induction program generalizing held with
  | done answer =>
    refine .intro _ ?_
    rintro _ ⟨⟩
  | ask action next ih =>
    refine .intro _ ?_
    rintro _ ⟨reply⟩
    exact ih reply _

/-- Whenever a crowd goes on, one of its walkers has less to do, and nobody has more. -/
theorem Crowd.Follows.cut {later c : Crowd} (follows : later.Follows c) :
    Relation.CutExpand Walker.Follows (later.walkers : Multiset Walker) c.walkers := by
  obtain ⟨i, time, goes⟩ := follows
  unfold Crowd.proceed at goes
  split at goes
  · rename_i operation held action next here
    obtain ⟨⟨reply, t, held'⟩, _, rfl⟩ := Option.map_eq_some_iff.mp goes
    obtain ⟨bound, here⟩ := List.getElem?_eq_some_iff.mp here
    have after := List.set_perm_cons_eraseIdx bound ⟨operation, held', next reply⟩
    have before := List.getElem_cons_eraseIdx_perm bound
    rw [here] at before
    rw [Multiset.coe_eq_coe.mpr after, ← Multiset.coe_eq_coe.mpr before, ← Multiset.cons_coe,
      ← Multiset.cons_coe, ← Multiset.singleton_add, ← Multiset.singleton_add]
    exact Relation.cutExpand_single_add (.next reply) _
  · cases goes

theorem Crowd.ends (c : Crowd) : Acc Crowd.Follows c := by
  have known : WellFounded (Relation.CutExpand Walker.Follows) :=
    WellFounded.cutExpand ⟨Walker.ends⟩
  have image := known.onFun (f := fun c : Crowd => (c.walkers : Multiset Walker))
  exact Subrelation.accessible Crowd.Follows.cut (image.apply c)

end Ending

namespace Session

variable {a d : Session} {calls : List Operation} {r : Operation} {site : Site} {xs : List Exchange}

section Sequence

variable (wf : origin.WellFormed scope e.materializer.parameters)
  (within : e.materializer.worlds.Within scope)

include wf within

theorem looks_alone (looks : r.Looks)
    (trodden : e.materializer.Trodden scope traces origin site.store)
    (shut : ∀ path, site.store.Shut path) (timely : site.Timely)
    (left : ∀ trace, Picture.Leaves (e.materializer.shows origin) e r trace → traces trace) :
    e.materializer.Trodden scope traces origin ((r.run e).runOn site).2.store ∧
      site.store.Grows e.materializer ((r.run e).runOn site).2.store ∧
      (∀ path, ((r.run e).runOn site).2.store.Shut path) ∧
      r.Reports e origin ((r.run e).runOn site).2.store ((r.run e).runOn site).1 := by
  obtain ⟨b, held, ⟨rfl, _, grows, reports⟩, early, trodden', onward, shut'⟩ :=
    Program.Ends.alone wf within
      (looking_run wf within looks trodden left) trodden trodden (.refl _ _)
      (fun path _ => shut path) timely
  exact ⟨trodden', grows.trans onward.grows, fun path => shut' path List.not_mem_nil,
    reports.later early.regular onward.grows⟩

theorem Answers.trodden (answers : Answers scope xs a d) (engine : a.engine = e)
    (looks : ∀ x ∈ xs, x.operation.Looks)
    (trodden : e.materializer.Trodden scope traces origin a.store)
    (shut : ∀ path, a.store.Shut path)
    (left : ∀ x ∈ xs, ∀ trace, Picture.Leaves (e.materializer.shows origin) e x.operation trace →
      traces trace) :
    e.materializer.Trodden scope traces origin d.store ∧ a.store.Grows e.materializer d.store ∧
      ∀ x ∈ xs, ∀ trace, Picture.Leaves (e.materializer.shows origin) e x.operation trace →
        e.materializer.Bears origin d.store trace := by
  induction answers with
  | none a => exact ⟨trodden, .refl _, fun _ none => absurd none List.not_mem_nil⟩
  | @more a d site rest r fits here timely answers ih =>
    obtain ⟨first, looks⟩ := List.forall_mem_cons.mp looks
    obtain ⟨mine, left⟩ := List.forall_mem_cons.mp left
    subst engine
    rw [← here] at trodden shut ⊢
    obtain ⟨trodden', grows, shut', reports⟩ := looks_alone wf within first trodden shut timely mine
    obtain ⟨last, grows', bears⟩ := ih rfl looks trodden' shut' left
    refine ⟨last, grows.trans grows', List.forall_mem_cons.mpr ⟨fun trace leaves => ?_, bears⟩⟩
    exact (reports.bears trace leaves).later trodden'.regular grows'

end Sequence

/-- Where a crowd that looks at a session's tree has got to. -/
structure Converges (scope : Scope) (a : Session) (calls : List Operation) (c : Crowd) : Prop where
  operations : c.walkers.map Walker.operation = calls
  /-- An operation that has ended has answered as it would have answered alone. -/
  answers : ∀ w ∈ c.walkers, ∀ answer, w.answer? = some answer →
    ∀ site : Site, site.store = a.store →
    site.Timely → w.operation.Repeats a.engine.materializer a.store
      ((w.operation.run a.engine).runOn site).1 answer
  /-- No child is put into the store twice, and none that was there. -/
  once : c.puts.Nodup
  new : ∀ path ∈ c.puts, a.store.record? path = none
  /-- The operations wait for one another only as long as one of them can go on. -/
  done : (∀ i time, c.proceed i time = none) → c.Done
  /-- When all have ended, the records are those that the operations leave one after another in any
  order. -/
  records : c.Done → ∀ xs d, Answers scope xs a d → (xs.map Exchange.operation).Perm calls →
    ∀ path, Option.Rel Node.Twins (d.store.record? path) (c.store.record? path)

theorem Reached.crowd_sound (reached : a.Reached scope) (looks : ∀ r ∈ calls, r.Looks) :
    (a.crowd calls).Sound a.engine scope
      (fun trace => ∃ r ∈ calls, Picture.Leaves
        (a.engine.materializer.shows a.store) a.engine r trace)
      a.store calls := by
  have sound := reached.sound
  have wf := sound.valid.wellFormed
  have idle : ∀ w ∈ (a.crowd calls).walkers, ∃ r ∈ calls, w = ⟨r, [], (r.run a.engine).run⟩ := by
    intro w member
    obtain ⟨r, present, rfl⟩ := List.mem_map.mp member
    exact ⟨r, present, rfl⟩
  refine ⟨?_, .self wf sound.clear, ?_, ?_, fun path _ => wf.shut path, List.nodup_nil,
    fun _ none => absurd none List.not_mem_nil⟩
  · simp [crowd, Function.comp_def]
  · intro w member
    obtain ⟨r, present, rfl⟩ := idle w member
    have ends := looking_run wf sound.valid.ready.within (looks r present) (.self wf sound.clear)
      fun trace leaves => (⟨r, present, leaves⟩ : ∃ r ∈ calls, Picture.Leaves _ a.engine r trace)
    refine ⟨a.store, .self wf sound.clear, .refl _ _, Program.Ends.mono ends ?_⟩
    rintro result held t ⟨free, trodden, _, reports⟩
    exact ⟨free, trodden, reports⟩
  · intro i j w u _ here _ path mine
    obtain ⟨r, _, rfl⟩ := idle w (List.mem_of_getElem? here)
    cases mine

/-- Operations that look at nodes side by side come to an end in every interleaving, and wherever
they have got to they converge. -/
theorem looks_converge (reached : a.Reached scope) (looks : ∀ r ∈ calls, r.Looks) :
    Acc Crowd.Follows (a.crowd calls) ∧
      ∀ cues c, (a.crowd calls).run cues = some c → a.Converges scope calls c := by
  refine ⟨(a.crowd calls).ends, fun cues c ran => ?_⟩
  have wf := reached.valid.wellFormed
  have within := reached.valid.ready.within
  have clear := reached.sound.clear
  have sound := (reached.crowd_sound looks).run wf within ran
  have reports : ∀ w ∈ c.walkers, ∀ answer, w.answer? = some answer →
      w.operation.Reports a.engine a.store c.store answer := by
    intro w member answer ended
    obtain ⟨b, early, onward, ends⟩ := sound.works w member
    rw [Walker.done_of_answer? ended] at ends
    obtain ⟨_, _, reports⟩ := ends
    exact reports.later early.regular onward.grows
  refine ⟨sound.calls, ?_, sound.once, fun path put => (sound.new path put).1, sound.done, ?_⟩
  · intro w member answer ended site here timely
    have present : w.operation ∈ calls := sound.calls ▸ List.mem_map_of_mem member
    have trodden : a.engine.materializer.Trodden scope (fun trace => ∃ r ∈ calls,
        Picture.Leaves (a.engine.materializer.shows a.store) a.engine r trace) a.store
          site.store := by
      rw [here]
      exact .self wf clear
    obtain ⟨_, _, _, alone⟩ := looks_alone wf within (looks _ present) trodden
      (fun path => by rw [here]; exact wf.shut path) timely fun trace leaves => ⟨_, present, leaves⟩
    have reports := reports w member answer ended
    exact ⟨(alone.foretold.resemble reports.foretold).1, alone.faithful, reports.faithful⟩
  · intro done xs d answers order path
    have among : ∀ x ∈ xs, x.operation ∈ calls := fun x member =>
      order.mem_iff.mp (List.mem_map_of_mem member)
    obtain ⟨trodden, _, bears⟩ :=
      answers.trodden wf within rfl (fun x member => looks _ (among x member))
        (.self wf clear) wf.shut fun x member trace leaves =>
          (⟨_, among x member, leaves⟩ : ∃ r ∈ calls, Picture.Leaves _ a.engine r trace)
    refine trodden.twins wf sound.trodden ?_ ?_ path
    · rintro trace ⟨r, member, leaves⟩
      rw [← sound.calls] at member
      obtain ⟨w, present, rfl⟩ := List.mem_map.mp member
      obtain ⟨answer, ended⟩ := Option.isSome_iff_exists.mp (done w present)
      exact (reports w present answer ended).bears trace leaves
    · rintro trace ⟨r, member, leaves⟩
      obtain ⟨x, present, rfl⟩ := List.mem_map.mp (order.mem_iff.mpr member)
      exact bears x present trace leaves

def twoReaders : List Operation := [.listChildren "/" .primary, .getNode "/kelp_nectar" .primary]

/-- Both have read the root before it is expanded. The first expands it, and the second finds that
out when it gets the lock. -/
def interleaved : List (Nat × Moment) :=
  ([0, 1] ++ List.replicate 13 0 ++ List.replicate 5 1).map fun i => (i, Moment.epoch)

theorem twoReaders_converge : newTree.Reached .bare ∧ (∀ r ∈ twoReaders, r.Looks) ∧
    ∃ c, (newTree.crowd twoReaders).run interleaved = some c ∧ c.Done ∧
      newTree.Converges .bare twoReaders c := by
  have reached : newTree.Reached .bare := ⟨_, newTree_begins, .none _⟩
  have looks : ∀ r ∈ twoReaders, r.Looks := by
    intro r member
    simp only [twoReaders, List.mem_cons, List.not_mem_nil, or_false] at member
    rcases member with rfl | rfl <;> trivial
  have seen : ((newTree.crowd twoReaders).run interleaved).any (fun c => c.Done) = true := by
    decide +kernel
  obtain ⟨c, ran, done⟩ := (Option.any_eq_true _ _).mp seen
  exact ⟨reached, looks, c, ran, of_decide_eq_true done,
    (looks_converge reached looks).2 interleaved c ran⟩

end Session

end SeedTree
