import SeedTree.Proofs.Crowd
import SeedTree.Proofs.Engine.VyingOperations
import SeedTree.Proofs.Frame

/- Creators of one folder in a crowd, at a place that is free. Others read at the same time. In
   every interleaving one creator makes the folder, and all others meet it. -/
namespace SeedTree

variable {e : Engine} {x : Contest} {a b : Contender} {s t : Store}
  {held held' : List String} {time : Moment}
  {r : Operation} {calls : List Operation} {c later : Crowd} {w : Walker}
  {i : Nat} {paths : List String}
  {winner : Option Nat}

theorem Contest.Open.vacant (fair : x.Open) : x.origin.record? x.place = none := by
  cases found : x.origin.record? x.place with
  | none => rfl
  | some n =>
    have shown := fair.wellFormed.shows_record (Path.isNormal_join fair.normal fair.named) found
    rw [show Path.join x.folder x.name = x.place from rfl, fair.free] at shown
    cases shown

/-- How an operation ends in a contest: creators make the folder or meet it, and readers have no
part in it. -/
def Operation.Fares (x : Contest) : (r : Operation) → Except Failure r.Answer → Contender → Prop
  | .createFolder .., result, b => x.Settles result b
  | _, _, b => b.won = false

/-- Somebody keeps to what is done in a contest, from a moment since which only others have been at
work. -/
def Walker.Vies (x : Contest) (b : Contender) (w : Walker) : Prop :=
  ∃ a, x.Waits a b ∧ w.program.Ends (Setting.vying x) w.held a fun result held last =>
    held = [] ∧ w.operation.Fares x result last

def Crowd.Ended (c : Crowd) (i : Nat) (r : Operation) (answer : Except Failure r.Answer) : Prop :=
  c.walkers[i]? = some ⟨r, [], .done answer⟩

section Taking

variable {action : Action} {reply : action.Reply} {taken : String → Bool} {won : Bool}
  {next : action.Reply → List String → Contender → Prop}

theorem Setting.Asks.vies (asks : (Setting.vying x).Asks action held a next)
    (waits : x.Waits a ⟨s, won⟩)
    (took : action.take s held taken time = some (reply, t, held')) : x.Leads s t ∧
      (∀ paths, s.Tracked paths →
        Store.Distinct x.materializer.parameters.seed (paths ++ action.puts) →
        t.Tracked (paths ++ action.puts)) ∧
      ∃ b, x.Waits b (x.after ⟨s, won⟩ t) ∧ next reply held' b := by
  have sound := waits.leads.sound
  have still : x.Waits ⟨s, won⟩ (x.after ⟨s, won⟩ s) := sound.passes.waits
  cases action with
  | store call =>
    cases took
    obtain ⟨⟨lawful, leads⟩, onward⟩ := asks ⟨s, won⟩ waits
    exact ⟨leads, fun paths tracked distinct => tracked.perform sound.regular lawful distinct,
      _, leads.sound.waits, onward⟩
  | clock =>
    simp only [Action.take] at took
    split at took
    · rename_i valid
      cases took
      exact ⟨sound.passes.leads, fun _ tracked _ => tracked.weaken, a,
        waits.trans still, asks _ valid⟩
    · cases took
  | acquire path =>
    simp only [Action.take] at took
    split at took
    · cases took
    · cases took
      exact ⟨sound.passes.leads, fun _ tracked _ => tracked.weaken, _,
        still, asks.2 _ waits trivial⟩
  | release path =>
    cases took
    exact ⟨sound.passes.leads, fun _ tracked _ => tracked.weaken, a, waits.trans still, asks.2⟩
  | tell event =>
    cases took
    exact ⟨sound.passes.leads, fun _ tracked _ => tracked.weaken, a, waits.trans still, asks⟩

end Taking

namespace Crowd

/-- The crowd in the course of a contest. One that has filled the place is the winner. -/
structure Vies (x : Contest) (calls : List Operation) (paths : List String)
    (winner : Option Nat) (c : Crowd) : Prop where
  calls : c.walkers.map Walker.operation = calls
  sound : x.Sound c.store
  present : ∀ i, winner = some i → i < c.walkers.length
  decided : winner.isSome = (c.store.record? x.place).isSome
  works : ∀ (i : Nat) (w : Walker), c.walkers[i]? = some w →
    w.Vies x ⟨c.store, decide (winner = some i)⟩
  tracked : Store.Distinct x.materializer.parameters.seed (paths ++ c.puts) →
    c.store.Tracked (paths ++ c.puts)

def winnerAfter (x : Contest) (s t : Store) (i : Nat) (winner : Option Nat) : Option Nat :=
  if (s.record? x.place).isNone && (t.record? x.place).isSome then some i else winner

section Winning

variable (decided : winner.isSome = (s.record? x.place).isSome)

include decided

theorem winnerAfter_decided (leads : x.Leads s t) :
    (winnerAfter x s t i winner).isSome = (t.record? x.place).isSome := by
  unfold winnerAfter
  cases there : s.record? x.place with
  | some n =>
    rw [there] at decided
    rw [leads.stays n there]
    exact decided
  | none =>
    rw [there] at decided
    cases t.record? x.place with
    | none => exact decided
    | some n => rfl

omit decided in
theorem winnerAfter_own : x.after ⟨s, decide (winner = some i)⟩ t
    = ⟨t, decide (winnerAfter x s t i winner = some i)⟩ := by
  unfold Contest.after winnerAfter
  split
  · rename_i filled
    rw [filled]
    simp
  · rename_i same
    rw [Bool.eq_false_of_not_eq_true same, Bool.or_false]

theorem winnerAfter_other {j : Nat} (other : i ≠ j) :
    decide (winnerAfter x s t i winner = some j) = decide (winner = some j) := by
  unfold winnerAfter
  split
  · rename_i filled
    rw [Bool.and_eq_true, Option.isNone_iff_eq_none] at filled
    rw [filled.1] at decided
    have none : winner = none := by simpa using decided
    simp [none, other]
  · rfl

end Winning

/-- One goes on. Nobody but the one that fills the place can become the winner, and it is filled
once. -/
theorem Vies.proceed (vies : c.Vies x calls paths winner) (goes : c.proceed i time = some later) :
    ∃ winner, later.Vies x calls paths winner := by
  unfold Crowd.proceed at goes
  split at goes
  · rename_i operation held action next here
    obtain ⟨⟨reply, t, held'⟩, took, rfl⟩ := Option.map_eq_some_iff.mp goes
    obtain ⟨a, waits, ends⟩ := vies.works i _ here
    obtain ⟨leads, tracks, b, waits', onward⟩ := Setting.Asks.vies ends waits took
    have bound : i < c.walkers.length := (List.getElem?_eq_some_iff.mp here).1
    rw [winnerAfter_own] at waits'
    refine ⟨winnerAfter x c.store t i winner, ?_, leads.sound, ?_,
      winnerAfter_decided vies.decided leads, ?_, ?_⟩
    · rw [← vies.calls]
      exact map_set_operation here rfl
    · intro j won
      rw [List.length_set]
      unfold winnerAfter at won
      split at won
      · cases won
        exact bound
      · exact vies.present j won
    · intro j u there
      rcases set_cases there with ⟨rfl, rfl⟩ | ⟨other, old⟩
      · exact ⟨b, waits', onward⟩
      · obtain ⟨a, waits, ends⟩ := vies.works j u old
        refine ⟨a, waits.trans ⟨leads, ?_⟩, ends⟩
        exact winnerAfter_other vies.decided other
    · intro distinct
      rw [← List.append_assoc] at distinct ⊢
      exact tracks _ (vies.tracked distinct.left) distinct
  · cases goes

theorem Vies.run (vies : c.Vies x calls paths winner) {cues : List (Nat × Moment)}
    (ran : c.run cues = some later) : ∃ winner, later.Vies x calls paths winner := by
  induction cues generalizing c winner with
  | nil =>
    cases ran
    exact ⟨winner, vies⟩
  | cons cue more ih =>
    obtain ⟨i, time⟩ := cue
    obtain ⟨middle, goes, rest⟩ := Option.bind_eq_some_iff.mp ran
    obtain ⟨winner', vies'⟩ := vies.proceed goes
    exact ih vies' rest

theorem Vies.done (vies : c.Vies x calls paths winner)
    (stuck : ∀ i time, c.proceed i time = none) : c.Done := by
  refine done_of_stuck (g := Setting.vying x) (fun _ _ free => free) ?_ stuck
  intro w member
  obtain ⟨i, here⟩ := List.mem_iff_getElem?.mp member
  obtain ⟨a, _, ends⟩ := vies.works i w here
  exact ⟨a, Program.Ends.mono ends fun _ _ _ known => known.1⟩

section Answers

variable {input name : String} {world : World}

theorem Vies.ended (vies : c.Vies x calls paths winner) (done : c.Done)
    (asked : calls[i]? = some r) : ∃ answer, c.Ended i r answer := by
  rw [← vies.calls, List.getElem?_map] at asked
  obtain ⟨⟨operation, held, program⟩, here, rfl⟩ := Option.map_eq_some_iff.mp asked
  obtain ⟨answer, rfl⟩ : ∃ answer : Except Failure operation.Answer, program = .done answer :=
    (Option.isSome_iff_exists.mp (done _ (List.mem_of_getElem? here))).imp fun _ =>
      Walker.done_of_answer?
  obtain ⟨a, _, free, _⟩ := vies.works i _ here
  obtain rfl : held = [] := free
  exact ⟨answer, here⟩

theorem Vies.answer {result : Except Failure Node} (vies : c.Vies x calls paths winner)
    (ended : c.Ended i (.createFolder input world name) result) :
    ∃ n, c.store.record? x.place = some n ∧
      (result = .ok n ∧ winner = some i ∨
        result = .error (.alreadyExists x.place) ∧ winner ≠ some i) := by
  obtain ⟨a, waits, _, fares⟩ := vies.works i _ ended
  have settles : x.Settles result a := fares
  have won := waits.won
  cases settles with
  | made found mine => exact ⟨_, waits.leads.stays _ found, Or.inl ⟨rfl, by simpa [mine] using won⟩⟩
  | met found missed =>
    exact ⟨_, waits.leads.stays _ found, Or.inr ⟨rfl, by simpa [missed] using won⟩⟩

theorem Vies.winner_creates (vies : c.Vies x calls paths (some i)) (done : c.Done)
    (racing : ∀ r ∈ calls, r = .createFolder input world name ∨ r.Reads) :
    calls[i]? = some (.createFolder input world name) := by
  obtain ⟨r, asked⟩ : ∃ r, calls[i]? = some r := by
    refine ⟨_, List.getElem?_eq_getElem ?_⟩
    rw [← vies.calls, List.length_map]
    exact vies.present i rfl
  rcases racing r (List.mem_of_getElem? asked) with rfl | reads
  · exact asked
  · obtain ⟨answer, ended⟩ := vies.ended done asked
    obtain ⟨a, waits, _, fares⟩ := vies.works i _ ended
    have lost : a.won = false := by
      cases r <;> first | exact fares | exact reads.elim
    have won := waits.won
    rw [lost] at won
    simp at won

theorem Vies.settled (vies : c.Vies x calls paths winner) (done : c.Done)
    (racing : ∀ r ∈ calls, r = .createFolder input world name ∨ r.Reads)
    (present : .createFolder input world name ∈ calls) : ∃ i n, c.store.record? x.place = some n ∧
      c.Ended i (.createFolder input world name) (.ok n) ∧
      ∀ j, j ≠ i → calls[j]? = some (.createFolder input world name) →
        c.Ended j (.createFolder input world name) (.error (.alreadyExists x.place)) := by
  obtain ⟨j, asked⟩ := List.mem_iff_getElem?.mp present
  obtain ⟨_, ended⟩ := vies.ended done asked
  obtain ⟨n, found, _⟩ := vies.answer ended
  obtain ⟨i, rfl⟩ : ∃ i, winner = some i := by
    rw [← Option.isSome_iff_exists, vies.decided, found]
    rfl
  refine ⟨i, n, found, ?_, fun j other asked => ?_⟩
  · obtain ⟨_, ended⟩ := vies.ended done (vies.winner_creates done racing)
    obtain ⟨k, found', ⟨rfl, _⟩ | ⟨_, lost⟩⟩ := vies.answer ended
    · rw [found] at found'
      cases found'
      exact ended
    · exact absurd rfl lost
  · obtain ⟨_, ended⟩ := vies.ended done asked
    obtain ⟨_, _, ⟨_, won⟩ | ⟨rfl, _⟩⟩ := vies.answer ended
    · exact absurd (Option.some.inj won).symm other
    · exact ended

end Answers

end Crowd

/-- A node is the one of its name on record in a folder, and has its entry in the child index. -/
structure Store.Registers (s : Store) (folder name : String) (n : Node) : Prop where
  record : s.record? (Path.join folder name) = some n
  only : ∀ k, s.Holds k → k.parent = some folder → k.name = name → k = n
  child : s.children[Store.childKey folder name]? = some []

theorem Store.Regular.registers {scope : Scope} {p : Parameters} {folder name : String} {n : Node}
    (regular : s.Regular scope p) (normal : Path.IsNormal folder) (named : Path.IsName name)
    (found : s.record? (Path.join folder name) = some n) : s.Registers folder name n := by
  have below := regular.parent_join normal named found
  obtain ⟨_, named', place⟩ := (regular.sound.proper found).1.shaped.join below
  have same : n.name = name := by
    rw [(regular.sound.proper found).2] at place
    exact (Path.join_injective normal normal named named' place).2.symm
  refine ⟨found, fun k holds above called => ?_, ?_⟩
  · obtain ⟨_, _, place'⟩ := (regular.sound.proper holds).1.shaped.join above
    rw [called] at place'
    rw [Store.Holds, place', found] at holds
    exact (Option.some.inj holds).symm
  · refine (regular.indexed _ _).mpr ⟨rfl, n, regular.sound.holds found, ?_⟩
    rw [Store.indexKey?, below, same]
    rfl

theorem Store.Regular.identifies {scope : Scope} {p : Parameters} {n : Node}
    (regular : s.Regular scope p) (entered : s.Entered) (holds : s.Holds n) (key : Bytes) :
    s.ids[key]? = some (utf8 n.path) ↔ key = n.id.bytes := by
  constructor
  · intro entry
    obtain ⟨k, there, rfl, same⟩ := regular.pointed _ _ entry
    have place := utf8_injective same
    rw [Store.Holds, ← place] at there
    rw [Store.Holds.unique holds there]
  · rintro rfl
    exact entered n holds

theorem Materializer.Trodden.child {scope : Scope} {name : String} {m : Materializer}
    {traces : Trace → Prop} {origin : Store} {folder child : Node}
    (trodden : m.Trodden scope traces origin s) (wf : origin.WellFormed scope m.parameters)
    (opened : m.Bears origin s (.expanded folder.path)) (normal : Path.IsNormal folder.path)
    (shown : m.shows origin folder.path = .ok (some folder)) (isFolder : folder.isFolder = true)
    (named : Path.IsName name)
    (below : m.shows origin (Path.join folder.path name) = .ok (some child)) :
    ∃ c, s.record? (Path.join folder.path name) = some c := by
  have looked : m.lookup origin folder name = .ok (some child) := by
    rw [← below, wf.shows_join normal named, shown]
    simp only [Except.bind, isFolder, if_true]
  cases ready : folder.generated with
  | true =>
    rw [m.lookup_generated origin ready] at looked
    exact trodden.kept _ child (Except.ok.inj looked)
  | false =>
    rw [m.lookup_fresh origin ready] at looked
    obtain ⟨specs, drawn, _⟩ := Materializer.promised_some looked
    obtain ⟨k, found, ready'⟩ := opened folder shown (by rw [drawn]; exact Option.some_ne_none _)
    have place := (trodden.regular.sound.proper found).2
    have whole := trodden.whole k (trodden.regular.sound.holds found) ready' name child named
    rw [place] at whole
    exact whole below

namespace Session

/-- Where a crowd has got to in which some create one folder while others read. -/
structure YieldsOne (a : Session) (calls : List Operation) (input : String)
    (world : World) (folder name : String) (c : Crowd) : Prop where
  operations : c.walkers.map Walker.operation = calls
  /-- The operations wait for one another only as long as one of them can go on. -/
  done : (∀ i time, c.proceed i time = none) → c.Done
  /-- At no time have two creators made the folder. -/
  once : ∀ i j n k, c.Ended i (.createFolder input world name) (.ok n) →
    c.Ended j (.createFolder input world name) (.ok k) → i = j
  /-- When all have ended, one creator has made the folder, and the others were told that it
  exists. -/
  settled : c.Done → .createFolder input world name ∈ calls → ∃ i n,
    c.Ended i (.createFolder input world name) (.ok n) ∧
    (∀ j, j ≠ i → calls[j]? = some (.createFolder input world name) →
      c.Ended j (.createFolder input world name)
        (.error (.alreadyExists (Path.join folder name)))) ∧
    c.store.Registers folder name n ∧
    (Store.Distinct a.engine.materializer.parameters.seed (a.paths ++ c.puts) → ∀ key,
      c.store.ids[key]? = some (utf8 (Path.join folder name)) ↔ key = n.id.bytes)

variable {scope : Scope} {a : Session} {input name : String} {world : World} {parent : Node}

def contest (a : Session) (scope : Scope) (world : World) (folder name : String) : Contest :=
  ⟨a.engine.materializer, scope, a.store, world, folder, name⟩

section Racing

variable (reached : a.Reached scope) (offers : a.engine.worlds.Offers world)
  (visible : Picture.getNode
    (a.engine.materializer.shows a.store) a.engine input world = .ok parent)
  (named : Path.IsName name)
  (free : a.engine.materializer.shows a.store (Path.join parent.path name) = .ok none)

include reached visible

theorem Reached.finds : a.engine.worlds.check world = .ok () ∧
    Path.normalize input = .ok parent.path ∧
    Picture.resolve (a.engine.materializer.shows a.store) a.engine.materializer world parent.path =
      .ok parent := by
  have placed : Picture.Placed (a.engine.materializer.shows a.store) :=
    (Materializer.Depicts.self _ _).placed reached.valid.wellFormed
  have normalized := placed.getNode_path visible
  obtain ⟨path, accepted, resolves⟩ := of_bind_ok visible
  obtain ⟨checked, same⟩ := Engine.accept_ok_iff.mp accepted
  rw [normalized] at same
  cases same
  exact ⟨checked, normalized, resolves⟩

include offers named free

theorem Reached.open : (a.contest scope world parent.path name).Open where
  wellFormed := reached.valid.wellFormed
  within := reached.valid.ready.within
  offered := by
    rintro decider rfl
    exact offers
  normal := Path.normalize_isNormal (reached.finds visible).2.1
  named := named
  free := free

theorem Reached.crowd_vies (isFolder : parent.isFolder = true)
    (fits : (Operation.createFolder input world name).Fits)
    (racing : ∀ r ∈ calls, r = .createFolder input world name ∨ r.Reads) :
    (a.crowd calls).Vies (a.contest scope world parent.path name) calls a.paths none := by
  have fair := reached.open offers visible named free
  obtain ⟨checked, normalized, resolves⟩ := reached.finds visible
  have short : IsShort (a.contest scope world parent.path name).place :=
    fits _ ⟨parent.path, normalized, named, rfl⟩
  have idle : ∀ (i : Nat) (w : Walker), (a.crowd calls).walkers[i]? = some w →
      ∃ r ∈ calls, w = ⟨r, [], (r.run a.engine).run⟩ := by
    intro i w here
    obtain ⟨r, present, rfl⟩ := List.mem_map.mp (List.mem_of_getElem? here)
    exact ⟨r, present, rfl⟩
  refine ⟨?_, fair.sound, fun _ => (by rintro ⟨⟩), ?_, ?_, fun distinct => ?_⟩
  · simp [crowd, Function.comp_def]
  · exact (congrArg Option.isSome fair.vacant).symm
  · intro i w here
    obtain ⟨r, present, rfl⟩ := idle i w here
    refine ⟨⟨a.store, false⟩, fair.sound.waits, ?_⟩
    have start : (a.contest scope world parent.path name).Sound
      (Contender.mk a.store false).store := fair.sound
    rcases racing r present with rfl | reads
    · exact Program.Ends.mono
        (vying_createFolder rfl fair reached.valid.ready short checked start normalized
        resolves isFolder rfl) fun _ _ _ known => known
    · refine Program.Ends.mono (vying_reads rfl fair start reads) fun _ _ _ known => ⟨known.1, ?_⟩
      have lost := known.2.1.won
      cases r <;> first | exact lost | exact reads.elim
  · exact (reached.valid.tracked distinct.left).weaken

end Racing

theorem Reached.vacant {folder : String} {site : Site} (reached : a.Reached scope)
    (here : site.store = a.store)
    (timely : site.Timely) (listed : ((a.engine.listChildren input world).runOn site).1.isOk = true)
    (normalized : Path.normalize input = .ok folder) (named : Path.IsName name)
    (free : (a.after (.listChildren input world) site).store.record?
      (Path.join folder name) = none) :
    ∃ parent, Picture.getNode
      (a.engine.materializer.shows a.store) a.engine input world = .ok parent ∧
      parent.path = folder ∧ parent.isFolder = true ∧
      a.engine.materializer.shows a.store (Path.join folder name) = .ok none := by
  have wf := reached.valid.wellFormed
  have depicts := Materializer.Depicts.self a.engine.materializer a.store
  have placed := depicts.placed wf
  obtain ⟨lists, _⟩ := reached.sound.lists depicts here timely input world
  have start : a.engine.materializer.Trodden scope
    (Picture.Leaves (a.engine.materializer.shows a.store) a.engine
      (.listChildren input world)) a.store site.store := by
    rw [here]
    exact .self wf reached.sound.clear
  obtain ⟨trodden, _, _, reports⟩ :=
    looks_alone (r := .listChildren input world) wf reached.valid.ready.within
      trivial start (fun path => here ▸ wf.shut path) timely fun _ leaves => leaves
  cases answered : ((a.engine.listChildren input world).runOn site).1 with
  | error failure =>
    rw [answered] at listed
    cases listed
  | ok nodes =>
    rw [answered] at lists
    obtain ⟨parent, children, there, isFolder, gathers, _⟩ := lists.of_ok
    cases normalized.symm.trans (placed.getNode_path there)
    refine ⟨parent, there, rfl, isFolder, ?_⟩
    obtain ⟨child, below⟩ := gathers.told named
    cases child with
    | none => exact below
    | some d =>
      have opened := reports.bears _ (Or.inr ⟨parent, there, isFolder, .opens⟩)
      obtain ⟨c, found⟩ := trodden.child wf opened (Path.normalize_isNormal normalized)
        (placed.getNode_lies there) isFolder named below
      rw [after, found] at free
      cases free

/-- Some make one folder at a free place while others read. Every interleaving ends, and one of them
makes the folder. -/
theorem creators_yield_one {folder : String} {site : Site} (reached : a.Reached scope)
    (offers : a.engine.worlds.Offers world) (here : site.store = a.store) (timely : site.Timely)
    (listed : ((a.engine.listChildren input world).runOn site).1.isOk = true)
    (normalized : Path.normalize input = .ok folder) (named : Path.IsName name)
    (free : (a.after (.listChildren input world) site).store.record? (Path.join folder name) = none)
    (fits : (Operation.createFolder input world name).Fits)
    (racing : ∀ r ∈ calls, r = .createFolder input world name ∨ r.Reads) :
    Acc Crowd.Follows (a.crowd calls) ∧
      ∀ cues c, (a.crowd calls).run cues = some c →
        a.YieldsOne calls input world folder name c := by
  refine ⟨(a.crowd calls).ends, fun cues c ran => ?_⟩
  obtain ⟨parent, visible, rfl, isFolder, free⟩ :=
    reached.vacant here timely listed normalized named free
  obtain ⟨winner, vies⟩ :=
    (reached.crowd_vies offers visible named free isFolder fits racing).run ran
  have normal := Path.normalize_isNormal normalized
  refine ⟨vies.calls, vies.done, ?_, fun done present => ?_⟩
  · intro i j n k first second
    obtain ⟨_, _, ⟨_, won⟩ | ⟨⟨⟩, _⟩⟩ := vies.answer first
    obtain ⟨_, _, ⟨_, won'⟩ | ⟨⟨⟩, _⟩⟩ := vies.answer second
    rw [won] at won'
    exact Option.some.inj won'
  · obtain ⟨i, n, found, made, met⟩ := vies.settled done racing present
    have regular := vies.sound.regular
    obtain ⟨holds, place⟩ := vies.sound.holds found
    refine ⟨i, n, made, met, regular.registers normal named found, fun distinct key => ?_⟩
    have place : n.path = Path.join parent.path name := place
    rw [← place]
    exact regular.identifies (vies.tracked distinct).entered holds key

def twoCreators : List Operation :=
  [.createFolder "/" .primary "a", .createFolder "/" .primary "a", .listChildren "/" .primary]

/-- All have read the root before it is expanded. The first creator expands it, and the second is
faster from then on. -/
def overtaken : List (Nat × Moment) :=
  ([0, 1, 2] ++ List.replicate 13 0 ++ List.replicate 12 1 ++
    List.replicate 4 0 ++ List.replicate 5 2).map
    fun i => (i, Moment.epoch)

theorem twoCreators_yield_one : newTree.Reached .bare ∧ newTree.engine.worlds.Offers .primary ∧
    ((newTree.engine.listChildren "/" .primary).runOn (.still newTree.store)).1.isOk = true ∧
    (newTree.after (.listChildren "/" .primary) (.still newTree.store)).store.record? "/a" = none ∧
    ∃ c, (newTree.crowd twoCreators).run overtaken = some c ∧ c.Done ∧
      newTree.YieldsOne twoCreators "/" .primary "/" "a" c := by
  have reached : newTree.Reached .bare := ⟨_, newTree_begins, .none _⟩
  have offers : newTree.engine.worlds.Offers .primary := trivial
  have listed :
      ((newTree.engine.listChildren "/" .primary).runOn (.still newTree.store)).1.isOk = true := by
    decide +kernel
  have free : (newTree.after (.listChildren "/" .primary) (.still newTree.store)).store.record?
    (Path.join "/" "a")
      = none := by decide +kernel
  have short : IsShort (Path.join "/" "a") := by decide +kernel
  have racing : ∀ r ∈ twoCreators, r = .createFolder "/" .primary "a" ∨ r.Reads := by
    intro r member
    simp only [twoCreators, List.mem_cons, List.not_mem_nil, or_false] at member
    rcases member with rfl | rfl | rfl
    · exact Or.inl rfl
    · exact Or.inl rfl
    · exact Or.inr trivial
  have seen : ((newTree.crowd twoCreators).run overtaken).any (fun c => c.Done) = true := by
    decide +kernel
  obtain ⟨c, ran, done⟩ := (Option.any_eq_true _ _).mp seen
  have yields :=
    creators_yield_one reached offers (Site.still_store _) (Site.still_timely _) listed (by rfl)
      (by rfl) free (Operation.fits_createFolder (by rfl) short) racing
  exact ⟨reached, offers, listed, free, c, ran, of_decide_eq_true done, yields.2 overtaken c ran⟩

end Session

end SeedTree
