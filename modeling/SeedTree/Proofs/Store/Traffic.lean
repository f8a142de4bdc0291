import SeedTree.Proofs.Store.Replay

/- Calls on a store that are under way at the same time. A change reads the bytes of a record, and
   puts the changed record in their place if they are there still; else it reads again. A deletion
   reads a record and then removes whatever stands at its path. In any order of these steps the
   records are those that whole calls leave, one after the other in the order of the steps that end
   them. -/
namespace SeedTree.Store

inductive Caller where
  /-- A change that is about to read. -/
  | updates (path : String) (edit : Change)
  /-- A change that has read some bytes and made of them the record that is to follow. -/
  | swaps (path : String) (edit : Change) (read : Bytes) (changed : Node)
  | puts (n : Node)
  /-- A deletion that is about to read. -/
  | deletes (path : String)
  /-- A deletion that has read a record and is about to remove it. -/
  | removes (path : String) (n : Node)

def Task.start : Task → Caller
  | .update path edit => .updates path edit
  | .put n => .puts n
  | .delete path => .deletes path

abbrev Caller.task : Caller → Task
  | .updates path edit => .update path edit
  | .swaps path edit _ _ => .update path edit
  | .puts n => .put n
  | .deletes path => .delete path
  | .removes path _ => .delete path

/-- What a step of a caller leads to: further steps, or the answer. -/
inductive Outcome (task : Task) where
  | goes (next : Caller)
  | ends (answer : Except StoreFault task.call.Answer)

/-- One step of a caller. -/
def Caller.act (s : Store) : (caller : Caller) → Store × Outcome caller.task
  | .updates path edit =>
    match s.nodes[utf8 path]? with
    | none => (s, .ends (.ok none))
    | some read =>
      match decode read with
      | .error fault => (s, .ends (.error fault))
      | .ok n =>
        match edit.apply n with
        | none => (s, .ends (.ok (some n)))
        | some changed => (s, .goes (.swaps path edit read changed))
  | .swaps path edit read changed =>
    if s.nodes[utf8 path]? = some read then (s.written path changed, .ends (.ok (some changed)))
    else (s, .goes (.updates path edit))
  | .puts n => ((s.putIfAbsent n).2, .ends (s.putIfAbsent n).1)
  | .deletes path =>
    match s.get path with
    | .error fault => (s, .ends (.error fault))
    | .ok none => (s, .ends (.ok false))
    | .ok (some n) => (s, .goes (.removes path n))
  | .removes path n => (s.eraseNode path n, .ends (.ok (s.nodes.contains (utf8 path))))

structure Traffic where
  store : Store
  callers : List Caller
  /-- What has ended so far, in this order. -/
  log : List Entry

namespace Traffic

/-- What happens next: a task arrives, or one that is under way takes a step. -/
inductive Cue where
  | arrives (task : Task)
  | proceeds (caller : Nat)

def Cue.Fits (scope : Scope) : Cue → Prop
  | .arrives task => task.Fits scope
  | .proceeds _ => True

def quiet (s : Store) : Traffic := ⟨s, [], []⟩

def proceed (c : Traffic) (i : Nat) : Option Traffic :=
  c.callers[i]?.map fun caller =>
    match caller.act c.store with
    | (s, .goes next) => ⟨s, c.callers.set i next, c.log⟩
    | (s, .ends answer) => ⟨s, c.callers.eraseIdx i, c.log ++ [⟨caller.task, answer⟩]⟩

def next (c : Traffic) : Cue → Option Traffic
  | .arrives task => some { c with callers := c.callers ++ [task.start] }
  | .proceeds i => c.proceed i

def run : Traffic → List Cue → Option Traffic
  | c, [] => some c
  | c, cue :: more => (c.next cue).bind fun c => run c more

end Traffic

/-- A change works on the bytes it has read, and what a deletion is about to remove can be read. -/
def Caller.Ready (scope : Scope) (s : Store) : Caller → Prop
  | .updates _ edit => edit.Fits scope
  | .swaps _ edit read changed =>
    edit.Fits scope ∧ ∃ n, decode read = .ok n ∧ edit.apply n = some changed
  | .puts n => n.Fits scope
  | .deletes _ => True
  | .removes path _ => s.Readable path

variable {scope : Scope} {s t start : Store} {task : Task} {path : String}
  {n : Node} {edit : Change} {caller : Caller}

theorem Edited.ready (edited : Edited scope s t) (ready : caller.Ready scope s) :
    caller.Ready scope t := by
  cases caller with
  | removes path n => exact edited.readable ready
  | updates path edit => exact ready
  | swaps path edit read changed => exact ready
  | puts n => exact ready
  | deletes path => exact ready

namespace Caller

theorem Ready.fits (ready : caller.Ready scope s) : caller.task.Fits scope := by
  cases caller with
  | swaps path edit read changed => exact ready.1
  | updates path edit => exact ready
  | puts n => exact ready
  | deletes path => trivial
  | removes path n => trivial

/-- A step leaves the store alone and the task unfinished, or it is the whole call. -/
inductive Steps (scope : Scope) (s : Store) (caller : Caller) :
    Store → Outcome caller.task → Prop where
  | goes {next : Caller} (ready : next.Ready scope s) : Steps scope s caller s (.goes next)
  | ends {t : Store} {answer : Except StoreFault caller.task.call.Answer}
      (answers : answer = (s.perform caller.task.call).1)
      (leaves : t.nodes = (s.perform caller.task.call).2.nodes) :
        Steps scope s caller t (.ends answer)

theorem Steps.whole {answer : Except StoreFault caller.task.call.Answer}
    (whole : s.perform caller.task.call = (answer, t)) : Steps scope s caller t (.ends answer) :=
  .ends (by rw [whole]) (by rw [whole])

theorem act_updates (s : Store) (path : String) (edit : Change) :
    (∃ answer, (updates path edit).act s = (s, .ends answer) ∧
      s.perform (.change path edit) = (answer, s)) ∨
      ∃ read n changed, (updates path edit).act s = (s, .goes (.swaps path edit read changed)) ∧
        s.nodes[utf8 path]? = some read ∧ decode read = .ok n ∧ edit.apply n = some changed := by
  cases entry : s.nodes[utf8 path]? with
  | none =>
    refine Or.inl ⟨.ok none, by simp only [act, entry], ?_⟩
    simp only [perform, Store.update, get_of_absent entry]
  | some read =>
    cases decoded : decode read with
    | error fault =>
      refine Or.inl ⟨.error fault, by simp only [act, entry, decoded], ?_⟩
      simp only [perform, Store.update, get_of_broken entry decoded]
    | ok n =>
      cases applied : edit.apply n with
      | none =>
        refine Or.inl ⟨.ok (some n), by simp only [act, entry, decoded, applied], ?_⟩
        simp only [perform, Store.update, get_of_entry entry decoded, applied]
      | some changed =>
        exact Or.inr ⟨read, n, changed,
          by simp only [act, entry, decoded, applied], rfl, decoded, applied⟩

/-- A swap that finds the bytes that were read is the whole change. Other bytes may have stood there
in between. -/
theorem act_swaps {read : Bytes} {changed : Node} (entry : s.nodes[utf8 path]? = some read)
    (decoded : decode read = .ok n) (applied : edit.apply n = some changed) :
    (swaps path edit read changed).act s = (s.written path changed, .ends (.ok (some changed))) ∧
      s.perform (.change path edit) = (.ok (some changed), s.written path changed) := by
  refine ⟨by simp only [act, if_pos entry], ?_⟩
  simp only [perform, Store.update, get_of_entry entry decoded, applied, written]

theorem act_deletes (s : Store) (path : String) :
    (∃ answer, (deletes path).act s = (s, .ends answer) ∧ s.perform (.delete path) = (answer, s)) ∨
      ∃ n, (deletes path).act s = (s, .goes (.removes path n)) ∧ s.get path = .ok (some n) := by
  cases found : s.get path with
  | error fault =>
    refine Or.inl ⟨.error fault, by simp only [act, found], ?_⟩
    simp only [perform, Store.delete, found]
  | ok record =>
    cases record with
    | none =>
      refine Or.inl ⟨.ok false, by simp only [act, found], ?_⟩
      simp only [perform, Store.delete, found]
    | some n => exact Or.inr ⟨n, by simp only [act, found], rfl⟩

theorem Ready.steps (ready : caller.Ready scope s) :
    caller.Steps scope s (caller.act s).1 (caller.act s).2 := by
  cases caller with
  | updates path edit =>
    rcases act_updates s path edit
      with ⟨answer, acts, whole⟩ | ⟨read, n, changed, acts, _, decoded, applied⟩
    · rw [acts]
      exact .whole whole
    · rw [acts]
      exact .goes ⟨ready, n, decoded, applied⟩
  | swaps path edit read changed =>
    obtain ⟨fits, n, decoded, applied⟩ := ready
    by_cases entry : s.nodes[utf8 path]? = some read
    · obtain ⟨acts, whole⟩ := act_swaps entry decoded applied
      rw [acts]
      exact .whole whole
    · simp only [act, if_neg entry]
      exact .goes fits
  | puts n => exact .whole rfl
  | deletes path =>
    rcases act_deletes s path with ⟨answer, acts, whole⟩ | ⟨n, acts, found⟩
    · rw [acts]
      exact .whole whole
    · rw [acts]
      exact .goes ⟨some n, found⟩
  | removes path n =>
    obtain ⟨found, read⟩ := ready
    cases entry : s.nodes[utf8 path]? with
    | none =>
      have gone := get_of_absent entry
      refine .ends ?_ ?_
      · simp only [perform, Store.delete, gone, Std.ExtTreeMap.contains_eq_isSome_getElem?, entry]
        rfl
      · simp only [perform, Store.delete, gone]
        exact erase_absent entry
    | some record =>
      -- What is read now need not be the record that is removed.
      obtain ⟨k, here⟩ := get_of_readable entry read
      obtain ⟨answers, leaves⟩ := perform_delete here n
      exact .ends answers.symm leaves.symm

end Caller

namespace Traffic

structure Sound (scope : Scope) (start : Store) (c : Traffic) : Prop where
  fitting : c.store.Fitting scope
  fits : ∀ e ∈ c.log, e.task.Fits scope
  replays : ∃ last, Replays start c.log last ∧ c.store.nodes = last.nodes
  ready : ∀ caller ∈ c.callers, caller.Ready scope c.store

variable {c d : Traffic} {cue : Cue} {cues : List Cue}

theorem sound_quiet (fitting : start.Fitting scope) : (quiet start).Sound scope start where
  fitting := fitting
  fits := List.forall_mem_nil _
  replays := ⟨start, rfl, rfl⟩
  ready := List.forall_mem_nil _

theorem ready_start (fits : task.Fits scope) : task.start.Ready scope s := by
  cases task with
  | update path edit => exact fits
  | put n => exact fits
  | delete path => trivial

/-- A step that ends a call does all that the call does; any other leaves the records alone. -/
theorem Sound.proceed_cases {i : Nat} (sound : c.Sound scope start) (step : c.proceed i = some d) :
    (∃ next, next.Ready scope c.store ∧ d = { c with callers := c.callers.set i next }) ∨
      ∃ e : Entry, d.log = c.log ++ [e] ∧ d.callers = c.callers.eraseIdx i ∧ e.task.Fits scope ∧
        e.answer = (c.store.perform e.task.call).1 ∧
          d.store.nodes = (c.store.perform e.task.call).2.nodes := by
  obtain ⟨caller, here, rfl⟩ := Option.map_eq_some_iff.mp step
  have ready := sound.ready caller (List.mem_of_getElem? here)
  have steps := ready.steps
  generalize caller.act c.store = acted at steps ⊢
  obtain ⟨s, outcome⟩ := acted
  cases steps with
  | @goes next ready => exact Or.inl ⟨next, ready, rfl⟩
  | @ends _ answer answers leaves =>
    exact Or.inr ⟨⟨caller.task, answer⟩, rfl, rfl, ready.fits, answers, leaves⟩

theorem Sound.proceed {i : Nat} (sound : c.Sound scope start) (step : c.proceed i = some d) :
    d.Sound scope start := by
  rcases sound.proceed_cases step
    with ⟨next, ready, rfl⟩ | ⟨e, logged, callers, fits, answers, leaves⟩
  · refine ⟨sound.fitting, sound.fits, sound.replays, fun other member => ?_⟩
    rcases List.mem_or_eq_of_mem_set member with old | rfl
    · exact sound.ready other old
    · exact ready
  · have edited := (edited_perform sound.fitting fits).congr leaves
    obtain ⟨last, replays, same⟩ := sound.replays
    obtain ⟨answered, left⟩ := perform_congr same e.task
    refine ⟨edited.fitting sound.fitting, ?_, ?_, ?_⟩
    · rw [logged]
      exact List.forall_mem_append.mpr ⟨sound.fits, List.forall_mem_singleton.mpr fits⟩
    · rw [logged]
      exact ⟨_, replays_append.mpr ⟨last, replays, answers.trans answered, rfl⟩, leaves.trans left⟩
    · rw [callers]
      exact fun other member => edited.ready (sound.ready other (List.mem_of_mem_eraseIdx member))

theorem Sound.tells {i : Nat} {answer : Except StoreFault (Option Node)}
    (sound : c.Sound scope start)
    (step : c.proceed i = some d) (logged : d.log = c.log ++ [⟨.update path edit, answer⟩]) :
    d.store.get path = answer := by
  rcases sound.proceed_cases step with ⟨next, _, rfl⟩ | ⟨e, ended, _, fits, answers, leaves⟩
  · exact absurd (List.self_eq_append_right.mp logged) (List.cons_ne_nil _ _)
  · rw [ended] at logged
    cases List.append_cancel_left logged
    rw [get_congr leaves, get_perform_update sound.fitting fits]
    exact answers.symm

theorem Sound.next (sound : c.Sound scope start) (fits : cue.Fits scope)
    (step : c.next cue = some d) : d.Sound scope start := by
  cases cue with
  | arrives task =>
    cases step
    refine ⟨sound.fitting, sound.fits, sound.replays, fun caller member => ?_⟩
    rcases List.mem_append.mp member with old | here
    · exact sound.ready caller old
    · rw [List.mem_singleton.mp here]
      exact ready_start fits
  | proceeds i => exact sound.proceed step

theorem Sound.run (sound : c.Sound scope start) (fits : ∀ cue ∈ cues, cue.Fits scope)
    (run : c.run cues = some d) : d.Sound scope start := by
  induction cues generalizing c with
  | nil =>
    cases run
    exact sound
  | cons cue more ih =>
    obtain ⟨first, fits⟩ := List.forall_mem_cons.mp fits
    obtain ⟨middle, step, run⟩ := Option.bind_eq_some_iff.mp run
    exact ih (sound.next first step) fits run

theorem run_goes {after : Caller} (acts : caller.act s = (t, .goes after)) (cues : List Cue) :
    run ⟨s, [caller], []⟩ (.proceeds 0 :: cues) = run ⟨t, [after], []⟩ cues := by
  simp only [run, next, proceed, List.getElem?_cons_zero, Option.map_some, Option.bind_some, acts,
    List.set_cons_zero]

theorem run_ends {answer : Except StoreFault caller.task.call.Answer}
    (acts : caller.act s = (t, .ends answer)) :
    run ⟨s, [caller], []⟩ [.proceeds 0] = some ⟨t, [], [⟨caller.task, answer⟩]⟩ := by
  simp only [run, next, proceed, List.getElem?_cons_zero, Option.map_some, Option.bind_some, acts,
    List.eraseIdx_cons_zero, List.nil_append]

/-- A call that nobody contends with does in its steps what it does at once. -/
theorem run_alone (s : Store) (task : Task) : ∃ cues, (quiet s).run (.arrives task :: cues) =
    some ⟨(s.perform task.call).2, [], [⟨task, (s.perform task.call).1⟩]⟩ := by
  cases task with
  | update path edit =>
    rcases Caller.act_updates s path edit with
      ⟨answer, acts, whole⟩ | ⟨read, n, changed, acts, entry, decoded, applied⟩
    · exact ⟨[.proceeds 0], (run_ends acts).trans (by rw [whole])⟩
    · obtain ⟨swaps, whole⟩ := Caller.act_swaps entry decoded applied
      exact ⟨[.proceeds 0, .proceeds 0],
        ((run_goes acts _).trans (run_ends swaps)).trans (by rw [whole])⟩
  | put n => exact ⟨[.proceeds 0], rfl⟩
  | delete path =>
    rcases Caller.act_deletes s path with ⟨answer, acts, whole⟩ | ⟨n, acts, found⟩
    · exact ⟨[.proceeds 0], (run_ends acts).trans (by rw [whole])⟩
    · refine ⟨[.proceeds 0, .proceeds 0], ((run_goes acts _).trans (run_ends rfl)).trans ?_⟩
      rw [(perform_delete found n).1]
      simp only [perform, Store.delete, found]

/-- However changes, insertions and deletions interleave, the records are those that the ended calls
leave, one after the other; a change is told the record as it stands after its last step; and until
the record is deleted or a decision is replaced, all who ask for that decision are told the same. -/
theorem run_loses_nothing (fitting : start.Fitting scope) (fits : ∀ cue ∈ cues, cue.Fits scope)
    (ran : (quiet start).run cues = some c) :
    (∃ last, Replays start c.log last ∧ c.store.nodes = last.nodes) ∧
      (∀ i d path edit answer, c.proceed i = some d → d.log = c.log ++
        [⟨.update path edit, answer⟩] →
        d.store.get path = answer) ∧
      ∀ before segment more path world, c.log = before ++ (segment ++ more) →
        (∀ e ∈ segment, ¬ e.Unsettles path world) →
          ∃ decision, ∀ e ∈ segment, ∀ n, e.Tells path world n →
          n.existence[world]? = some decision := by
  have sound := (sound_quiet fitting).run fits ran
  refine ⟨sound.replays, fun i d path edit answer => sound.tells, ?_⟩
  intro before segment more path world split settled
  obtain ⟨last, replays, _⟩ := sound.replays
  have fits := sound.fits
  rw [split] at replays fits
  obtain ⟨middle, first, replays⟩ := replays_append.mp replays
  obtain ⟨_, replays, _⟩ := replays_append.mp replays
  obtain ⟨early, fits⟩ := List.forall_mem_append.mp fits
  exact replays.told (first.fitting early fitting) (List.forall_mem_append.mp fits).1 settled

def bareRoot : Node := Node.root ⟨List.replicate 32 0, rfl⟩ Moment.epoch

/-- Two callers that propose opposite decisions read the same bytes. The second swaps first; the
swap of the first fails, and it reads again. -/
def rivals : List Cue :=
  [.arrives (.put bareRoot), .proceeds 0, .arrives (.update "/" (.decision World.primaryName true)),
    .arrives (.update "/" (.decision World.primaryName false))]
    ++ [0, 1, 1, 0, 0].map .proceeds

theorem rivals_fit : ∀ cue ∈ rivals, cue.Fits .bare := by
  have known : World.primaryName ∈ Scope.bare.worlds := List.mem_singleton_self _
  intro cue member
  rcases List.mem_append.mp member with before | turn
  · simp only [List.mem_cons, List.not_mem_nil, or_false] at before
    rcases before with rfl | rfl | rfl | rfl
    · exact Node.fits_root (by decide)
    · trivial
    · exact known
    · exact known
  · obtain ⟨caller, _, rfl⟩ := List.mem_map.mp turn
    trivial

theorem fitting_empty : empty.Fitting scope := by
  intro path n found
  rw [get_of_absent Std.ExtTreeMap.getElem?_empty] at found
  cases found

def proposal? : Entry → Option (String × String × Bool)
  | ⟨.update path (.decision world proposed), .ok (some _)⟩ => some (path, world, proposed)
  | ⟨.update _ (.decision _ _), .ok none⟩ => none
  | ⟨.update _ (.decision _ _), .error _⟩ => none
  | ⟨.update _ .markGenerated, _⟩ => none
  | ⟨.update _ (.content _ _), _⟩ => none
  | ⟨.update _ (.checksum _ _), _⟩ => none
  | ⟨.update _ (.redecision _ _), _⟩ => none
  | ⟨.put _, _⟩ => none
  | ⟨.delete _, _⟩ => none

theorem proposal?_eq_some {e : Entry} {world : String} {proposed : Bool}
    (same : proposal? e = some (path, world, proposed)) :
    ∃ n, e = ⟨.update path (.decision world proposed), .ok (some n)⟩ := by
  unfold proposal? at same
  split at same
  · rename_i n
    cases same
    exact ⟨n, rfl⟩
  all_goals cases same

theorem rivals_agree : ∃ c first n m decision, (quiet .empty).run rivals = some c ∧
    c.log = [first, ⟨.update "/" (.decision World.primaryName false), .ok (some n)⟩,
      ⟨.update "/" (.decision World.primaryName true), .ok (some m)⟩] ∧
    (∃ last, Replays .empty c.log last ∧ c.store.nodes = last.nodes) ∧
    n.existence[World.primaryName]? = some decision ∧
      m.existence[World.primaryName]? = some decision := by
  have seen : ((quiet .empty).run rivals).any (fun c => c.log.map proposal? =
      [none, some ("/", World.primaryName, false), some ("/", World.primaryName, true)]) =
        true := by
    decide +kernel
  obtain ⟨c, ran, seen⟩ := (Option.any_eq_true _ _).mp seen
  obtain ⟨first, _, log, _, two⟩ := List.map_eq_cons_iff.mp (of_decide_eq_true seen)
  obtain ⟨b, _, rfl, second, one⟩ := List.map_eq_cons_iff.mp two
  obtain ⟨a, _, rfl, third, none⟩ := List.map_eq_cons_iff.mp one
  obtain ⟨n, rfl⟩ := proposal?_eq_some second
  obtain ⟨m, rfl⟩ := proposal?_eq_some third
  cases List.map_eq_nil_iff.mp none
  obtain ⟨replays, _, agree⟩ := run_loses_nothing fitting_empty rivals_fit ran
  obtain ⟨decision, told⟩ := agree [first] _ [] "/" World.primaryName
    (by rw [List.append_nil]; exact log) (by simp [Entry.Unsettles])
  exact ⟨c, first, n, m, decision, ran, log, replays, told _ (by simp) n ⟨false, rfl⟩,
    told _ (by simp) m ⟨true, rfl⟩⟩

end Traffic

end SeedTree.Store
