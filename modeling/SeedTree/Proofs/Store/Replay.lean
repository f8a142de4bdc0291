import SeedTree.Proofs.Store.Calls

/- Calls on a store that are made one after the other, as a log of them tells. A change answers with
   the record as it then stands, and a decision about a world stands until the record is deleted or
   the decision is replaced. -/
namespace SeedTree.Store

inductive Task where
  | update (path : String) (edit : Change)
  | put (n : Node)
  | delete (path : String)

abbrev Task.call : Task → Call
  | .update path edit => .change path edit
  | .put n => .putIfAbsent n
  | .delete path => .delete path

def Task.Fits (scope : Scope) : Task → Prop
  | .update _ edit => edit.Fits scope
  | .put n => n.Fits scope
  | .delete _ => True

def written (s : Store) (path : String) (n : Node) : Store :=
  { s with nodes := s.nodes.insert (utf8 path) (Record.encode n) }

structure Entry where
  task : Task
  answer : Except StoreFault task.call.Answer

/-- A log tells of whole calls that are made one after the other on a store, and lead to another. -/
def Replays (start : Store) : List Entry → Store → Prop
  | [], last => start = last
  | e :: more, last => e.answer = (start.perform e.task.call).1 ∧
    Replays (start.perform e.task.call).2 more last

def Entry.Tells (path world : String) (e : Entry) (n : Node) : Prop :=
  ∃ proposed, e = ⟨.update path (.decision world proposed), .ok (some n)⟩

/-- The record of a path is deleted, or a decision about it is replaced. -/
def Entry.Unsettles (path world : String) (e : Entry) : Prop :=
  e = ⟨.delete path, .ok true⟩ ∨
    ∃ present answer, e = ⟨.update path (.redecision world present), answer⟩

def Fitting (scope : Scope) (s : Store) : Prop := ∀ path n, s.get path = .ok (some n) → n.Fits scope

def Readable (s : Store) (path : String) : Prop := ∃ found, s.get path = .ok found

/-- What may become of the records by one call. -/
inductive Edited (scope : Scope) (s t : Store) : Prop where
  | same (kept : t.nodes = s.nodes)
  | written (path : String) (n : Node) (fits : n.Fits scope)
      (put : t.nodes = s.nodes.insert (utf8 path) (Record.encode n))
  | erased (path : String) (removed : t.nodes = s.nodes.erase (utf8 path))

variable {scope : Scope} {s t u start : Store} {task : Task} {path other world : String}
  {n : Node} {log : List Entry} {edit : Change}

theorem get_congr (same : t.nodes = s.nodes) (path : String) : t.get path = s.get path := by
  rw [get, get, same]

theorem get_of_entry {read : Bytes} (entry : s.nodes[utf8 path]? = some read)
    (decoded : decode read = .ok n) : s.get path = .ok (some n) := by
  simp only [get, entry, decoded]
  rfl

theorem get_of_absent (absent : s.nodes[utf8 path]? = none) : s.get path = .ok none := by
  rw [get, absent]
  rfl

theorem get_of_broken {read : Bytes} {fault : StoreFault} (entry : s.nodes[utf8 path]? = some read)
    (broken : decode read = .error fault) : s.get path = .error fault := by
  simp only [get, entry, broken]
  rfl

theorem get_of_readable {read : Bytes} {found : Option Node}
    (entry : s.nodes[utf8 path]? = some read)
    (readable : s.get path = .ok found) : ∃ n, s.get path = .ok (some n) := by
  cases decoded : decode read with
  | error fault =>
    rw [get_of_broken entry decoded] at readable
    cases readable
  | ok n => exact ⟨n, get_of_entry entry decoded⟩

theorem erase_absent {m : ByteMap Bytes} {key : Bytes} (absent : m[key]? = none) :
    m.erase key = m := by
  refine Std.ExtTreeMap.ext_getElem? fun other => ?_
  rw [getElem?_erase_ite]
  split
  · rename_i here
    rw [← here, absent]
  · rfl

theorem perform_congr (same : t.nodes = s.nodes) (task : Task) :
    (t.perform task.call).1 = (s.perform task.call).1 ∧
      (t.perform task.call).2.nodes = (s.perform task.call).2.nodes := by
  have gets := get_congr same
  cases task with
  | update path edit =>
    simp only [perform, Store.update, gets]
    split
    · exact ⟨rfl, same⟩
    · exact ⟨rfl, same⟩
    · split
      · exact ⟨rfl, same⟩
      · exact ⟨rfl, by rw [same]⟩
  | put n =>
    simp only [perform, Store.putIfAbsent, same]
    split
    · exact ⟨rfl, same⟩
    · exact ⟨rfl, by simp only [insertNode, same]⟩
  | delete path =>
    simp only [perform, Store.delete, gets]
    split
    · exact ⟨rfl, same⟩
    · exact ⟨rfl, same⟩
    · exact ⟨rfl, by simp only [eraseNode, same]⟩

theorem update_cases (s : Store) (path : String) (edit : Change) :
    (s.perform (.change path edit) = (s.get path, s) ∧
      ∀ n, s.get path = .ok (some n) → edit.apply n = none) ∨
      ∃ n changed, s.get path = .ok (some n) ∧ edit.apply n = some changed ∧
        s.perform (.change path edit) = (.ok (some changed), s.written path changed) := by
  simp only [perform, Store.update]
  cases found : s.get path with
  | error fault => exact Or.inl ⟨rfl, fun n same => by cases same⟩
  | ok record =>
    cases record with
    | none => exact Or.inl ⟨rfl, fun n same => by cases same⟩
    | some n =>
      cases applied : edit.apply n with
      | none => exact Or.inl ⟨by simp only [applied], fun k same => by cases same; exact applied⟩
      | some changed => exact Or.inr ⟨n, changed, rfl, applied, by simp only [applied, written]⟩

theorem putIfAbsent_cases (s : Store) (n : Node) : (s.putIfAbsent n).2 = s ∨
    (s.get n.path = .ok none ∧
      (s.putIfAbsent n).2.nodes = s.nodes.insert (utf8 n.path) (Record.encode n)) := by
  unfold Store.putIfAbsent
  cases entry : s.nodes[utf8 n.path]? with
  | some record => exact Or.inl rfl
  | none => exact Or.inr ⟨get_of_absent entry, rfl⟩

theorem delete_cases (s : Store) (path : String) :
    ((s.delete path).2 = s ∧ ∀ n, s.get path ≠ .ok (some n)) ∨
    ((s.delete path).1 = .ok true ∧ (s.delete path).2.nodes = s.nodes.erase (utf8 path)) := by
  unfold Store.delete
  cases found : s.get path with
  | error fault => exact Or.inl ⟨rfl, fun n same => by cases same⟩
  | ok record =>
    cases record with
    | none => exact Or.inl ⟨rfl, fun n same => by cases same⟩
    | some n => exact Or.inr ⟨rfl, rfl⟩

theorem perform_delete {k : Node} (here : s.get path = .ok (some k)) (n : Node) :
    (s.perform (.delete path)).1 = .ok (s.nodes.contains (utf8 path)) ∧
      (s.perform (.delete path)).2.nodes = (s.eraseNode path n).nodes := by
  have there : s.nodes.contains (utf8 path) = true := by
    rw [Std.ExtTreeMap.contains_eq_isSome_getElem?, Option.isSome_iff_ne_none]
    intro absent
    rw [get_of_absent absent] at here
    cases here
  simp only [perform, Store.delete, here, there, eraseNode, and_self]

theorem edited_perform (fitting : s.Fitting scope) (fits : task.Fits scope) :
    Edited scope s (s.perform task.call).2 := by
  cases task with
  | update path edit =>
    rcases s.update_cases path edit with ⟨still, _⟩ | ⟨n, changed, found, applied, step⟩
    · exact .same (by rw [still])
    · exact .written path changed
        (Change.Fits.node fits applied (fitting path n found)) (by rw [step]; rfl)
  | put n =>
    rcases s.putIfAbsent_cases n with still | ⟨_, put⟩
    · exact .same (congrArg nodes still)
    · exact .written n.path n fits put
  | delete path =>
    rcases s.delete_cases path with ⟨still, _⟩ | ⟨_, removed⟩
    · exact .same (congrArg nodes still)
    · exact .erased path removed

namespace Edited

theorem congr (edited : Edited scope s t) (same : u.nodes = t.nodes) : Edited scope s u := by
  cases edited with
  | same kept => exact .same (same.trans kept)
  | written path n fits put => exact .written path n fits (same.trans put)
  | erased path removed => exact .erased path (same.trans removed)

theorem fitting (edited : Edited scope s t) (fitting : s.Fitting scope) : t.Fitting scope := by
  intro other k found
  cases edited with
  | same kept =>
    rw [get_congr kept] at found
    exact fitting other k found
  | written path n fits put =>
    rw [get_written fits.storable put] at found
    split at found
    · cases found
      exact fits
    · exact fitting other k found
  | erased path removed =>
    rw [get_erased removed] at found
    split at found
    · cases found
    · exact fitting other k found

theorem readable (edited : Edited scope s t) (readable : s.Readable other) : t.Readable other := by
  obtain ⟨found, read⟩ := readable
  cases edited with
  | same kept => exact ⟨found, by rw [get_congr kept, read]⟩
  | written path n fits put =>
    rw [Readable, get_written fits.storable put]
    split
    · exact ⟨some n, rfl⟩
    · exact ⟨found, read⟩
  | erased path removed =>
    rw [Readable, get_erased removed]
    split
    · exact ⟨none, rfl⟩
    · exact ⟨found, read⟩

end Edited

section Replaying

variable {before more segment : List Entry} {last : Store} {e : Entry} {decision : Bool}

theorem replays_append : Replays start (before ++ more) last ↔
    ∃ s, Replays start before s ∧ Replays s more last := by
  induction before generalizing start with
  | nil =>
    constructor
    · intro replays
      exact ⟨start, rfl, replays⟩
    · rintro ⟨s, rfl, replays⟩
      exact replays
  | cons e before ih =>
    constructor
    · rintro ⟨answers, replays⟩
      obtain ⟨s, left, right⟩ := ih.mp replays
      exact ⟨s, ⟨answers, left⟩, right⟩
    · rintro ⟨s, ⟨answers, left⟩, right⟩
      exact ⟨answers, ih.mpr ⟨s, left, right⟩⟩

theorem Replays.fitting (replays : Replays start log last) (fits : ∀ e ∈ log, e.task.Fits scope)
    (fitting : start.Fitting scope) : last.Fitting scope := by
  induction log generalizing start with
  | nil =>
    cases replays
    exact fitting
  | cons e more ih =>
    obtain ⟨first, fits⟩ := List.forall_mem_cons.mp fits
    exact ih replays.2 fits ((edited_perform fitting first).fitting fitting)

theorem get_perform_update (fitting : s.Fitting scope) (fits : edit.Fits scope) :
    (s.perform (.change path edit)).2.get path = (s.perform (.change path edit)).1 := by
  rcases s.update_cases path edit with ⟨still, _⟩ | ⟨n, changed, found, applied, step⟩
  · rw [still]
  · have storable := (fits.node applied (fitting path n found)).storable
    rw [step, get_written storable rfl, if_pos rfl]

/-- The record at a path, with a decision about a world. -/
def Resolved (s : Store) (path world : String) (decision : Bool) : Prop :=
  ∃ n, s.get path = .ok (some n) ∧ n.existence[world]? = some decision

theorem Change.existence_of_apply {k : Node} (applied : edit.apply n = some k)
    (other : ∀ present, edit ≠ .redecision world present)
    (decided : n.existence[world]? = some decision) : k.existence[world]? = some decision := by
  cases edit with
  | markGenerated =>
    simp only [apply] at applied
    split at applied
    · cases applied
    · cases applied
      exact decided
  | content upload time =>
    cases applied
    exact decided
  | checksum text computedFor =>
    simp only [apply] at applied
    split at applied
    · cases applied
    · cases applied
      exact decided
  | decision name present =>
    obtain ⟨missing, rfl⟩ := Change.decision_cases applied
    rw [getElem?_insert_ite, if_neg, decided]
    rintro rfl
    rw [missing] at decided
    cases decided
  | redecision name present =>
    simp only [apply] at applied
    split at applied
    · cases applied
    · cases applied
      rw [getElem?_insert_ite, if_neg, decided]
      rintro rfl
      exact other present rfl

theorem Resolved.perform (decided : s.Resolved path world decision) (fitting : s.Fitting scope)
    (fits : e.task.Fits scope) (answers : e.answer = (s.perform e.task.call).1)
    (settled : ¬ e.Unsettles path world) :
    (s.perform e.task.call).2.Resolved path world decision := by
  obtain ⟨n, present, known⟩ := decided
  obtain ⟨task, answer⟩ := e
  cases task with
  | update other edit =>
    rcases s.update_cases other edit with ⟨still, _⟩ | ⟨k, changed, found, applied, step⟩
    · exact ⟨n, by rw [still, present], known⟩
    · have storable := (Change.Fits.node fits applied (fitting other k found)).storable
      rw [step]
      by_cases here : path = other
      · subst here
        rw [present] at found
        cases found
        refine ⟨changed, by rw [get_written storable rfl, if_pos rfl],
          Change.existence_of_apply applied ?_ known⟩
        rintro again rfl
        exact settled (Or.inr ⟨again, answer, rfl⟩)
      · exact ⟨n, by rw [get_written storable rfl, if_neg here, present], known⟩
  | put k =>
    rcases s.putIfAbsent_cases k with still | ⟨absent, put⟩
    · exact ⟨n, by rw [Store.perform, still, present], known⟩
    · have apart : path ≠ k.path := by
        rintro rfl
        rw [absent] at present
        cases present
      exact ⟨n,
        by rw [Store.perform, get_written (Node.Fits.storable fits) put, if_neg apart, present],
          known⟩
  | delete other =>
    rcases s.delete_cases other with ⟨still, _⟩ | ⟨told, removed⟩
    · exact ⟨n, by rw [Store.perform, still, present], known⟩
    · have apart : path ≠ other := by
        rintro rfl
        have ends : answer = .ok true := answers.trans told
        exact settled (Or.inl (by rw [ends]))
      exact ⟨n, by rw [Store.perform, get_erased removed, if_neg apart, present], known⟩

theorem Change.decided_of_decision (n : Node) (world : String) (proposed : Bool) : ∃ decision,
    (((Change.decision world proposed).apply n).getD n).existence[world]? = some decision := by
  by_cases known : n.existence.contains world
  · obtain ⟨decision, found⟩ :=
      (mem_iff_getElem?_some _ _).mp (Std.ExtTreeMap.contains_iff_mem.mp known)
    exact ⟨decision, by rw [apply, if_pos known, Option.getD_none, found]⟩
  · refine ⟨proposed, ?_⟩
    rw [apply, if_neg known, Option.getD_some]
    exact Std.ExtTreeMap.getElem?_insert_self

theorem Entry.Tells.decided (tells : e.Tells path world n) (fitting : s.Fitting scope)
    (fits : e.task.Fits scope)
    (answers : e.answer = (s.perform e.task.call).1) :
    (s.perform e.task.call).2.get path = .ok (some n) ∧
      ∃ decision, n.existence[world]? = some decision := by
  obtain ⟨proposed, rfl⟩ := tells
  have fits : (Change.decision world proposed).Fits scope := fits
  have told : (s.perform (.change path (.decision world proposed))).1 = .ok (some n) := answers.symm
  refine ⟨(get_perform_update fitting fits).trans told, ?_⟩
  rcases s.update_cases path (.decision world proposed)
    with ⟨still, declines⟩ | ⟨k, changed, _, applied, step⟩
  · rw [still] at told
    have known := Change.decided_of_decision n world proposed
    rwa [declines n told] at known
  · rw [step] at told
    cases told
    have known := Change.decided_of_decision k world proposed
    rwa [applied] at known

theorem Resolved.told (decided : s.Resolved path world decision) (replays : Replays s segment last)
    (fitting : s.Fitting scope) (fits : ∀ e ∈ segment, e.task.Fits scope)
    (settled : ∀ e ∈ segment, ¬ e.Unsettles path world) :
    ∀ e ∈ segment, ∀ n, e.Tells path world n → n.existence[world]? = some decision := by
  induction segment generalizing s with
  | nil => exact List.forall_mem_nil _
  | cons e more ih =>
    obtain ⟨answers, replays⟩ := replays
    obtain ⟨first, fits⟩ := List.forall_mem_cons.mp fits
    obtain ⟨quiet, settled⟩ := List.forall_mem_cons.mp settled
    have stands := decided.perform fitting first answers quiet
    have later := (edited_perform fitting first).fitting fitting
    refine List.forall_mem_cons.mpr ⟨fun n tells => ?_, ih stands replays later fits settled⟩
    obtain ⟨k, here, known⟩ := stands
    rw [(tells.decided fitting first answers).1] at here
    cases here
    exact known

/-- The first that is told a decision settles it. -/
theorem Replays.told (replays : Replays s segment last) (fitting : s.Fitting scope)
    (fits : ∀ e ∈ segment, e.task.Fits scope) (settled : ∀ e ∈ segment, ¬ e.Unsettles path world) :
    ∃ decision, ∀ e ∈ segment, ∀ n, e.Tells path world n → n.existence[world]? = some decision := by
  induction segment generalizing s with
  | nil => exact ⟨true, List.forall_mem_nil _⟩
  | cons e more ih =>
    obtain ⟨answers, replays⟩ := replays
    obtain ⟨first, fits⟩ := List.forall_mem_cons.mp fits
    have later := (edited_perform fitting first).fitting fitting
    have settled := (List.forall_mem_cons.mp settled).2
    by_cases tells : ∃ n, e.Tells path world n
    · obtain ⟨n, tells⟩ := tells
      obtain ⟨here, decision, known⟩ := tells.decided fitting first answers
      refine ⟨decision, List.forall_mem_cons.mpr ⟨fun k told => ?_, ?_⟩⟩
      · have same := (told.decided fitting first answers).1
        rw [here] at same
        cases same
        exact known
      · exact Resolved.told ⟨n, here, known⟩ replays later fits settled
    · obtain ⟨decision, told⟩ := ih replays later fits settled
      exact ⟨decision, List.forall_mem_cons.mpr ⟨fun n tell => absurd ⟨n, tell⟩ tells, told⟩⟩

end Replaying

end SeedTree.Store
