import Mathlib.Data.List.Perm.Basic
import SeedTree.Lock
import SeedTree.Proofs.Maps

/- Callers with sections under locks, one atomic step at a time and in any order. A lock may be
   removed from the table while others are about to fetch it, wait for it or give it back; what
   makes that safe is that the handles an entry counts are those that sections have out on it. -/
namespace SeedTree.Lock

inductive Stage where
  /-- The table had no lock for the path, and one is about to be put there. -/
  | seeking
  /-- A handle on a lock is out; the lock itself has yet to be got. -/
  | waiting (lock : Nat)
  | inside (lock : Nat)
  /-- The lock is free again, and the handle still out. -/
  | leaving (lock : Nat)
  /-- The handle is given back, and the table has yet to be swept. -/
  | sweeping
  deriving DecidableEq, Repr

def Stage.lock? : Stage → Option Nat
  | .waiting lock | .inside lock | .leaving lock => some lock
  | .seeking | .sweeping => none

def Stage.isInside : Stage → Bool
  | .inside _ => true
  | _ => false

structure Section where
  path : String
  stage : Stage
  deriving DecidableEq, Repr

def Section.hasHandle (s : Section) (path : String) : Bool := s.path = path && s.stage.lock?.isSome

def Section.isInside (s : Section) (path : String) : Bool := s.path = path && s.stage.isInside

/-- A handle on a lock is given back. Only if the lock is still the one in the table does the table
count it. -/
def Table.giveBack (t : Table) (path : String) (lock : Nat) : Table :=
  if (t.entries[path]?).any (·.identity = lock) then t.drop path else t

/-- The table of locks, and the sections that each caller is in, innermost first. -/
structure Hall where
  table : Table
  callers : List (List Section)

inductive Step where
  | begins (path : String)
  | proceeds
  deriving DecidableEq, Repr

namespace Hall

def idle (callers : Nat) : Hall := ⟨.empty, List.replicate callers []⟩

def sections (h : Hall) : List Section := h.callers.flatten

def isFree (h : Hall) (lock : Nat) : Bool := h.sections.all (·.stage ≠ .inside lock)

/-- A caller may begin a section when it is in none, or inside the one it began last. -/
def mayBegin : List Section → Bool
  | [] => true
  | s :: _ => s.stage.isInside

def look (t : Table) (path : String) : Table × Section :=
  if t.entries.contains path then ((t.hold path).2, ⟨path, .waiting (t.hold path).1⟩)
  else (t, ⟨path, .seeking⟩)

/-- What becomes of the table and of a section that goes on, if it can. -/
def advance (h : Hall) (s : Section) : Option (Table × Option Section) :=
  match s.stage with
  | .seeking => some ((h.table.hold s.path).2, some ⟨s.path, .waiting (h.table.hold s.path).1⟩)
  | .waiting lock => if h.isFree lock then some (h.table, some ⟨s.path, .inside lock⟩) else none
  | .inside lock => some (h.table, some ⟨s.path, .leaving lock⟩)
  | .leaving lock => some (h.table.giveBack s.path lock, some ⟨s.path, .sweeping⟩)
  | .sweeping => some (h.table.sweep s.path, none)

def next (h : Hall) (i : Nat) : Step → Option Hall
  | .begins path =>
    match h.callers[i]? with
    | some outer =>
      if mayBegin outer then
        some ⟨(look h.table path).1, h.callers.set i ((look h.table path).2 :: outer)⟩
      else none
    | none => none
  | .proceeds =>
    match h.callers[i]? with
    | some (s :: outer) =>
      (h.advance s).map fun (table, s) => ⟨table, h.callers.set i (s.toList ++ outer)⟩
    | _ => none

def run : Hall → List (Nat × Step) → Option Hall
  | h, [] => some h
  | h, (i, step) :: more => (h.next i step).bind fun h => run h more

end Hall

theorem Stage.isInside_iff {stage : Stage} :
    stage.isInside = true ↔ ∃ lock, stage = .inside lock := by
  cases stage <;> simp [Stage.isInside]

section Counting

variable (path other : String) (stage : Stage) (rest : List Section)

theorem countP_hasHandle : List.countP (·.hasHandle other) (⟨path, stage⟩ :: rest) =
    rest.countP (·.hasHandle other) + if path = other ∧ stage.lock?.isSome then 1 else 0 := by
  simp [List.countP_cons, Section.hasHandle]

theorem countP_isInside : List.countP (·.isInside other) (⟨path, stage⟩ :: rest) =
    rest.countP (·.isInside other) + if path = other ∧ stage.isInside then 1 else 0 := by
  simp [List.countP_cons, Section.isInside]

end Counting

namespace Table

variable (t : Table) (path other : String)

theorem getElem?_hold : (t.hold path).2.entries[other]? =
    if path = other then
      some ⟨(t.hold path).1, ((t.entries[path]?).map Entry.handles).getD 0 + 1⟩
    else t.entries[other]? := by
  unfold hold
  cases entry : t.entries[path]? <;> simp [getElem?_insert_ite]

theorem hold_found {entry : Entry} (found : t.entries[path]? = some entry) :
    (t.hold path).1 = entry.identity := by
  simp [hold, found]

theorem getElem?_drop {entry : Entry} (found : t.entries[path]? = some entry) :
    (t.drop path).entries[other]? =
      if path = other then some { entry with handles := entry.handles - 1 }
        else t.entries[other]? := by
  simp [drop, found, getElem?_insert_ite]

theorem getElem?_sweep {entry : Entry} (found : t.entries[path]? = some entry) :
    (t.sweep path).entries[other]? =
      if path = other ∧ entry.handles = 0 then none else t.entries[other]? := by
  unfold sweep
  rw [found]
  by_cases unused : entry.handles = 0 <;> simp [unused, getElem?_erase_ite]

end Table

structure Sound (t : Table) (sections : List Section) : Prop where
  linked : ∀ s ∈ sections, ∀ lock, s.stage.lock? = some lock →
    ∃ entry, t.entries[s.path]? = some entry ∧ entry.identity = lock
  counted : ∀ path entry, t.entries[path]? = some entry →
    entry.handles = sections.countP (·.hasHandle path)
  tended : ∀ path entry, t.entries[path]? = some entry →
    ∃ s ∈ sections, s.path = path ∧ s.stage ≠ .seeking
  single : ∀ path, sections.countP (·.isInside path) ≤ 1

namespace Sound

variable {t : Table} {sections rest : List Section} {path : String} {lock : Nat} {entry : Entry}

theorem empty : Sound .empty [] := by
  constructor <;> simp [Table.empty]

theorem perm (sound : Sound t sections) (same : sections.Perm rest) : Sound t rest := by
  constructor
  · intro s member
    exact sound.linked s (same.mem_iff.mpr member)
  · intro path entry found
    rw [← same.countP_eq]
    exact sound.counted path entry found
  · intro path entry found
    obtain ⟨s, member, known⟩ := sound.tended path entry found
    exact ⟨s, same.mem_iff.mp member, known⟩
  · intro path
    rw [← same.countP_eq]
    exact sound.single path

theorem entry_of_handle (sound : Sound t sections) {s : Section} (member : s ∈ sections)
    (out : s.stage.lock? = some lock) :
    ∃ entry, t.entries[s.path]? = some entry ∧ entry.identity = lock ∧ 0 < entry.handles := by
  obtain ⟨entry, found, same⟩ := sound.linked s member lock out
  refine ⟨entry, found, same, ?_⟩
  rw [sound.counted _ _ found, List.countP_pos_iff]
  exact ⟨s, member, by simp [Section.hasHandle, out]⟩

/-! One lemma for each way a section can go on. The section stands first; `rest` are all others. -/

theorem seeks (sound : Sound t rest) : Sound t (⟨path, .seeking⟩ :: rest) := by
  constructor
  · intro s member lock out
    rcases List.mem_cons.mp member with rfl | old
    · cases out
    · exact sound.linked s old lock out
  · intro other entry found
    simp [countP_hasHandle, sound.counted other entry found, Stage.lock?]
  · intro other entry found
    obtain ⟨s, member, known⟩ := sound.tended other entry found
    exact ⟨s, List.mem_cons_of_mem _ member, known⟩
  · intro other
    simpa [countP_isInside, Stage.isInside] using sound.single other

theorem none_out (sound : Sound t sections) (missing : t.entries[path]? = none) :
    sections.countP (·.hasHandle path) = 0 := by
  rw [List.countP_eq_zero]
  intro s member out
  simp only [Section.hasHandle, Bool.and_eq_true, decide_eq_true_eq,
    Option.isSome_iff_exists] at out
  obtain ⟨rfl, lock, out⟩ := out
  obtain ⟨entry, found, _⟩ := sound.linked s member lock out
  rw [missing] at found
  cases found

theorem fetches (sound : Sound t (⟨path, .seeking⟩ :: rest)) :
    Sound (t.hold path).2 (⟨path, .waiting (t.hold path).1⟩ :: rest) := by
  constructor
  · intro s member lock out
    rw [Table.getElem?_hold]
    rcases List.mem_cons.mp member with rfl | old
    · cases out
      exact ⟨_, if_pos rfl, rfl⟩
    · obtain ⟨entry, found, same⟩ := sound.linked s (List.mem_cons_of_mem _ old) lock out
      by_cases here : path = s.path
      · rw [← here] at found
        exact ⟨_, if_pos here, by rw [t.hold_found path found, same]⟩
      · exact ⟨entry, by rw [if_neg here, found], same⟩
  · intro other entry found
    rw [Table.getElem?_hold] at found
    split at found
    · rename_i here
      subst here
      cases found
      cases before : t.entries[path]? with
      | none =>
        have out := sound.none_out before
        simp [countP_hasHandle, Stage.lock?] at out ⊢
        exact out
      | some entry =>
        have counted := sound.counted path entry before
        simp [countP_hasHandle, Stage.lock?] at counted ⊢
        exact counted
    · rename_i elsewhere
      have counted := sound.counted other entry found
      simp [countP_hasHandle, elsewhere] at counted ⊢
      exact counted
  · intro other entry found
    rw [Table.getElem?_hold] at found
    split at found
    · rename_i here
      exact ⟨_, List.mem_cons_self, here, by simp⟩
    · obtain ⟨s, member, place, stage⟩ := sound.tended other entry found
      rcases List.mem_cons.mp member with rfl | old
      · exact absurd rfl stage
      · exact ⟨s, List.mem_cons_of_mem _ old, place, stage⟩
  · intro other
    simpa [countP_isInside, Stage.isInside] using sound.single other

theorem keeps_handle {old new : Stage} (sound : Sound t (⟨path, old⟩ :: rest))
    (same : new.lock? = old.lock?) (begun : new ≠ .seeking)
    (single : ∀ other, List.countP (·.isInside other) (⟨path, new⟩ :: rest) ≤ 1) :
    Sound t (⟨path, new⟩ :: rest) := by
  constructor
  · intro s member lock out
    rcases List.mem_cons.mp member with rfl | other
    · exact sound.linked ⟨path, old⟩ List.mem_cons_self lock (same ▸ out)
    · exact sound.linked s (List.mem_cons_of_mem _ other) lock out
  · intro other entry found
    rw [countP_hasHandle, same, ← countP_hasHandle]
    exact sound.counted other entry found
  · intro other entry found
    obtain ⟨s, member, known⟩ := sound.tended other entry found
    rcases List.mem_cons.mp member with rfl | old
    · exact ⟨_, List.mem_cons_self, known.1, begun⟩
    · exact ⟨s, List.mem_cons_of_mem _ old, known⟩
  · exact single

/-- Whoever were inside under the same path would be inside under the very lock that is free. -/
theorem none_inside (sound : Sound t (⟨path, .waiting lock⟩ :: rest))
    (free : ∀ s ∈ rest, s.stage ≠ .inside lock) : rest.countP (·.isInside path) = 0 := by
  obtain ⟨entry, found, same⟩ := sound.linked _ List.mem_cons_self lock rfl
  rw [List.countP_eq_zero]
  intro s member inside
  simp only [Section.isInside, Bool.and_eq_true, decide_eq_true_eq, Stage.isInside_iff] at inside
  obtain ⟨place, other, stage⟩ := inside
  obtain ⟨entry', found', same'⟩ :=
    sound.linked s (List.mem_cons_of_mem _ member) other (by rw [stage]; rfl)
  rw [place, found] at found'
  cases found'
  exact free s member (by rw [stage, ← same', same])

theorem gets (sound : Sound t (⟨path, .waiting lock⟩ :: rest))
    (free : ∀ s ∈ rest, s.stage ≠ .inside lock) : Sound t (⟨path, .inside lock⟩ :: rest) := by
  refine sound.keeps_handle rfl (by simp) fun other => ?_
  rw [countP_isInside]
  by_cases here : path = other
  · subst here
    rw [sound.none_inside free]
    simp [Stage.isInside]
  · have before := sound.single other
    simpa [countP_isInside, here] using before

theorem leaves (sound : Sound t (⟨path, .inside lock⟩ :: rest)) :
    Sound t (⟨path, .leaving lock⟩ :: rest) := by
  refine sound.keeps_handle rfl (by simp) fun other => ?_
  have before := sound.single other
  rw [countP_isInside] at before ⊢
  simp [Stage.isInside]
  omega

theorem givesBack (sound : Sound t (⟨path, .leaving lock⟩ :: rest)) :
    Sound (t.giveBack path lock) (⟨path, .sweeping⟩ :: rest) := by
  obtain ⟨entry, found, same⟩ := sound.linked _ List.mem_cons_self lock rfl
  have dropped : t.giveBack path lock = t.drop path := by simp [Table.giveBack, found, same]
  have lookup := fun other => t.getElem?_drop path other found
  rw [dropped]
  constructor
  · intro s member lock' out
    rw [lookup]
    rcases List.mem_cons.mp member with rfl | old
    · cases out
    · obtain ⟨entry', found', same'⟩ := sound.linked s (List.mem_cons_of_mem _ old) lock' out
      by_cases here : path = s.path
      · rw [← here, found] at found'
        cases found'
        exact ⟨_, if_pos here, same'⟩
      · exact ⟨entry', by rw [if_neg here, found'], same'⟩
  · intro other entry' found'
    rw [lookup] at found'
    split at found'
    · rename_i here
      subst here
      cases found'
      have counted := sound.counted path entry found
      simp [countP_hasHandle, Stage.lock?] at counted ⊢
      omega
    · rename_i elsewhere
      have counted := sound.counted other entry' found'
      simp [countP_hasHandle, elsewhere] at counted ⊢
      exact counted
  · intro other entry' found'
    rw [lookup] at found'
    split at found'
    · rename_i here
      exact ⟨_, List.mem_cons_self, here, by simp⟩
    · rename_i elsewhere
      obtain ⟨s, member, place, stage⟩ := sound.tended other entry' found'
      rcases List.mem_cons.mp member with rfl | old
      · exact absurd place elsewhere
      · exact ⟨s, List.mem_cons_of_mem _ old, place, stage⟩
  · intro other
    simpa [countP_isInside, Stage.isInside] using sound.single other

theorem sweeps (sound : Sound t (⟨path, .sweeping⟩ :: rest)) : Sound (t.sweep path) rest := by
  have counted : ∀ other entry, t.entries[other]? = some entry →
      entry.handles = rest.countP (·.hasHandle other) := by
    intro other entry found
    have counted := sound.counted other entry found
    simpa [countP_hasHandle, Stage.lock?] using counted
  have lookup : ∀ other entry, (t.sweep path).entries[other]? = some entry →
      t.entries[other]? = some entry ∧ (path = other → 0 < entry.handles) := by
    intro other entry found
    cases before : t.entries[path]? with
    | none =>
      simp only [Table.sweep, before] at found
      refine ⟨found, fun here => ?_⟩
      rw [← here, before] at found
      cases found
    | some kept =>
      rw [t.getElem?_sweep path other before] at found
      split at found
      · cases found
      · rename_i stays
        refine ⟨found, fun here => ?_⟩
        rw [← here, before] at found
        cases found
        exact Nat.pos_of_ne_zero fun unused => stays ⟨here, unused⟩
  constructor
  · intro s member lock out
    obtain ⟨entry, found, same, used⟩ := sound.entry_of_handle (List.mem_cons_of_mem _ member) out
    refine ⟨entry, ?_, same⟩
    cases before : t.entries[path]? with
    | none => simpa only [Table.sweep, before] using found
    | some kept =>
      rw [t.getElem?_sweep path s.path before, if_neg, found]
      rintro ⟨here, unused⟩
      rw [← here, before] at found
      cases found
      omega
  · intro other entry found
    exact counted other entry (lookup other entry found).1
  · intro other entry found
    obtain ⟨before, used⟩ := lookup other entry found
    by_cases here : path = other
    · have out := used here
      rw [counted other entry before, List.countP_pos_iff] at out
      obtain ⟨s, member, handle⟩ := out
      simp only [Section.hasHandle, Bool.and_eq_true, decide_eq_true_eq] at handle
      refine ⟨s, member, handle.1, ?_⟩
      intro stage
      simp [stage, Stage.lock?] at handle
    · obtain ⟨s, member, place, stage⟩ := sound.tended other entry before
      rcases List.mem_cons.mp member with rfl | old
      · exact absurd place here
      · exact ⟨s, old, place, stage⟩
  · intro other
    simpa [countP_isInside, Stage.isInside] using sound.single other

end Sound

namespace Hall

variable {h after : Hall} {i : Nat} {outer : List Section}

theorem sections_set (table : Table) (old new : List Section)
    (here : h.callers[i]? = some (old ++ outer)) : ∃ rest, h.sections.Perm (old ++ rest) ∧
      (Hall.mk table (h.callers.set i (new ++ outer))).sections.Perm (new ++ rest) := by
  obtain ⟨bound, at_⟩ := List.getElem?_eq_some_iff.mp here
  refine ⟨outer ++ (h.callers.eraseIdx i).flatten, ?_, ?_⟩
  · have parts := (List.getElem_cons_eraseIdx_perm bound).flatten
    rw [at_, List.flatten_cons, List.append_assoc] at parts
    exact parts.symm
  · have parts := (List.set_perm_cons_eraseIdx bound (new ++ outer)).flatten
    rw [List.flatten_cons, List.append_assoc] at parts
    exact parts

theorem sound_advance {s : Section} {rest : List Section} {table : Table} {left : Option Section}
    (sound : Sound h.table h.sections) (same : h.sections.Perm (s :: rest))
    (goes : h.advance s = some (table, left)) : Sound table (left.toList ++ rest) := by
  have sound := sound.perm same
  obtain ⟨path, stage⟩ := s
  cases stage with
  | seeking =>
    cases goes
    exact sound.fetches
  | waiting lock =>
    simp only [advance] at goes
    split at goes
    · rename_i free
      cases goes
      refine sound.gets fun s member => ?_
      have all : ∀ s ∈ h.sections, s.stage ≠ .inside lock := by simpa [isFree] using free
      exact all s (same.mem_iff.mpr (List.mem_cons_of_mem _ member))
    · cases goes
  | inside lock =>
    cases goes
    exact sound.leaves
  | leaving lock =>
    cases goes
    exact sound.givesBack
  | sweeping =>
    cases goes
    exact sound.sweeps

theorem sound_look {table : Table} {rest : List Section}
    (sound : Sound table rest) (path : String) :
    Sound (look table path).1 ((look table path).2 :: rest) := by
  unfold look
  split
  · exact sound.seeks.fetches
  · exact sound.seeks

theorem sound_next {step : Step} (sound : Sound h.table h.sections)
    (goes : h.next i step = some after) : Sound after.table after.sections := by
  cases step with
  | begins path =>
    simp only [next] at goes
    split at goes
    · rename_i outer here
      split at goes
      · cases goes
        obtain ⟨rest, before, later⟩ :=
          sections_set (look h.table path).1 [] [(look h.table path).2] here
        exact (sound_look (sound.perm before) path).perm later.symm
      · cases goes
    · cases goes
  | proceeds =>
    simp only [next] at goes
    split at goes
    · rename_i s outer here
      obtain ⟨⟨table, left⟩, advanced, rfl⟩ := Option.map_eq_some_iff.mp goes
      obtain ⟨rest, before, later⟩ := sections_set table [s] left.toList here
      exact (sound_advance sound before advanced).perm later.symm
    · cases goes

theorem sound_run {steps : List (Nat × Step)} (sound : Sound h.table h.sections)
    (ran : h.run steps = some after) : Sound after.table after.sections := by
  induction steps generalizing h with
  | nil =>
    cases ran
    exact sound
  | cons step more ih =>
    obtain ⟨i, step⟩ := step
    rw [run] at ran
    obtain ⟨middle, goes, rest⟩ := Option.bind_eq_some_iff.mp ran
    exact ih (sound_next sound goes) rest

theorem sections_idle (callers : Nat) : (idle callers).sections = [] := by
  simp [idle, sections]

/-- Whatever callers there are and in whatever order they take their steps: at most one section is
inside under a path, every handle that is out is one on the lock in the table, and the table is
empty unless some section has fetched a lock and not ended. -/
theorem run_guarded {callers : Nat} {steps : List (Nat × Step)}
    (ran : (idle callers).run steps = some h) : (∀ path, h.sections.countP (·.isInside path) ≤ 1) ∧
    (∀ s ∈ h.sections, ∀ lock, s.stage.lock? = some lock →
      (h.table.entries[s.path]?).map Entry.identity = some lock) ∧
    ((∀ s ∈ h.sections, s.stage = .seeking) → h.table.size = 0) := by
  have sound : Sound h.table h.sections := by
    refine sound_run ?_ ran
    rw [sections_idle]
    exact .empty
  refine ⟨sound.single, ?_, ?_⟩
  · intro s member lock out
    obtain ⟨entry, found, same⟩ := sound.linked s member lock out
    rw [found, Option.map_some, same]
  · intro seeking
    have none : ∀ path : String, path ∉ h.table.entries := by
      intro path present
      obtain ⟨entry, found⟩ := (mem_iff_getElem?_some _ _).mp present
      obtain ⟨s, member, _, begun⟩ := sound.tended path entry found
      exact begun (seeking s member)
    have empty : h.table.entries = ∅ := Std.ExtTreeMap.eq_empty_iff_forall_not_mem.mpr none
    rw [Table.size, empty]
    rfl

/-- Two callers find no lock for one path; the first has a section inside its own, and is swept away
while the second is inside. -/
def contended : List (Nat × Step) :=
  [(0, .begins "/a"), (1, .begins "/a"), (0, .proceeds), (1, .proceeds),
    (0, .proceeds), (0, .begins "/a/b")]
    ++ List.replicate 5 (0, .proceeds) ++
      [(0, .proceeds), (1, .proceeds), (0, .proceeds), (0, .proceeds)]

theorem run_append (h : Hall) (steps more : List (Nat × Step)) :
    h.run (steps ++ more) = (h.run steps).bind fun h => h.run more := by
  induction steps generalizing h with
  | nil => rfl
  | cons step rest ih =>
    rw [List.cons_append, run, run, Option.bind_assoc]
    simp only [ih]

theorem contended_guarded : ∃ h done, (idle 2).run contended = some h ∧
    h.run (List.replicate 3 (1, .proceeds)) = some done ∧ h.sections = [⟨"/a", .inside 0⟩] ∧
    (h.table.entries["/a"]?).map Entry.identity = some 0 ∧ done.table.size = 0 := by
  have seen : (((idle 2).run contended).any fun h => h.sections = [⟨"/a", .inside 0⟩] &&
      ((h.run (List.replicate 3 (1, .proceeds))).any fun done => done.sections = [])) = true := by
    decide +kernel
  obtain ⟨h, ran, seen⟩ := (Option.any_eq_true _ _).mp seen
  rw [Bool.and_eq_true, decide_eq_true_iff] at seen
  obtain ⟨here, ended⟩ := seen
  obtain ⟨done, goes, ended⟩ := (Option.any_eq_true _ _).mp ended
  have whole : (idle 2).run (contended ++ List.replicate 3 (1, .proceeds)) = some done := by
    rw [run_append, ran, Option.bind_some, goes]
  refine ⟨h, done, ran, goes, here, ?_, ?_⟩
  · exact (run_guarded ran).2.1 ⟨"/a", .inside 0⟩ (by simp [here]) 0 rfl
  · refine (run_guarded whole).2.2 fun s member => ?_
    rw [of_decide_eq_true ended] at member
    cases member

end Hall

end SeedTree.Lock
