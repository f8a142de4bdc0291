import SeedTree.Proofs.Engine.Making

/- Starting an engine: on a store without nodes the root appears, unexpanded; on a well-formed store
   no node changes. -/
namespace SeedTree

open Attempt

structure Store.SameNodes (s t : Store) : Prop where
  nodes : t.nodes = s.nodes
  children : t.children = s.children
  ids : t.ids = s.ids

def Store.Blank (s : Store) : Prop := Store.empty.SameNodes s

def Config.Within (scope : Scope) (c : Config) : Prop :=
  ∀ name, name ∈ c.worlds → name ∈ scope.worlds

variable {scope : Scope} {p : Parameters} {s t : Store} {n : Node} {held : List String}

namespace Store

theorem SameNodes.refl (s : Store) : s.SameNodes s := ⟨rfl, rfl, rfl⟩

theorem SameNodes.record? (same : s.SameNodes t) (path : String) :
    t.record? path = s.record? path := record?_congr same.nodes path

theorem SameNodes.holds_iff (same : s.SameNodes t) (n : Node) : t.Holds n ↔ s.Holds n := by
  rw [Holds, Holds, same.record?]

theorem SameNodes.wellFormed (same : s.SameNodes t) (wf : s.WellFormed scope p) :
    t.WellFormed scope p where
  regular := wf.regular.congr same.nodes same.children same.ids
  root := by
    simp only [same.record?]
    exact wf.root
  parented := by
    intro n folder holds below
    obtain ⟨above, found, rest⟩ := wf.parented n folder ((same.holds_iff n).mp holds) below
    exact ⟨above, (same.record? folder).trans found, rest⟩
  plain := fun n holds => wf.plain n ((same.holds_iff n).mp holds)

theorem sameNodes_ensureFingerprint (s : Store) (fingerprint : Digest) :
    s.SameNodes (s.ensureFingerprint fingerprint).2 := by
  unfold Store.ensureFingerprint
  split
  · exact ⟨rfl, rfl, rfl⟩
  · exact .refl s

theorem Blank.record? (blank : s.Blank) (path : String) : s.record? path = none := by
  have missing : Store.empty.nodes[utf8 path]? = none := Std.ExtTreeMap.getElem?_empty
  rw [SameNodes.record? blank, Store.record?, Store.get, missing]
  rfl

theorem Blank.regular (blank : s.Blank) : s.Regular scope p := by
  have none : ∀ n, ¬ s.Holds n := by
    intro n holds
    rw [Holds, blank.record?] at holds
    cases holds
  refine ⟨?_, ?_, ?_⟩
  · intro key record entry
    rw [blank.nodes] at entry
    simp [Store.empty] at entry
  · intro key value
    rw [blank.children]
    simp [Store.empty, none]
  · intro key value entry
    rw [blank.ids] at entry
    simp [Store.empty] at entry

theorem Blank.tracked (blank : s.Blank) : s.Tracked [] := by
  have none : ∀ n, ¬ s.Holds n := by
    intro n holds
    rw [Holds, blank.record?] at holds
    cases holds
  exact ⟨fun n holds => absurd holds (none n), fun n holds => absurd holds (none n)⟩

theorem Blank.insertRoot (blank : s.Blank) (proper : n.Proper scope p) (top : n.path = Path.root)
    (plain : n.checksum = none ∧ n.upload = none) : (s.insertNode n).WellFormed scope p := by
  have absent := blank.record? n.path
  have only : ∀ k, (s.insertNode n).Holds k → k = n := by
    intro k holds
    rcases (holds_insertNode proper absent).mp holds with rfl | old
    · rfl
    · rw [Holds, blank.record?] at old
      cases old
  refine ⟨(Blank.regular blank).insertNode proper absent, ?_, ?_, ?_⟩
  · refine ⟨n, ?_⟩
    rw [record?_insertNode proper, if_pos top.symm]
  · intro k folder holds below
    rw [only k holds, proper.shaped.parent_eq_none_iff.mpr top] at below
    cases below
  · intro k holds _
    rw [only k holds]
    exact plain

end Store

theorem WorldTable.secondary_of_faultless {name : String} {probability : Binary64}
    (faultless : entryFault? name probability = none) : name ≠ World.primaryName := by
  unfold entryFault? at faultless
  split at faultless
  · cases faultless
  · split at faultless
    · cases faultless
    · assumption

namespace Config

variable {c : Config}

theorem worldTable_ok {table : WorldTable} (ok : c.worldTable = .ok table) :
    table = ⟨c.worlds⟩ := by
  unfold Config.worldTable WorldTable.ofEntries at ok
  split at ok
  · cases ok
  · cases ok
    rfl

theorem worldTable_of_check (checked : c.check = .ok ()) : c.worldTable = .ok ⟨c.worlds⟩ := by
  unfold Config.check at checked
  cases parameters : c.parameters.check with
  | error fault =>
    rw [parameters] at checked
    cases checked
  | ok passed =>
    rw [parameters] at checked
    cases table : c.worldTable with
    | error fault =>
      rw [table] at checked
      cases checked
    | ok worlds => rw [worldTable_ok table]

theorem faultless_of_check (checked : c.check = .ok ()) {name : String} {probability : Binary64}
    (listed : c.worlds[name]? = some probability) :
    WorldTable.entryFault? name probability = none := by
  have table := worldTable_of_check checked
  unfold worldTable WorldTable.ofEntries at table
  split at table
  · cases table
  · rename_i faultless
    have entry := Std.ExtTreeMap.mem_toList_iff_getElem?_eq_some.mpr listed
    have passed := List.findSome?_eq_none_iff.mp faultless _ entry
    exact passed

theorem primary_unlisted (checked : c.check = .ok ()) : c.worlds[World.primaryName]? = none := by
  cases listed : c.worlds[World.primaryName]? with
  | none => rfl
  | some probability =>
    exact absurd rfl (WorldTable.secondary_of_faultless (faultless_of_check checked listed))

end Config

def Config.materializer (c : Config) : Materializer := ⟨c.parameters, ⟨c.worlds⟩⟩

theorem Config.Within.ready {c : Config} (within : c.Within scope) :
    (⟨c, c.materializer⟩ : Engine).Ready scope c.parameters := ⟨rfl, rfl, within⟩

/-- A configuration is good for a store: it is in order, and the store is new or its tree has the
same shape. -/
structure Config.Suits (c : Config) (s : Store) : Prop where
  checked : c.check = .ok ()
  accepted : (s.ensureFingerprint c.parameters.fingerprint).1 = true

theorem Config.suits_empty_iff {c : Config} : c.Suits Store.empty ↔ c.check = .ok () := by
  have unmarked : Store.empty.marks[Store.fingerprintKey]? = none := Std.ExtTreeMap.getElem?_empty
  exact ⟨fun suits => suits.checked,
    fun checked => ⟨checked, by rw [Store.ensureFingerprint, unmarked]⟩⟩

def Store.claimed (s : Store) (c : Config) : Store :=
  (s.ensureFingerprint c.parameters.fingerprint).2

theorem Store.sameNodes_claimed (s : Store) (c : Config) : s.SameNodes (s.claimed c) :=
  sameNodes_ensureFingerprint s _

theorem Store.claimed_of_marked {c : Config} {mark : Bytes}
    (marked : s.marks[Store.fingerprintKey]? = some mark) : s.claimed c = s := by
  rw [claimed, ensureFingerprint, marked]

theorem Store.claimed_of_refused {c : Config}
    (other : (s.ensureFingerprint c.parameters.fingerprint).1 = false) : s.claimed c = s := by
  unfold Store.ensureFingerprint at other
  split at other
  · cases other
  · exact claimed_of_marked ‹_›

theorem Config.Suits.marked {c : Config} (suits : c.Suits s) :
    (s.claimed c).marks[Store.fingerprintKey]? = some c.parameters.fingerprint.bytes := by
  have accepted := suits.accepted
  unfold Store.claimed
  unfold Store.ensureFingerprint at accepted ⊢
  cases found : s.marks[Store.fingerprintKey]? with
  | none => exact Std.ExtTreeMap.getElem?_insert_self
  | some mark =>
    rw [found] at accepted
    rw [← of_decide_eq_true accepted]
    exact found

/-- How a start ends. It is refused for a bad configuration, or where a tree of another shape is;
then nothing has happened. -/
inductive Started (c : Config) (s : Store) : Except Failure Engine → Store → Prop where
  | refused {failure : Failure} (why : ¬ c.Suits s) : Started c s (.error failure) s
  | kept (suits : c.Suits s) (there : s.record? Path.root ≠ none) :
      Started c s (.ok ⟨c, c.materializer⟩) (s.claimed c)
  | fresh {time : Moment} (suits : c.Suits s) (absent : s.record? Path.root = none)
      (valid : time.isValid = true) : Started c s (.ok ⟨c, c.materializer⟩)
        ((s.claimed c).insertNode (Node.root (nodeIdOf c.parameters.seed Path.root) time))

theorem ends_start {c : Config} (regular : c.Suits s → s.Regular scope c.parameters) :
    (Engine.start c).Ends (Setting.alone scope c.parameters) held s (Started c s) := by
  refine ends_bind (ends_fromConfig ?_)
  cases checked : c.check with
  | error fault => exact .refused fun suits => by cases checked.symm.trans suits.checked
  | ok passed =>
    refine ends_bind (ends_call ?_)
    rintro _ rfl
    refine ⟨trivial, ?_⟩
    cases accepted : (s.ensureFingerprint c.parameters.fingerprint).1 with
    | false =>
      have unmoved := Store.claimed_of_refused accepted
      simp only [Store.perform, accepted]
      unfold Store.claimed at unmoved
      rw [unmoved]
      exact ends_throw (.refused fun suits => by cases accepted.symm.trans suits.accepted)
    | true =>
      have suits : c.Suits s := ⟨checked, accepted⟩
      have same := s.sameNodes_claimed c
      have regular := (regular suits).congr same.nodes same.children same.ids
      simp only [Store.perform, accepted]
      change Ends (Setting.alone scope c.parameters) _ held (s.claimed c) _
      refine ends_ite (fun other => by cases other) fun _ => ?_
      rw [Config.worldTable_of_check checked]
      refine ends_bind (ends_fromConfig ?_)
      refine ends_bind (ends_discard (ends_bind (ends_now fun time valid => ?_)))
      refine ends_bind (alone_putIfAbsent regular (Node.proper_root valid) ?_ ?_)
      · intro m there
        have stays : s.record? Path.root ≠ none := by
          rw [← same.record?]
          intro absent
          exact Option.some_ne_none m (there.symm.trans absent)
        refine ends_pure ?_
        simp only [Except.map, then_ok]
        exact ends_bind (ends_tell (ends_pure (.kept suits stays)))
      · intro absent
        have missing : s.record? Path.root = none := by
          rw [← same.record?]
          exact absent
        refine ends_bind (ends_tell (ends_pure ?_))
        simp only [Except.map, then_ok]
        exact ends_bind (ends_tell (ends_pure (.fresh suits missing valid)))

namespace Started

variable {c : Config} {result : Except Failure Engine}

theorem suits_iff (started : Started c s result t) : result.isOk = true ↔ c.Suits s := by
  cases started with
  | refused why => exact ⟨nofun, fun suits => absurd suits why⟩
  | kept suits => exact ⟨fun _ => suits, fun _ => rfl⟩
  | fresh suits => exact ⟨fun _ => suits, fun _ => rfl⟩

theorem unchanged {failure : Failure} (started : Started c s (.error failure) t) : t = s := by
  cases started
  rfl

theorem engine {engine : Engine} (started : Started c s (.ok engine) t) :
    engine = ⟨c, c.materializer⟩ := by
  cases started with
  | kept => rfl
  | fresh => rfl

theorem marked {engine : Engine} (started : Started c s (.ok engine) t) :
    t.marks[Store.fingerprintKey]? = some c.parameters.fingerprint.bytes := by
  cases started with
  | kept suits => exact suits.marked
  | fresh suits => exact suits.marked

theorem wellFormed {engine : Engine} (whole : s.Blank ∨ s.WellFormed scope c.parameters)
    (started : Started c s (.ok engine) t) : t.WellFormed scope c.parameters := by
  have same := s.sameNodes_claimed c
  cases started with
  | kept suits there =>
    rcases whole with blank | wf
    · exact absurd (blank.record? _) there
    · exact same.wellFormed wf
  | fresh suits absent valid =>
    rcases whole with blank | wf
    · have blank' : (s.claimed c).Blank := ⟨same.nodes.trans blank.nodes,
        same.children.trans blank.children, same.ids.trans blank.ids⟩
      exact blank'.insertRoot (Node.proper_root valid) rfl ⟨rfl, rfl⟩
    · obtain ⟨root, there⟩ := wf.root
      rw [absent] at there
      cases there

theorem ok_of_empty (started : Started c Store.empty result t) (checked : c.check = .ok ()) :
    result = .ok ⟨c, c.materializer⟩ := by
  cases result with
  | error failure => cases started.suits_iff.mpr (Config.suits_empty_iff.mpr checked)
  | ok engine => rw [started.engine]

end Started

end SeedTree
