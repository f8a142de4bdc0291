import SeedTree.Proofs.Store.Calls

/- The calls that an engine may make, whatever the store holds: they put proper nodes and make
   changes that fit. A regular store stays regular under them, and its identity index stays complete
   as long as no two of the paths put so far share an identity. -/
namespace SeedTree.Store

variable {scope : Scope} {p : Parameters} {s : Store} {n : Node}

def Call.Lawful (scope : Scope) (p : Parameters) : Call → Prop
  | .putIfAbsent n => n.Proper scope p
  | .change _ edit => edit.Fits scope
  | _ => True

theorem Regular.congr {t : Store} (regular : s.Regular scope p) (nodes : t.nodes = s.nodes)
    (children : t.children = s.children) (ids : t.ids = s.ids) : t.Regular scope p := by
  have holds : ∀ n, t.Holds n ↔ s.Holds n := fun n => by
    rw [Holds, Holds, record?_congr nodes]
  refine ⟨regular.sound.congr nodes, ?_, ?_⟩
  · intro key value
    simp only [children, holds]
    exact regular.indexed key value
  · intro key value entry
    rw [ids] at entry
    simp only [holds]
    exact regular.pointed key value entry

theorem Regular.update_cases (regular : s.Regular scope p) (path : String) {change : Change}
    (fits : change.Fits scope) :
    (s.record? path = none ∧ s.update path change.apply = (.ok none, s)) ∨
    (∃ n, s.record? path = some n ∧ change.apply n = none ∧
      s.update path change.apply = (.ok (some n), s)) ∨
    ∃ n m, s.record? path = some n ∧ change.apply n = some m ∧ m.Proper scope p ∧
      s.update path change.apply = (.ok (some m), s.replaced m) := by
  cases found : s.record? path with
  | none => exact Or.inl ⟨rfl, regular.charted.update_absent found _⟩
  | some n =>
    cases new : change.apply n with
    | none => exact Or.inr (Or.inl ⟨n, rfl, new, regular.charted.update_unchanged found new⟩)
    | some m =>
      have proper := regular.sound.proper found
      refine Or.inr (Or.inr ⟨n, m, rfl, new, fits.proper new proper.1, ?_⟩)
      exact regular.charted.update_changed found new (Change.keeps new).place.path

inductive Effect (s : Store) (scope : Scope) (p : Parameters) : Call → Store → Prop where
  | none {call : Call} {t : Store} (nodes : t.nodes = s.nodes) (children : t.children = s.children)
      (ids : t.ids = s.ids) : Effect s scope p call t
  | inserted {n : Node} (proper : n.Proper scope p) (absent : s.record? n.path = none) :
      Effect s scope p (.putIfAbsent n) (s.insertNode n)
  | erased {n : Node} (holds : s.Holds n) :
      Effect s scope p (.delete n.path) (s.eraseNode n.path n)
  | replaced {n m : Node} {change : Change} (holds : s.Holds n) (proper : m.Proper scope p)
      (applied : change.apply n = some m) : Effect s scope p (.change n.path change) (s.replaced m)

theorem Regular.effect (regular : s.Regular scope p) {call : Call} (lawful : call.Lawful scope p) :
    Effect s scope p call (s.perform call).2 := by
  cases call with
  | get path => exact .none rfl rfl rfl
  | getById id => exact .none rfl rfl rfl
  | putIfAbsent n =>
    cases found : s.record? n.path with
    | none =>
      have step := regular.charted.putIfAbsent_absent found
      simp only [Store.perform, step]
      exact .inserted lawful found
    | some m =>
      have step := regular.charted.putIfAbsent_present found
      simp only [Store.perform, step]
      exact .none rfl rfl rfl
  | listChildren folder => exact .none rfl rfl rfl
  | hasChildren folder => exact .none rfl rfl rfl
  | delete path =>
    cases found : s.record? path with
    | none =>
      simp only [Store.perform, regular.charted.delete_absent found]
      exact .none rfl rfl rfl
    | some n =>
      obtain ⟨_, rfl⟩ := regular.sound.proper found
      simp only [Store.perform, regular.charted.delete_present found]
      exact .erased found
  | change path change =>
    rcases regular.update_cases path lawful with ⟨_, step⟩ | ⟨n, _, _, step⟩ |
      ⟨n, m, found, new, proper, step⟩
    · simp only [Store.perform, step]
      exact .none rfl rfl rfl
    · simp only [Store.perform, step]
      exact .none rfl rfl rfl
    · simp only [Store.perform, step]
      obtain ⟨_, rfl⟩ := regular.sound.proper found
      exact .replaced found proper new
  | ensureFingerprint fingerprint =>
    simp only [Store.perform, Store.ensureFingerprint]
    split
    · exact .none rfl rfl rfl
    · exact .none rfl rfl rfl
  | count => exact .none rfl rfl rfl

theorem Effect.regular {call : Call} {t : Store} (effect : Effect s scope p call t)
    (regular : s.Regular scope p) : t.Regular scope p := by
  cases effect with
  | none nodes children ids => exact regular.congr nodes children ids
  | inserted proper absent => exact regular.insertNode proper absent
  | erased holds => exact regular.eraseNode holds
  | replaced holds proper applied =>
    exact regular.replaced holds proper (Change.keeps applied).place

theorem Regular.perform (regular : s.Regular scope p) {call : Call}
    (lawful : call.Lawful scope p) : (s.perform call).2.Regular scope p :=
  (regular.effect lawful).regular regular

def Call.puts : Call → List String
  | .putIfAbsent n => [n.path]
  | _ => []

def Distinct (seed : UInt64) (paths : List String) : Prop :=
  ∀ a ∈ paths, ∀ b ∈ paths, nodeIdOf seed a = nodeIdOf seed b → a = b

instance (seed : UInt64) (paths : List String) : Decidable (Distinct seed paths) :=
  inferInstanceAs (Decidable (∀ a ∈ paths, ∀ b ∈ paths, nodeIdOf seed a = nodeIdOf seed b → a = b))

theorem Distinct.left {seed : UInt64} {paths more : List String}
    (distinct : Distinct seed (paths ++ more)) : Distinct seed paths :=
  fun a here b there => distinct a (List.mem_append_left _ here) b (List.mem_append_left _ there)

def Entered (s : Store) : Prop := ∀ n, s.Holds n → s.ids[n.id.bytes]? = some (utf8 n.path)

structure Tracked (paths : List String) (s : Store) : Prop where
  within : ∀ n, s.Holds n → n.path ∈ paths
  entered : s.Entered

theorem Regular.path_eq_of_id (regular : s.Regular scope p) {m : Node} {paths : List String}
    (distinct : Distinct p.seed paths) (holds : s.Holds n) (present : n.path ∈ paths)
    (shaped : m.Shaped p.seed) (present' : m.path ∈ paths) (same : n.id.bytes = m.id.bytes) :
    n.path = m.path := by
  have own := (regular.sound.proper holds).1.shaped
  refine distinct _ present _ present' ?_
  rw [← own.id, ← shaped.id]
  exact Digest.ext_bytes same

section Tracking

variable {paths : List String} (regular : s.Regular scope p) (tracked : s.Tracked paths)

include regular tracked

theorem Tracked.insertNode (proper : n.Proper scope p) (absent : s.record? n.path = none)
    (distinct : Distinct p.seed (paths ++ [n.path])) :
    (s.insertNode n).Tracked (paths ++ [n.path]) := by
  have holds := fun m => holds_insertNode (m := m) proper absent
  constructor
  · intro m new
    rcases (holds m).mp new with rfl | old
    · simp
    · simp [tracked.within m old]
  · intro m new
    have grown : (s.insertNode n).ids = s.ids.insert n.id.bytes (utf8 n.path) := rfl
    rw [grown, getElem?_insert_ite]
    rcases (holds m).mp new with rfl | old
    · rw [if_pos rfl]
    · split
      · rename_i same
        have present : m.path ∈ paths ++ [n.path] := by simp [tracked.within m old]
        rw [regular.path_eq_of_id distinct old present proper.shaped (by simp) same.symm]
      · exact tracked.entered m old

omit regular in
theorem Tracked.replaced {m : Node} (present : s.record? n.path = some n)
    (proper : m.Proper scope p) (place : n.SamePlace m) : (s.replaced m).Tracked paths := by
  have old : ∀ k, (s.replaced m).Holds k →
      ∃ k', s.Holds k' ∧ k'.path = k.path ∧ k'.id = k.id := by
    intro k holds
    rw [Holds, record?_replaced proper] at holds
    split at holds
    · cases holds
      exact ⟨n, present, place.path.symm, place.id.symm⟩
    · exact ⟨k, holds, rfl, rfl⟩
  constructor
  · intro k holds
    obtain ⟨k', early, path, _⟩ := old k holds
    rw [← path]
    exact tracked.within k' early
  · intro k holds
    obtain ⟨k', early, path, id⟩ := old k holds
    have same : (s.replaced m).ids = s.ids := rfl
    rw [← path, ← id, same]
    exact tracked.entered k' early

theorem Tracked.eraseNode (present : s.record? n.path = some n)
    (distinct : Distinct p.seed paths) : (s.eraseNode n.path n).Tracked paths := by
  constructor
  · intro m holds
    exact tracked.within m ((holds_eraseNode s n m).mp holds).1
  · intro m holds
    obtain ⟨old, apart⟩ := (holds_eraseNode s n m).mp holds
    have shrunk : (s.eraseNode n.path n).ids = s.ids.erase n.id.bytes := rfl
    rw [shrunk, getElem?_erase_ite]
    split
    · rename_i same
      have shaped := (regular.sound.proper present).1.shaped
      exact absurd (regular.path_eq_of_id distinct old (tracked.within m old) shaped
        (tracked.within n present) same.symm) apart
    · exact tracked.entered m old

end Tracking

theorem Tracked.weaken {paths more : List String} (tracked : s.Tracked paths) :
    s.Tracked (paths ++ more) :=
  ⟨fun n holds => List.mem_append_left more (tracked.within n holds), tracked.entered⟩

theorem Tracked.perform {paths : List String} (regular : s.Regular scope p)
    (tracked : s.Tracked paths) {call : Call} (lawful : call.Lawful scope p)
    (distinct : Distinct p.seed (paths ++ call.puts)) :
    (s.perform call).2.Tracked (paths ++ call.puts) := by
  have effect := regular.effect lawful
  generalize (s.perform call).2 = t at effect ⊢
  cases effect with
  | none nodes children ids =>
    have holds : ∀ n, t.Holds n ↔ s.Holds n := fun n => by
      rw [Holds, Holds, record?_congr nodes]
    refine Tracked.weaken ⟨fun n new => tracked.within n ((holds n).mp new), fun n new => ?_⟩
    rw [ids]
    exact tracked.entered n ((holds n).mp new)
  | inserted proper absent => exact tracked.insertNode regular proper absent distinct
  | erased holds => exact (tracked.eraseNode regular holds distinct.left).weaken
  | replaced holds proper applied =>
    exact (tracked.replaced holds proper (Change.keeps applied).place).weaken

end SeedTree.Store
