import SeedTree.Proofs.Engine.Growth

/- The single steps of readers, and what the lock of a folder keeps the others from meanwhile. -/
namespace SeedTree

/-- What a reader does to a store by one call: while it has the lock of a folder it puts in a child
that is not there, or marks the folder when all are there; and it puts down decisions. -/
inductive Store.Looked (m : Materializer) (scope : Scope)
    (traces : Trace → Prop) (held : List String) (s : Store) : Store → Prop where
  | same : Looked m scope traces held s s
  | put {host : Node} {time : Moment} {specs : List ChildSpec} {spec : ChildSpec}
      (opens : m.Opens s host time specs) (left : traces (.expanded host.path))
      (locked : host.path ∈ held) (member : spec ∈ specs)
      (absent : s.record? (Path.join host.path spec.name) = none) :
      Looked m scope traces held s (s.insertNode (m.generatedChild host time spec))
  | opened {host : Node} {time : Moment} {specs : List ChildSpec}
      (opens : m.Opens s host time specs) (left : traces (.expanded host.path))
      (locked : host.path ∈ held)
      (present : ∀ spec ∈ specs, ∃ c, s.record? (Path.join host.path spec.name) = some c) :
      Looked m scope traces held s (s.replaced host.expanded)
  | decided {n k : Node} {world : String} {present : Bool} (holds : s.Holds n)
      (suits : (Store.Change.decision world present).Suits m scope n)
      (new : (Store.Change.decision world present).apply n = some k)
      (left : traces (.decided n.path world)) : Looked m scope traces held s (s.replaced k)

/-- What the lock of a folder keeps others from: they neither mark it nor put children into it. -/
structure Store.Guards (s t : Store) (folder : String) : Prop where
  unmarked : ∀ n k, s.record? folder = some n → t.record? folder = some k → k.generated = true →
    n.generated = true
  below : ∀ k, t.Holds k → k.parent = some folder → ∃ n, s.Holds n ∧ n.path = k.path

/-- Only a folder that has been marked has children; while its lock is held this may not be so. -/
def Store.Shut (s : Store) (folder : String) : Prop :=
  ∀ k, s.Holds k → k.parent = some folder → ∃ n, s.record? folder = some n ∧ n.generated = true

variable {m : Materializer} {scope : Scope} {traces : Trace → Prop}
  {origin s t u : Store} {n k : Node}

namespace Store

variable {held : List String} {folder : String}

theorem Guards.refl (s : Store) (folder : String) : s.Guards s folder where
  unmarked := by
    intro n k first second ready
    rw [Holds.unique first second]
    exact ready
  below := fun k holds _ => ⟨k, holds, rfl⟩

theorem WellFormed.shut (wf : s.WellFormed scope m.parameters) (folder : String) :
    s.Shut folder := by
  intro k holds below
  obtain ⟨n, found, _, ready⟩ := wf.parented k folder holds below
  exact ⟨n, found, ready⟩

theorem Grows.parent (grows : s.Grows m t) (holds : s.Holds n) (there : t.Holds k)
    (same : n.path = k.path) : k.parent = n.parent := by
  obtain ⟨l, stands, grown⟩ := grows n holds
  have equal : k = l := Holds.unique there (by rw [← same, ← grown.path]; exact stands)
  rw [equal, grown.like.place.parent]

structure Onward (m : Materializer) (held : List String) (s t : Store) : Prop where
  grows : s.Grows m t
  guards : ∀ folder ∈ held, s.Guards t folder

theorem Onward.refl (held : List String) (s : Store) : s.Onward m held s :=
  ⟨.refl s, fun folder _ => .refl s folder⟩

section Staying

variable (regular : s.Regular scope m.parameters)

include regular

theorem Onward.trans (early : s.Onward m held t) (late : t.Onward m held u) :
    s.Onward m held u := by
  refine ⟨early.grows.trans late.grows, fun folder locked => ⟨?_, ?_⟩⟩
  · intro n k first last ready
    obtain ⟨l, there, _⟩ := early.grows.record? (regular.sound.holds first)
    rw [(regular.sound.proper first).2] at there
    exact (early.guards folder locked).unmarked n l first there
      ((late.guards folder locked).unmarked l k there last ready)
  · intro k holds below
    obtain ⟨l, there, place⟩ := (late.guards folder locked).below k holds below
    obtain ⟨n, first, place'⟩ := (early.guards folder locked).below l there
      ((late.grows.parent there holds place).symm.trans below)
    exact ⟨n, first, place'.trans place⟩

theorem Shut.onward (shut : s.Shut folder) (onward : s.Onward m held t) (locked : folder ∈ held) :
    t.Shut folder := by
  intro k holds below
  obtain ⟨n, early, place⟩ := (onward.guards folder locked).below k holds below
  obtain ⟨host, found, ready⟩ := shut n early
    ((onward.grows.parent early holds place).symm.trans below)
  obtain ⟨l, there, grown⟩ := onward.grows.record? (regular.sound.holds found)
  exact ⟨l, (regular.sound.proper found).2 ▸ there, grown.generated ready⟩

end Staying

namespace Looked

theorem effect (looked : s.Looked m scope traces held t) (regular : s.Regular scope m.parameters)
    (within : m.worlds.Within scope) : t = s ∨
    (∃ c host, c.Proper scope m.parameters ∧ s.record? c.path = none ∧ c.generated = false ∧
      c.parent = some host ∧ host ∈ held ∧ t = s.insertNode c) ∨
    ∃ n k, s.Holds n ∧ k.Proper scope m.parameters ∧ n.Grown m k ∧
      (k.generated = true → n.generated = true ∨ n.path ∈ held) ∧ t = s.replaced k := by
  cases looked with
  | same => exact Or.inl rfl
  | @put host time _ spec opens left locked member absent =>
    have proper : (m.generatedChild host time spec).Proper scope m.parameters :=
      Materializer.proper_generatedChild within (regular.sound.proper opens.holds).1
        opens.isFolder opens.fresh opens.drawn member opens.valid
    exact Or.inr
      (Or.inl ⟨m.generatedChild host time spec, host.path, proper, absent, rfl, rfl, locked, rfl⟩)
  | @opened host _ _ opens left locked present =>
    have proper := (regular.sound.proper opens.holds).1.expanded
    exact Or.inr (Or.inr ⟨host, host.expanded, opens.holds, proper, .expanded host,
      fun _ => Or.inr locked, rfl⟩)
  | @decided n k _ _ holds suits new left =>
    refine Or.inr
      (Or.inr ⟨n, k, holds, (suits.fits within).proper new (regular.sound.proper holds).1,
      .decision suits new, fun ready => Or.inl ?_, rfl⟩)
    rw [(Change.decision_cases new).2] at ready
    exact ready

variable (looked : s.Looked m scope traces held t) (regular : s.Regular scope m.parameters)
  (within : m.worlds.Within scope)

include looked regular within

theorem grows : s.Grows m t := by
  intro l holds
  rcases looked.effect regular within with rfl | ⟨c, host, proper, absent, _, _, _, rfl⟩ |
    ⟨n, k, stands, proper, grown, _, rfl⟩
  · exact ⟨l, holds, .refl l⟩
  · exact ⟨l, (holds_insertNode proper absent).mpr (Or.inr holds), .refl l⟩
  · by_cases here : l.path = k.path
    · have same : l = n := Holds.unique holds (by rw [here, grown.path]; exact stands)
      exact ⟨k, replaced_holds proper, same ▸ grown⟩
    · refine ⟨l, ?_, .refl l⟩
      rw [Holds, record?_replaced proper, if_neg here, holds]

theorem guards (free : folder ∉ held) : s.Guards t folder := by
  rcases looked.effect regular within
    with rfl | ⟨c, host, proper, absent, fresh, below, locked, rfl⟩ |
    ⟨n, k, stands, proper, grown, marks, rfl⟩
  · exact .refl _ folder
  · constructor
    · intro l l' first last ready
      rw [record?_insertNode proper] at last
      split at last
      · cases last
        rw [fresh] at ready
        cases ready
      · rw [Holds.unique first last]
        exact ready
    · intro l holds at_
      rcases (holds_insertNode proper absent).mp holds with rfl | old
      · rw [below] at at_
        cases at_
        exact absurd locked free
      · exact ⟨l, old, rfl⟩
  · constructor
    · intro l l' first last ready
      rw [record?_replaced proper] at last
      split at last
      · rename_i here
        cases last
        have same : l = n := Holds.unique first (by rw [here, grown.path]; exact stands)
        rcases marks ready with early | locked
        · rw [same]
          exact early
        · rw [here, grown.path] at free
          exact absurd locked free
      · rw [Holds.unique first last]
        exact ready
    · intro l holds _
      rw [Holds, record?_replaced proper] at holds
      split at holds
      · rename_i here
        exact ⟨n, stands, by rw [here, grown.path]⟩
      · exact ⟨l, holds, rfl⟩

omit regular within in
theorem trodden (trodden : m.Trodden scope traces origin s)
    (wf : origin.WellFormed scope m.parameters)
    (within : m.worlds.Within scope) : m.Trodden scope traces origin t := by
  cases looked with
  | same => exact trodden
  | put opens left locked member absent => exact trodden.put wf within opens left member absent
  | opened opens left locked present => exact trodden.opened wf opens left present
  | @decided n k _ _ holds suits new left =>
    have proper := (suits.fits within).proper new (trodden.regular.sound.proper holds).1
    have grown := Node.Grown.decision suits new
    have clear :=
      (undecided_rule scope m.parameters).changed m n k _ rfl suits new (trodden.clear n holds)
    refine trodden.replaced holds proper grown clear
      (fun d shown traced => traced.decision suits new left) fun ready name d named shown => ?_
    rw [(Change.decision_cases new).2] at ready
    exact trodden.whole n holds ready name d named shown

end Looked

end Store

end SeedTree
