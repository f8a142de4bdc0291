import Mathlib.Data.List.Find
import SeedTree.Proofs.Engine.Offspring
import SeedTree.Proofs.Store.WellFormed

/- The moves by which operations change a store: the children of a folder are generated, a record is
   changed, a node is made, a node is removed. A well-formed store stays well-formed. -/
namespace SeedTree

inductive Deed where
  | expanded (folder : String)
  | changed (path : String) (change : Store.Change)
  | made (path : String)
  | removed (path : String)

def Node.expanded (n : Node) : Node := { n with generated := true }

def Materializer.offspring (m : Materializer) (folder : Node) (time : Moment)
    (specs : List ChildSpec) : List Node := specs.map (m.generatedChild folder time)

def Store.opened (s : Store) (m : Materializer) (folder : Node) (time : Moment)
    (specs : List ChildSpec) : Store :=
  (s.insertAll (m.offspring folder time specs)).replaced folder.expanded

structure Materializer.Opens (m : Materializer) (s : Store) (folder : Node) (time : Moment)
    (specs : List ChildSpec) : Prop where
  holds : s.Holds folder
  isFolder : folder.isFolder = true
  fresh : folder.generated = false
  drawn : m.specs? folder = some specs
  valid : time.isValid = true

def Store.Change.Suits (m : Materializer) (scope : Scope) (n : Node) : Store.Change → Prop
  | .markGenerated => False
  | .content _ time => n.isFolder = false ∧ time.isValid = true
  | .checksum text computedFor => n.isFolder = false ∧
      text = checksumOf (fileContent n.id m.parameters.contentSeed computedFor)
  | .decision world present => n.parent ≠ none ∧ ∃ probability,
      m.worlds.entries[world]? = some probability ∧ present = existsIn n.id world probability
  | .redecision world present => n.parent ≠ none ∧ present = true ∧ world ∈ scope.worlds

/-- A node made by hand in a folder: it is decided by one world, a folder has no children to
generate, and a file is an upload. -/
structure Materializer.Handmade (m : Materializer) (scope : Scope) (folder n : Node) : Prop where
  proper : n.Proper scope m.parameters
  below : n.parent = some folder.path
  decided : ∃ world, n.existence = m.worlds.onlyIn world
  complete : n.generated = n.isFolder
  unread : n.checksum = none
  plain : n.isFolder = true → n.upload = none
  uploaded : n.isFolder = false → n.upload ≠ none

inductive Move (m : Materializer) (scope : Scope) : Deed → Store → Store → Prop where
  | expanded {s : Store} {folder : Node} {time : Moment} {specs : List ChildSpec}
      (opens : m.Opens s folder time specs) :
      Move m scope (.expanded folder.path) s (s.opened m folder time specs)
  | changed {s : Store} {n k : Node} {change : Store.Change} (holds : s.Holds n)
      (suits : change.Suits m scope n) (new : change.apply n = some k) :
      Move m scope (.changed n.path change) s (s.replaced k)
  | made {s : Store} {folder n : Node} (holds : s.Holds folder) (isFolder : folder.isFolder = true)
      (ready : folder.generated = true) (absent : s.record? n.path = none)
      (handmade : m.Handmade scope folder n) : Move m scope (.made n.path) s (s.insertNode n)
  | removed {s : Store} {n : Node} (holds : s.Holds n) (below : n.parent ≠ none)
      (empty : ∀ k, s.Holds k → k.parent ≠ some n.path) :
      Move m scope (.removed n.path) s (s.eraseNode n.path n)

inductive Moves (m : Materializer) (scope : Scope) (may : Deed → Prop) : Store → Store → Prop where
  | none (s : Store) : Moves m scope may s s
  | more {deed : Deed} {s t u : Store} (permitted : may deed) (move : Move m scope deed s t)
      (rest : Moves m scope may t u) : Moves m scope may s u

theorem isShort_checksum (bytes : Bytes) : IsShort (checksumOf bytes) := by
  have digits : ∀ bs : Bytes, (bs.flatMap Bytes.hexPair).length = 2 * bs.length := by
    intro bs
    induction bs with
    | nil => rfl
    | cons b bs ih =>
      rw [List.flatMap_cons, List.length_append, ih, List.length_cons]
      simp only [Bytes.hexPair, List.length_cons, List.length_nil]
      omega
  have bound := length_utf8_le (checksumOf bytes)
  rw [checksumOf, Digest.toHex, Bytes.toHex, String.toList_ofList, digits, Digest.size] at bound
  rw [IsShort, checksumOf, Digest.toHex, Bytes.toHex]
  omega

variable {m : Materializer} {scope : Scope} {s t u : Store} {n folder : Node} {time : Moment}
  {specs : List ChildSpec}

namespace Store.Change

theorem Suits.fits (within : m.worlds.Within scope) {change : Store.Change}
    (suits : change.Suits m scope n) : change.Fits scope := by
  cases change with
  | markGenerated => trivial
  | content upload time => exact suits.2
  | checksum text computedFor =>
    rw [suits.2]
    exact isShort_checksum _
  | decision world present =>
    obtain ⟨_, probability, found, _⟩ := suits
    exact within world ((mem_iff_getElem?_some _ _).mpr ⟨probability, found⟩)
  | redecision world present => exact suits.2.2

theorem Suits.plain {change : Store.Change} {k : Node} (suits : change.Suits m scope n)
    (new : change.apply n = some k)
    (plain : n.isFolder = true → n.checksum = none ∧ n.upload = none) :
    k.isFolder = true → k.checksum = none ∧ k.upload = none := by
  intro isFolder
  rw [(keeps new).isFolder] at isFolder
  cases change with
  | markGenerated => exact suits.elim
  | content upload time =>
    rw [suits.1] at isFolder
    cases isFolder
  | checksum text computedFor =>
    rw [suits.1] at isFolder
    cases isFolder
  | decision world present =>
    simp only [apply] at new
    split at new
    · cases new
    · cases new
      exact plain isFolder
  | redecision world present =>
    simp only [apply] at new
    split at new
    · cases new
    · cases new
      exact plain isFolder

end Store.Change

section Opening

variable {p : Parameters} (wf : s.WellFormed scope m.parameters) (within : m.worlds.Within scope)
  (opens : m.Opens s folder time specs)

include wf

theorem Materializer.Opens.named (opens : m.Opens s folder time specs) {spec : ChildSpec}
    (member : spec ∈ specs) : Path.IsNormal folder.path ∧ Path.IsName spec.name :=
  ⟨(wf.shaped opens.holds).normal, Children.generate?_isName opens.drawn member⟩

include opens

theorem Materializer.Opens.absent :
    ∀ k ∈ m.offspring folder time specs, s.record? k.path = none := by
  intro k member
  obtain ⟨spec, drawn, rfl⟩ := List.mem_map.mp member
  obtain ⟨normal, named⟩ := opens.named wf drawn
  exact wf.absent_below normal named (Store.not_holdsOpen_of_fresh opens.holds opens.fresh)

theorem Materializer.Opens.apart : (m.offspring folder time specs).Pairwise fun a b =>
    a.path ≠ b.path := by
  refine List.pairwise_map.mpr ?_
  refine (Children.generate?_orderly opens.drawn).distinct.imp_of_mem ?_
  intro a b here there apart same
  obtain ⟨normal, named⟩ := opens.named wf here
  obtain ⟨_, named'⟩ := opens.named wf there
  exact apart (Path.join_injective normal normal named named' same).2

include within

theorem Materializer.Opens.proper :
    ∀ k ∈ m.offspring folder time specs, k.Proper scope m.parameters := by
  intro k member
  obtain ⟨spec, drawn, rfl⟩ := List.mem_map.mp member
  exact Materializer.proper_generatedChild within (wf.regular.sound.proper opens.holds).1
    opens.isFolder opens.fresh opens.drawn drawn opens.valid

omit opens within in
theorem Store.WellFormed.expanded (holds : s.Holds folder) :
    folder.expanded.Proper scope m.parameters := by
  have proper := (wf.regular.sound.proper holds).1
  refine ⟨{ proper.fits with }, { proper.shaped with }, ?_⟩
  intro _ fresh
  cases fresh

theorem Materializer.Opens.record? (path : String) : (s.opened m folder time specs).record? path =
    if path = folder.path then some folder.expanded
    else ((m.offspring folder time specs).find? (·.path = path)).or (s.record? path) := by
  rw [Store.opened, Store.record?_replaced (wf.expanded opens.holds),
    Store.record?_insertAll (opens.proper wf within) (opens.absent wf)
      (opens.apart wf)]
  rfl

theorem Materializer.Opens.record?_below {name : String} (named : Path.IsName name) :
    (s.opened m folder time specs).record? (Path.join folder.path name)
      = (specs.find? (·.name = name)).map (m.generatedChild folder time) := by
  have normal := (wf.shaped opens.holds).normal
  have apart := Path.join_ne normal named
  have absent := wf.absent_below normal named (Store.not_holdsOpen_of_fresh opens.holds opens.fresh)
  rw [opens.record? wf within, if_neg apart, absent, Option.or_none, Materializer.offspring,
    List.find?_map]
  congr 1
  refine List.find?_congr fun spec member => ?_
  have valid := (opens.named wf member).2
  refine decide_eq_decide.mpr ⟨?_, ?_⟩
  · exact fun same => (Path.join_injective normal normal valid named same).2
  · intro same
    rw [Materializer.generatedChild_path, same]

theorem Materializer.Opens.record?_elsewhere {path : String} (apart : path ≠ folder.path)
    (elsewhere : Path.parent? path ≠ some folder.path) :
    (s.opened m folder time specs).record? path = s.record? path := by
  have none : (m.offspring folder time specs).find? (·.path = path) = none := by
    refine List.find?_eq_none.mpr fun k member here => elsewhere ?_
    have proper := opens.proper wf within k member
    obtain ⟨spec, _, rfl⟩ := List.mem_map.mp member
    rw [← of_decide_eq_true here, ← proper.shaped.parent]
    rfl
  rw [opens.record? wf within, if_neg apart, none, Option.none_or]

theorem Materializer.Opens.stays {path : String} {k : Node} (found : s.record? path = some k)
    (apart : path ≠ folder.path) : (s.opened m folder time specs).record? path = some k := by
  have elsewhere : path ≠ folder.expanded.path := apart
  rw [Store.opened, Store.record?_replaced (wf.expanded opens.holds), if_neg elsewhere]
  exact Store.record?_insertAll_of_some (opens.proper wf within) (opens.absent wf) (opens.apart wf)
    found

theorem Materializer.Opens.holds_cases {k : Node} (holds : (s.opened m folder time specs).Holds k) :
    k = folder.expanded ∨ k ∈ m.offspring folder time specs ∨
      (s.Holds k ∧ k.path ≠ folder.path) := by
  rw [Store.Holds, opens.record? wf within] at holds
  split at holds
  · exact Or.inl (Option.some.inj holds).symm
  · rename_i apart
    rcases Option.or_eq_some_iff.mp holds with found | ⟨_, found⟩
    · exact Or.inr (Or.inl (List.mem_of_find?_eq_some found))
    · exact Or.inr (Or.inr ⟨found, apart⟩)

theorem Materializer.Opens.wellFormed :
    (s.opened m folder time specs).WellFormed scope m.parameters := by
  have proper := wf.expanded opens.holds
  have whole : (s.opened m folder time specs).HoldsOpen folder.path :=
    ⟨folder.expanded, by rw [opens.record? wf within, if_pos rfl], opens.isFolder, rfl⟩
  have stays : ∀ path, s.HoldsOpen path → (s.opened m folder time specs).HoldsOpen path := by
    rintro path ⟨above, found, rest⟩
    by_cases here : path = folder.path
    · rw [here]
      exact whole
    · exact ⟨above, opens.stays wf within found here, rest⟩
  refine ⟨?_, ?_, ?_, ?_⟩
  · have grown := wf.regular.insertAll (opens.proper wf within)
      (opens.absent wf) (opens.apart wf)
    refine grown.replaced (n := folder) ?_ proper ⟨rfl, rfl, rfl, rfl⟩
    exact Store.record?_insertAll_of_some (opens.proper wf within) (opens.absent wf)
      (opens.apart wf) opens.holds
  · obtain ⟨top, found⟩ := wf.root
    by_cases here : Path.root = folder.path
    · exact ⟨folder.expanded, by rw [opens.record? wf within, if_pos here]⟩
    · exact ⟨top, opens.stays wf within found here⟩
  · intro k host holds below
    rcases opens.holds_cases wf within holds with rfl | member | ⟨old, _⟩
    · exact stays host (wf.parented folder host opens.holds below)
    · obtain ⟨spec, _, rfl⟩ := List.mem_map.mp member
      cases below
      exact whole
    · exact stays host (wf.parented k host old below)
  · intro k holds isFolder
    rcases opens.holds_cases wf within holds with rfl | member | ⟨old, _⟩
    · exact wf.plain folder opens.holds isFolder
    · obtain ⟨spec, _, rfl⟩ := List.mem_map.mp member
      exact ⟨rfl, rfl⟩
    · exact wf.plain k old isFolder

end Opening

section Keeping

variable {may often : Deed → Prop} (within : m.worlds.Within scope)

include within

theorem Move.wellFormed {deed : Deed} (move : Move m scope deed s t)
    (wf : s.WellFormed scope m.parameters) : t.WellFormed scope m.parameters := by
  cases move with
  | expanded opens => exact opens.wellFormed wf within
  | changed holds suits new =>
    have proper := (wf.regular.sound.proper holds).1
    exact wf.replaced holds ((suits.fits within).proper new proper) (Store.Change.keeps new)
      (suits.plain new (wf.plain _ holds))
  | made holds isFolder ready absent handmade =>
    exact wf.insertNode handmade.proper absent handmade.below ⟨_, holds, isFolder, ready⟩
      fun isFolder => ⟨handmade.unread, handmade.plain isFolder⟩
  | removed holds below empty =>
    obtain ⟨folder, here⟩ := Option.ne_none_iff_exists'.mp below
    exact wf.eraseNode holds here empty

theorem Moves.wellFormed (moves : Moves m scope may s t)
    (wf : s.WellFormed scope m.parameters) : t.WellFormed scope m.parameters := by
  induction moves with
  | none s => exact wf
  | more permitted move rest ih => exact ih (move.wellFormed within wf)

omit within

theorem Moves.one {deed : Deed} (permitted : may deed) (move : Move m scope deed s t) :
    Moves m scope may s t := .more permitted move (.none t)

theorem Moves.append (early : Moves m scope may s t) (late : Moves m scope may t u) :
    Moves m scope may s u := by
  induction early with
  | none s => exact late
  | more permitted move rest ih => exact .more permitted move (ih late)

theorem Moves.mono (moves : Moves m scope may s t) (wider : ∀ deed, may deed → often deed) :
    Moves m scope often s t := by
  induction moves with
  | none s => exact .none s
  | more permitted move rest ih => exact .more (wider _ permitted) move ih

end Keeping

end SeedTree
