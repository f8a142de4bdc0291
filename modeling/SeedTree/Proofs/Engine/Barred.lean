import Mathlib.Data.List.Induction
import SeedTree.Proofs.Engine.Walks

/- Barred paths: the store shows nothing there, now or once folders on the way have been expanded. A
   path stays barred until a node is made at it. -/
namespace SeedTree

/-- What a store shows at a path when no world hides anything. -/
def Materializer.shows (m : Materializer) (s : Store) (path : String) :
    Except Failure (Option Node) :=
  match s.record? Path.root with
  | some top => m.view s (Path.components path) top
  | none => .ok none

def Materializer.Bars (m : Materializer) (s : Store) (path : String) : Prop :=
  m.shows s path = .ok none

/-- Equal in place, kind and readiness, which decide what can lie below. -/
structure Node.Akin (n k : Node) : Prop where
  path : k.path = n.path
  depth : k.depth = n.depth
  kind : k.kind = n.kind
  generated : k.generated = n.generated

/-- How a record may change without freeing a barred path: its node stays akin, it goes, or a node
without anything below it appears elsewhere. -/
inductive Store.Spares (t : Store) (barred : String) :
    String → Option Node → Option Node → Prop where
  | kept {path : String} {n k : Node} (akin : n.Akin k) : Spares t barred path (some n) (some k)
  | gone {path : String} {found : Option Node} : Spares t barred path found none
  | new {path : String} {n : Node} (elsewhere : path ≠ barred)
      (complete : n.generated = n.isFolder)
      (bare : ∀ name, Path.IsName name → t.record? (Path.join path name) = none) :
      Spares t barred path none (some n)

variable {m m' : Materializer} {scope : Scope} {s t : Store} {n k : Node} {path : String}

theorem Node.Akin.refl (n : Node) : n.Akin n := ⟨rfl, rfl, rfl, rfl⟩

theorem Node.Akin.isFolder (akin : n.Akin k) : k.isFolder = n.isFolder := by
  rw [Node.isFolder, Node.isFolder, akin.kind]

theorem Store.Change.akin {change : Store.Change} (new : change.apply n = some k)
    (suits : change.Suits m scope n) : n.Akin k := by
  cases change with
  | markGenerated => exact suits.elim
  | content upload time =>
    cases new
    exact ⟨rfl, rfl, rfl, rfl⟩
  | checksum text computedFor =>
    simp only [Store.Change.apply] at new
    split at new
    · cases new
    · cases new
      exact ⟨rfl, rfl, rfl, rfl⟩
  | decision world present =>
    rw [(Store.Change.decision_cases new).2]
    exact ⟨rfl, rfl, rfl, rfl⟩
  | redecision world present =>
    rw [Store.Change.redecision_cases new]
    exact ⟨rfl, rfl, rfl, rfl⟩

namespace Materializer

theorem shows_root (m : Materializer) {top : Node} (root : s.record? Path.root = some top)
    (path : String) : m.shows s path = m.view s (Path.components path) top := by
  simp only [shows, root]

theorem view_append (m : Materializer) (s : Store) (names more : List String) (here : Node) :
    m.view s (names ++ more) here = (m.view s names here).bind fun
      | none => .ok none
      | some child => m.view s more child := by
  induction names generalizing here with
  | nil => rfl
  | cons name names ih =>
    rw [List.cons_append]
    cases isFolder : here.isFolder with
    | false => rw [view_cons_file m s isFolder, view_cons_file m s isFolder]; rfl
    | true =>
      rw [view_cons m s isFolder, view_cons m s isFolder]
      cases m.lookup s here name with
      | error failure => rfl
      | ok found =>
        cases found with
        | none => rfl
        | some child => exact ih child

theorem view_of_walk {world : World} {names : List String}
    (found : m.walk s world names n = .ok k) : m.view s names n = .ok (some k) := by
  induction names generalizing n with
  | nil =>
    cases found
    rfl
  | cons name more ih =>
    unfold walk at found
    split at found
    · cases found
    · rename_i isFolder
      rw [view_cons m s (by simpa using isFolder)]
      cases shown : m.lookup s n name with
      | error failure =>
        rw [shown] at found
        cases found
      | ok child =>
        rw [shown] at found
        cases child with
        | none => cases found
        | some child =>
          simp only [Except.bind] at found ⊢
          cases seen : m.sees child world with
          | error failure =>
            rw [seen] at found
            cases found
          | ok visible =>
            rw [seen] at found
            cases visible with
            | false => cases found
            | true => exact ih found

theorem generatedChild_akin (akin : n.Akin k) (time : Moment) (spec : ChildSpec) :
    (m.generatedChild n time spec).Akin (m'.generatedChild k time spec) := by
  unfold generatedChild Node.child
  exact ⟨by simp only [akin.path], by simp only [akin.depth], by rfl, by rfl⟩

theorem promised_akin (shape : m'.parameters = m.parameters) (akin : n.Akin k) (name : String) :
    Agree (Option.Rel Node.Akin) (m.promised n name) (m'.promised k name) := by
  have drawn : m'.specs? k = m.specs? n := by
    rw [specs?, specs?, shape, akin.path, akin.depth]
  rw [promised, promised, drawn, akin.path]
  cases m.specs? n with
  | none => rfl
  | some specs =>
    cases found : specs.find? (·.name = name) with
    | none => simp only [found]; exact .none
    | some spec => simp only [found]; exact .some (generatedChild_akin akin Moment.epoch spec)

end Materializer

section Barring

variable (wf : s.WellFormed scope m.parameters)

include wf

theorem Store.WellFormed.view_record {top : Node} (root : s.record? Path.root = some top)
    {names : List String} (valid : ∀ name ∈ names, Path.IsName name)
    (found : s.record? (names.foldl Path.join Path.root) = some n) :
    m.view s names top = .ok (some n) := by
  induction names using List.reverseRecOn generalizing n with
  | nil =>
    rw [List.foldl_nil, root] at found
    cases found
    rfl
  | append_singleton names name ih =>
    have above : ∀ other ∈ names, Path.IsName other := fun other member =>
      valid other (List.mem_append_left _ member)
    have named := valid name (by simp)
    have folder : names.foldl Path.join (Path.ofNames []) = Path.ofNames names :=
      Path.foldl_join_ofNames above
    have normal : Path.IsNormal (names.foldl Path.join Path.root) := by
      rw [← Path.ofNames_nil, folder]
      exact Path.isNormal_ofNames above
    rw [List.foldl_append, List.foldl_cons, List.foldl_nil] at found
    obtain ⟨host, there, isFolder, ready⟩ := wf.parented n _ (wf.holds found).1
      (wf.parent_join normal named found)
    rw [Materializer.view_append, ih above there]
    simp only [Except.bind]
    rw [m.view_cons s isFolder, m.lookup_generated s ready, (wf.holds there).2, found]
    rfl

variable (normal : Path.IsNormal path)

include normal

theorem Store.WellFormed.shows_record (found : s.record? path = some n) :
    m.shows s path = .ok (some n) := by
  obtain ⟨top, root⟩ := wf.root
  rw [m.shows_root root]
  refine wf.view_record root normal.components.1 ?_
  rw [normal.foldl_join, found]

theorem Materializer.Bars.absent (bars : m.Bars s path) : s.record? path = none := by
  cases found : s.record? path with
  | none => rfl
  | some n =>
    rw [Bars, wf.shows_record normal found] at bars
    cases bars

theorem Store.WellFormed.bars_of_absent {folder : String} (below : Path.parent? path = some folder)
    (above : s.HoldsOpen folder) (absent : s.record? path = none) : m.Bars s path := by
  obtain ⟨top, root⟩ := wf.root
  obtain ⟨host, there, isFolder, ready⟩ := above
  rcases normal.root_or_join with rfl | ⟨parent, name, normal', named, rfl⟩
  · rw [Path.parent?_root] at below
    cases below
  · rw [Path.parent?_join normal' named] at below
    cases below
    rw [Materializer.Bars, m.shows_root root, Path.components_join normal' named,
      Materializer.view_append, wf.view_record root normal'.components.1
      (by rw [normal'.foldl_join, there])]
    simp only [Except.bind]
    rw [m.view_cons s isFolder, m.lookup_generated s ready, (wf.holds there).2, absent]
    rfl

end Barring

section Moving

variable (wf : s.WellFormed scope m.parameters) (wf' : t.WellFormed scope m.parameters)

include wf wf'

omit wf wf' in
theorem Materializer.view_bare {next : String} {more : List String}
    (complete : k.generated = k.isFolder)
    (bare : t.record? (Path.join k.path next) = none) : m.view t (next :: more) k = .ok none := by
  cases below : k.isFolder with
  | false => exact m.view_cons_file t below next more
  | true =>
    rw [m.view_cons t below, m.lookup_generated t (complete.trans below), bare]
    rfl

theorem view_spared_stored (ready : n.generated = true)
    (isFolder : n.isFolder = true) {name : String}
    {more : List String} (valid : ∀ name ∈ more, Path.IsName name) (akin : n.Akin k)
    (leads : more.foldl Path.join (Path.join n.path name) = path)
    (spared : t.Spares path (Path.join n.path name) (s.record? (Path.join n.path name))
      (t.record? (Path.join n.path name)))
    (bars : m.view s (name :: more) n = .ok none)
    (onward : ∀ child child', child.Akin child' → more.foldl Path.join child.path = path →
      m.view s more child = .ok none → m'.view t more child' = .ok none) :
    m'.view t (name :: more) k = .ok none := by
  rw [m.view_cons s isFolder, m.lookup_generated s ready] at bars
  rw [m'.view_cons t (akin.isFolder.trans isFolder),
    m'.lookup_generated t (akin.generated.trans ready),
    akin.path]
  cases found' : t.record? (Path.join n.path name) with
  | none => rfl
  | some child' =>
    rw [found'] at spared
    cases found : s.record? (Path.join n.path name) with
    | some child =>
      rw [found] at spared bars
      cases spared with
      | kept akin' =>
        refine onward child child' akin' ?_ bars
        rw [(wf.holds found).2]
        exact leads
    | none =>
      rw [found] at spared
      have place := (wf'.holds found').2
      cases spared with
      | new elsewhere complete bare =>
        cases more with
        | nil => exact absurd leads elsewhere
        | cons next more => exact m'.view_bare complete (place ▸ bare next (valid next (by simp)))

omit wf wf' in
theorem view_spared_fresh (shape : m'.parameters = m.parameters) (fresh : n.generated = false)
    (isFolder : n.isFolder = true) {name : String} {more : List String} (akin : n.Akin k)
    (bars : m.view s (name :: more) n = .ok none)
    (onward : ∀ child child', child.Akin child' → child.path = Path.join n.path name →
      m.view s more child = .ok none → m'.view t more child' = .ok none) :
    m'.view t (name :: more) k = .ok none := by
  rw [m.view_cons s isFolder, m.lookup_fresh s fresh] at bars
  rw [m'.view_cons t (akin.isFolder.trans isFolder), m'.lookup_fresh t (akin.generated.trans fresh)]
  have promises := Materializer.promised_akin shape akin name
  cases found : m.promised n name with
  | error failure =>
    rw [found] at bars
    cases bars
  | ok child =>
    rw [found] at bars promises
    cases found' : m'.promised k name with
    | error failure =>
      rw [found'] at promises
      exact promises.elim
    | ok child' =>
      rw [found'] at promises
      cases promises with
      | none => rfl
      | @some child child' akin' =>
        obtain ⟨_, _, spec, _, rfl, rfl⟩ := Materializer.promised_some found
        exact onward _ child' akin' rfl bars

/-- Below akin nodes a barred path stays barred where every record is spared. -/
theorem view_spared (shape : m'.parameters = m.parameters)
    (spares : ∀ at_, t.Spares path at_ (s.record? at_) (t.record? at_)) {names : List String}
    (valid : ∀ name ∈ names, Path.IsName name) (akin : n.Akin k)
    (leads : names.foldl Path.join n.path = path) (bars : m.view s names n = .ok none) :
    m'.view t names k = .ok none := by
  induction names generalizing n k with
  | nil => cases bars
  | cons name more ih =>
    obtain ⟨_, rest⟩ := List.forall_mem_cons.mp valid
    rw [List.foldl_cons] at leads
    cases isFolder : n.isFolder with
    | false => exact m'.view_cons_file t (akin.isFolder.trans isFolder) name more
    | true =>
      cases ready : n.generated with
      | false =>
        exact view_spared_fresh shape ready isFolder akin bars fun _ _ akin' place =>
          ih rest akin' (place ▸ leads)
      | true =>
        exact view_spared_stored wf wf' ready isFolder rest akin leads (spares _) bars
          fun _ _ akin' => ih rest akin'

theorem Materializer.Bars.spared (shape : m'.parameters = m.parameters)
    (normal : Path.IsNormal path) (bars : m.Bars s path)
    (spares : ∀ at_, t.Spares path at_ (s.record? at_) (t.record? at_)) : m'.Bars t path := by
  obtain ⟨top, root⟩ := wf.root
  obtain ⟨top', root'⟩ := wf'.root
  have spared := spares Path.root
  rw [root, root'] at spared
  rw [Bars, m.shows_root root] at bars
  rw [Bars, m'.shows_root root']
  cases spared with
  | kept akin =>
    refine view_spared wf wf' shape spares normal.components.1 akin ?_ bars
    rw [(wf.holds root).2, normal.foldl_join]

end Moving

section Moves

variable (within : m.worlds.Within scope) (wf : s.WellFormed scope m.parameters)
  (normal : Path.IsNormal path)

include within wf

theorem Materializer.Bars.read {deed : Deed} (bars : m.Bars s path) (move : Move m scope deed s t)
    (reads : deed.Reads) (normal : Path.IsNormal path) : m.Bars t path := by
  obtain ⟨top, root⟩ := wf.root
  obtain ⟨holds, place⟩ := wf.holds root
  obtain ⟨top', root', _, alike⟩ := move.read within reads wf holds
  rw [place] at root'
  rw [Bars, m.shows_root root] at bars
  rw [Bars, m.shows_root root']
  have same := alike (Path.components path) normal.components.1
  rw [bars] at same
  cases shown : m.view t (Path.components path) top' with
  | error failure =>
    rw [shown] at same
    exact same.elim
  | ok found =>
    rw [shown] at same
    cases same with
    | none => rfl

/-- Every move but one that makes a node there keeps a path barred. -/
theorem Materializer.Bars.move {deed : Deed} (bars : m.Bars s path) (move : Move m scope deed s t)
    (normal : Path.IsNormal path) (other : deed ≠ .made path) : m.Bars t path := by
  have wf' := move.wellFormed within wf
  have stays : ∀ found : Option Node, ∀ at_, t.Spares path at_ found found := by
    intro found at_
    cases found with
    | none => exact .gone
    | some n => exact .kept (.refl n)
  cases move with
  | expanded opens =>
    exact bars.read within wf (.expanded opens) (Deed.walks_expanded _).reads normal
  | @changed _ n k change holds suits new =>
    have proper := (suits.fits within).proper new (wf.regular.sound.proper holds).1
    have place := (Store.Change.keeps new).place.path
    refine bars.spared wf wf' rfl normal fun at_ => ?_
    rw [Store.record?_replaced proper]
    split
    · rename_i here
      rw [here, place, holds]
      exact .kept (Store.Change.akin new suits)
    · exact stays _ at_
  | @made _ folder n holds isFolder ready absent handmade =>
    refine bars.spared wf wf' rfl normal fun at_ => ?_
    rw [Store.record?_insertNode handmade.proper]
    split
    · rename_i here
      rw [here, absent]
      refine .new (fun same => other (by rw [same])) handmade.complete fun name named => ?_
      have normal' := handmade.proper.shaped.normal
      rw [Store.record?_insertNode handmade.proper, if_neg (Path.join_ne normal' named)]
      exact wf.absent_below normal' named (Store.not_holdsOpen_of_absent absent)
    · exact stays _ at_
  | @removed _ n holds below empty =>
    refine bars.spared wf wf' rfl normal fun at_ => ?_
    rw [Store.record?_eraseNode]
    split
    · exact .gone
    · exact stays _ at_

omit wf in
theorem Materializer.Bars.moves {may : Deed → Prop} (moves : Moves m scope may s t)
    (wf : s.WellFormed scope m.parameters) (bars : m.Bars s path) (normal : Path.IsNormal path)
    (never : ¬ may (.made path)) : m.Bars t path := by
  induction moves with
  | none s => exact bars
  | more permitted move rest ih =>
    refine ih (move.wellFormed within wf) (bars.move within wf move normal ?_)
    rintro rfl
    exact never permitted

theorem Store.WellFormed.bars_removed (holds : s.Holds n) (below : n.parent ≠ none)
    (empty : ∀ k, s.Holds k → k.parent ≠ some n.path) :
    m.Bars (s.eraseNode n.path n) n.path := by
  have wf' := (Move.removed holds below empty).wellFormed within wf
  have shaped := wf.shaped holds
  obtain ⟨folder, here⟩ := Option.ne_none_iff_exists'.mp below
  obtain ⟨host, there, rest⟩ := wf.parented n folder holds here
  have apart : folder ≠ n.path := by
    rintro rfl
    exact empty n holds here
  refine wf'.bars_of_absent shaped.normal (by rw [← shaped.parent]; exact here) ?_ ?_
  · exact ⟨host, by rw [Store.record?_eraseNode, if_neg apart, there], rest⟩
  · rw [Store.record?_eraseNode, if_pos rfl]

end Moves

end SeedTree
