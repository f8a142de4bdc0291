import SeedTree.Proofs.Engine.Footprint
import SeedTree.Proofs.Engine.LookingOperations
import SeedTree.Proofs.Serving

/- A creation, an upload or a deletion that succeeds puts something at one path of the picture. What
   is looked up elsewhere does not depend on it, and the folder that it lies in is listed alike
   beside it. -/
namespace SeedTree

variable {e : Engine} {m : Materializer} {scope : Scope} {s t u : Store}
  {n k shown : Node} {v next : Picture}
  {path target input name : String} {world : World} {r : Operation} {found : Option Node}

theorem Path.within_foldl {top : String} {names : List String} (normal : IsNormal top)
    (valid : ∀ name ∈ names, IsName name) : Within top (names.foldl join top) := by
  obtain ⟨all, place⟩ := normal.components
  have whole : ∀ name ∈ components top ++ names, IsName name := fun name member =>
    (List.mem_append.mp member).elim (all name) (valid name)
  rw [Within, place, foldl_join_ofNames whole, components_ofNames whole, components_ofNames all]
  exact List.prefix_append _ _

theorem Engine.folderIn_path {parent : Node} {was : Option Node}
    (there : ∀ n, was = some n → n.path = Path.join parent.path name)
    (made : e.folderIn world name parent was = .ok shown) :
    shown.path = Path.join parent.path name := by
  cases was with
  | none =>
    cases made
    rfl
  | some existing =>
    simp only [folderIn] at made
    split at made
    · obtain ⟨visible, _, made⟩ := of_bind_ok made
      split at made
      · cases made
      · cases made
        rw [Node.revealed_path]
        exact there existing rfl
    · cases made

namespace Picture

/-- Every node is pictured at its own path. -/
def Placed (v : Picture) : Prop :=
  ∀ path n, Path.IsNormal path → v path = .ok (some n) → n.path = path

theorem put_elsewhere (v : Picture) (found : Option Node) (apart : path ≠ target) :
    v.put target found path = v path := if_neg apart

theorem put_here (v : Picture) (target : String) (found : Option Node) :
    v.put target found target = .ok found :=
  if_pos rfl

namespace Placed

theorem put (placed : v.Placed) (there : ∀ n, found = some n → n.path = target) :
    (v.put target found).Placed := by
  intro path n normal shown
  by_cases here : path = target
  · rw [here, put_here] at shown
    rw [here]
    exact there n (Except.ok.inj shown)
  · rw [v.put_elsewhere found here] at shown
    exact placed path n normal shown

variable (placed : v.Placed)

include placed

theorem walk {names : List String} {here : Node} (normal : Path.IsNormal here.path)
    (valid : ∀ name ∈ names, Path.IsName name) (shown : v here.path = .ok (some here))
    (walks : v.walk m world names here = .ok n) :
    v n.path = .ok (some n) ∧ n.path = names.foldl Path.join here.path := by
  induction names generalizing here with
  | nil =>
    cases walks
    exact ⟨shown, rfl⟩
  | cons name more ih =>
    obtain ⟨named, valid⟩ := List.forall_mem_cons.mp valid
    have normal' := Path.isNormal_join normal named
    obtain ⟨_, child, shown', _, walks⟩ := Picture.of_walk_cons walks
    have place := placed _ child normal' shown'
    rw [← place] at normal' shown'
    rw [List.foldl_cons, ← place]
    exact ih normal' valid shown' walks

theorem resolve (normal : Path.IsNormal path) (resolves : v.resolve m world path = .ok n) :
    v path = .ok (some n) ∧ n.path = path := by
  obtain ⟨first, shown, walks⟩ := of_bind_ok resolves
  cases first with
  | none => cases walks
  | some top =>
    have place := placed _ top Path.isNormal_root shown
    have normal' := Path.isNormal_root
    rw [← place] at shown normal'
    obtain ⟨there, at_⟩ := placed.walk normal' normal.components.1 shown walks
    rw [place, normal.foldl_join] at at_
    exact ⟨at_ ▸ there, at_⟩

theorem walk_put {names : List String} {here : Node} (normal : Path.IsNormal here.path)
    (valid : ∀ name ∈ names, Path.IsName name)
    (apart : ¬ Path.Within target (names.foldl Path.join here.path)) :
    (v.put target found).walk m world names here = v.walk m world names here := by
  induction names generalizing here with
  | nil => rfl
  | cons name more ih =>
    obtain ⟨named, valid⟩ := List.forall_mem_cons.mp valid
    have normal' := Path.isNormal_join normal named
    have elsewhere : Path.join here.path name ≠ target := by
      rintro rfl
      exact apart (Path.within_foldl normal' valid)
    unfold Picture.walk
    rw [v.put_elsewhere found elsewhere]
    cases shown : v (Path.join here.path name) with
    | error failure => rfl
    | ok below =>
      cases below with
      | none => rfl
      | some child =>
        have place := placed _ child normal' shown
        rw [List.foldl_cons, ← place] at apart
        rw [← place] at normal'
        simp only [Except.bind, ih normal' valid apart]

theorem resolve_put (normal : Path.IsNormal path) (apart : ¬ Path.Within target path) :
    (v.put target found).resolve m world path = v.resolve m world path := by
  have elsewhere : Path.root ≠ target := by
    rintro rfl
    exact apart (by rw [Path.Within, Path.components_root]; exact List.nil_prefix)
  unfold Picture.resolve
  rw [v.put_elsewhere found elsewhere]
  cases shown : v Path.root with
  | error failure => rfl
  | ok first =>
    cases first with
    | none => rfl
    | some top =>
      have place := placed _ top Path.isNormal_root shown
      have normal' := Path.isNormal_root
      rw [← place] at normal'
      refine placed.walk_put normal' normal.components.1 ?_
      rw [place, normal.foldl_join]
      exact apart

theorem getNode_put (apart : ∀ path, Path.normalize input = .ok path → ¬ Path.Within target path) :
    (v.put target found).getNode e input world = v.getNode e input world := by
  unfold Picture.getNode
  cases accepted : e.accept input world with
  | error failure => rfl
  | ok path =>
    have normalized := (Engine.accept_ok_iff.mp accepted).2
    exact placed.resolve_put (Path.normalize_isNormal normalized) (apart path normalized)

theorem getNode_path (found : v.getNode e input world = .ok n) :
    Path.normalize input = .ok n.path := by
  obtain ⟨path, accepted, resolves⟩ := of_bind_ok found
  have normalized := (Engine.accept_ok_iff.mp accepted).2
  rw [(placed.resolve (Path.normalize_isNormal normalized) resolves).2, normalized]

theorem getNode_lies (found : v.getNode e input world = .ok n) : v n.path = .ok (some n) := by
  obtain ⟨path, accepted, resolves⟩ := of_bind_ok found
  obtain ⟨lies, place⟩ :=
    placed.resolve (Path.normalize_isNormal (Engine.accept_ok_iff.mp accepted).2) resolves
  rw [place, lies]

end Placed

/-- What a mutation that succeeds does to a picture: it puts something at its target. -/
structure Aims (v : Picture) (r : Operation) (target : String) (next : Picture) : Prop where
  normal : Path.IsNormal target
  targets : r.Targets target
  told : ∃ was, v target = .ok was
  put : ∃ found, next = v.put target found ∧ (∀ n, found = some n → n.path = target) ∧
    (r.Removes target → found = none)

end Picture

namespace Materializer.Depicts

variable (wf : s.WellFormed scope e.materializer.parameters) (depicts : e.materializer.Depicts v s)

include wf depicts

theorem placed : v.Placed := fun _ _ normal drawn => depicts.place wf normal drawn

theorem aims_made {parent : Node} {was : Option Node}
    (makes : ∀ folder, Path.normalize input = .ok folder →
      Path.IsName name → r.Makes (Path.join folder name)) (keeps : ¬ r.Removes shown.path)
    (enters : v.enter e input world name = .ok (parent, was))
    (place : shown.path = Path.join parent.path name) :
    v.Aims r shown.path (v.put shown.path (some shown)) := by
  obtain ⟨_, normalized, named, rfl, lies⟩ := depicts.entered wf enters
  rw [place] at keeps ⊢
  refine ⟨Path.isNormal_join (Path.normalize_isNormal normalized) named,
    Or.inl (makes _ normalized named),
    ⟨was, lies⟩, some shown, rfl, ?_, fun removes => absurd removes keeps⟩
  rintro n ⟨⟩
  exact place

theorem aims (mutates : r.Mutates) {answer : r.Answer}
    (foretells : v.Foretells e r (.ok answer) next) : ∃ target, v.Aims r target next := by
  cases r with
  | createFolder input world name =>
    obtain ⟨agree, rfl⟩ := foretells
    obtain ⟨shown, expected, _⟩ := agree.of_ok
    obtain ⟨⟨parent, was⟩, enters, made⟩ := of_bind_ok expected
    obtain ⟨_, normalized, named, rfl, lies⟩ := depicts.entered wf enters
    have normal := Path.isNormal_join (Path.normalize_isNormal normalized) named
    rw [expected]
    exact ⟨_, depicts.aims_made wf
      (fun folder normalized named => ⟨folder, normalized, named, rfl⟩) id enters
      (Engine.folderIn_path (fun n same => depicts.place wf normal (same ▸ lies)) made)⟩
  | uploadFile input world name data =>
    obtain ⟨agree, rfl⟩ := foretells
    obtain ⟨shown, expected, _⟩ := agree.of_ok
    obtain ⟨_, folder, normalized, place⟩ := depicts.uploaded wf expected
    obtain ⟨⟨parent, was⟩, enters, _⟩ := of_bind_ok expected
    obtain ⟨_, same, _, rfl, _⟩ := depicts.entered wf enters
    rw [normalized] at same
    cases same
    rw [expected]
    exact ⟨_, depicts.aims_made wf
      (fun folder normalized named => ⟨folder, normalized, named, rfl⟩) id enters
      place⟩
  | deleteNode input world =>
    obtain ⟨agree, rfl⟩ := foretells
    obtain ⟨shown, expected, _⟩ := agree.of_ok
    rw [expected]
    obtain ⟨path, accepted, removes⟩ := of_bind_ok expected
    have normalized := (Engine.accept_ok_iff.mp accepted).2
    have normal := Path.normalize_isNormal normalized
    split at removes
    · cases removes
    obtain ⟨n, resolves, removes⟩ := of_bind_ok removes
    have same : shown = n := by
      split at removes
      · obtain ⟨_, _, removes⟩ := of_bind_ok removes
        split at removes <;> cases removes
        rfl
      · cases removes
        rfl
    obtain ⟨lies, place⟩ := (depicts.placed wf).resolve normal resolves
    rw [← same] at lies place
    rw [← place] at normal normalized lies
    exact ⟨shown.path, normal, Or.inr normalized, ⟨_, lies⟩, none, rfl,
      (fun _ none => by cases none),
      fun _ => rfl⟩
  | _ => exact mutates.elim

end Materializer.Depicts

namespace Picture

section Listing

variable {folder : Node} {children : List Node}

theorem Gathers.below (placed : v.Placed) (normal : Path.IsNormal folder.path)
    (gathers : v.Gathers m folder (.ok children)) (member : n ∈ children) :
    Path.IsName n.name ∧ n.path = Path.join folder.path n.name := by
  cases gathers with
  | children sorted named shown =>
    have known := shown n.name (named n member)
    rw [find?_of_distinct sorted.distinct member] at known
    obtain ⟨_, lies, ⟨like⟩⟩ := known.of_ok
    refine ⟨named n member, ?_⟩
    rw [like.like.place.path]
    exact placed _ _ (Path.isNormal_join normal (named n member)) lies

theorem Gathers.without (target : String) (placed : v.Placed) (normal : Path.IsNormal folder.path)
    (gathers : v.Gathers m folder (.ok children)) :
    (v.put target none).Gathers m folder (.ok (children.filter (·.path ≠ target))) := by
  have below := fun n => gathers.below placed normal (n := n)
  cases gathers with
  | children sorted named shown =>
    refine .children (sorted.filter _) (fun n member => named n (List.mem_filter.mp member).1) ?_
    intro name named'
    have bears : ∀ n ∈ children, n.name = name → n.path = Path.join folder.path name := by
      rintro n member rfl
      exact (below n member).2
    by_cases here : Path.join folder.path name = target
    · rw [here, put_here]
      have none : (children.filter (·.path ≠ target)).find? (·.name = name) = none := by
        refine List.find?_eq_none.mpr fun n member same => ?_
        obtain ⟨among, apart⟩ := List.mem_filter.mp member
        rw [bears n among (of_decide_eq_true same), here] at apart
        simp at apart
      rw [none]
      exact .none
    · rw [v.put_elsewhere none here]
      have same : (children.filter (·.path ≠ target)).find? (·.name = name)
          = children.find? (·.name = name) := by
        rw [List.find?_filter]
        refine List.find?_congr fun n member => ?_
        by_cases named : n.name = name
        · simp [named, bears n member named, here]
        · simp [named]
      rw [same]
      exact shown name named'

theorem Gathers.of_put {x : Except Failure (List Node)}
    (elsewhere : ∀ name, Path.IsName name → Path.join folder.path name ≠ target)
    (gathers : (v.put target found).Gathers m folder x) : v.Gathers m folder x := by
  cases gathers with
  | unending failed =>
    exact .unending fun name named => by
      rw [← v.put_elsewhere found (elsewhere name named), failed name named]
  | children sorted valid shown =>
    exact .children sorted valid fun name named => by
      rw [← v.put_elsewhere found (elsewhere name named)]
      exact shown name named

theorem Placed.lists_parent (placed : v.Placed) {nodes : List Node}
    (lists : v.Lists e input world (.ok nodes)) (member : n ∈ nodes) :
    ∃ path, Path.normalize input = .ok path ∧ Path.parent? n.path = some path := by
  obtain ⟨folder, children, there, _, gathers, visible⟩ := lists.of_ok
  have normalized := placed.getNode_path there
  have normal := Path.normalize_isNormal normalized
  obtain ⟨named, place⟩ := gathers.below placed normal (Materializer.mem_of_visibles visible member)
  exact ⟨folder.path, normalized, by rw [place, Path.parent?_join normal named]⟩

theorem Placed.lists_put (placed : v.Placed) {x : Except Failure (List Node)}
    (apart : ∀ path, Path.normalize input = .ok path → ¬ Path.Within target path ∧
      Path.parent? target ≠ some path)
    (lists : (v.put target found).Lists e input world x) : v.Lists e input world x := by
  unfold Lists at lists ⊢
  rw [placed.getNode_put fun path normalized => (apart path normalized).1] at lists
  cases there : v.getNode e input world with
  | error failure =>
    rw [there] at lists
    exact lists
  | ok folder =>
    rw [there] at lists
    have normalized := placed.getNode_path there
    have elsewhere : ∀ name, Path.IsName name → Path.join folder.path name ≠ target := by
      rintro name named rfl
      exact (apart _ normalized).2 (Path.parent?_join (Path.normalize_isNormal normalized) named)
    cases isFolder : folder.isFolder with
    | false =>
      simp only [isFolder, Bool.false_eq_true, if_false] at lists ⊢
      exact lists
    | true =>
      simp only [isFolder, if_true] at lists ⊢
      obtain ⟨listed, gathers, same⟩ := lists
      exact ⟨listed, gathers.of_put elsewhere, same⟩

end Listing

end Picture

theorem Materializer.visibles_filter {keep : Node → Bool} {nodes : List Node}
    (told : ∀ n, ∃ visible, m.sees n world = .ok visible) :
    m.visibles world (nodes.filter keep) = (m.visibles world nodes).map (List.filter keep) := by
  induction nodes with
  | nil => rfl
  | cons n more ih =>
    obtain ⟨visible, seen⟩ := told n
    rw [List.filter_cons, visibles, seen]
    split
    · rename_i kept
      rw [visibles, seen]
      simp only [Except.bind, ih]
      cases m.visibles world more with
      | error failure => rfl
      | ok rest => cases visible <;> simp [Except.map, kept]
    · rename_i dropped
      simp only [Except.bind, ih]
      cases m.visibles world more with
      | error failure => rfl
      | ok rest => cases visible <;> simp [Except.map, dropped]

namespace Picture

/-- Putting something under a name changes no other name in the folder. -/
theorem Gathers.beside {folder : Node} {x y : Except Failure (List Node)}
    {was : Option Node} (placed : v.Placed)
    (normal : Path.IsNormal folder.path) (named : Path.IsName name)
    (fits : ∀ n, found = some n → n.path = Path.join folder.path name)
    (known : v (Path.join folder.path name) = .ok was)
    (told : ∀ n, ∃ visible, m.sees n world = .ok visible) (first : v.Gathers m folder x)
    (second : (v.put (Path.join folder.path name) found).Gathers m folder y) :
    Agree (List.Forall₂ (Node.Resembles m))
      ((x.bind (m.visibles world)).map (List.filter (·.path ≠ Path.join folder.path name)))
      ((y.bind (m.visibles world)).map (List.filter (·.path ≠ Path.join folder.path name))) := by
  cases x with
  | error failure =>
    cases first with
    | unending unending =>
      rw [unending name named] at known
      cases known
  | ok children =>
    cases y with
    | error failure =>
      cases second with
      | unending unending =>
        have clash := unending name named
        rw [put_here] at clash
        cases clash
    | ok others =>
      have less := first.without (Path.join folder.path name) placed normal
      have less' := second.without (Path.join folder.path name) (placed.put fits) normal
      rw [put_put] at less'
      simp only [Except.bind]
      rw [← m.visibles_filter told, ← m.visibles_filter told]
      exact m.visibles_resemble (less.doubles less') world

theorem Placed.lists_beside (placed : v.Placed) {x y : Except Failure (List Node)}
    (told : ∀ n, ∃ visible, e.materializer.sees n world = .ok visible) (aims : v.Aims r target next)
    (normalized : Path.normalize input = .ok path) (above : Path.parent? target = some path)
    (first : v.Lists e input world x) (second : next.Lists e input world y) :
    Agree (List.Forall₂ (Node.Resembles e.materializer)) (x.map (List.filter (·.path ≠ target)))
      (y.map (List.filter (·.path ≠ target))) := by
  obtain ⟨found, rfl, there, _⟩ := aims.put
  have normal := Path.normalize_isNormal normalized
  obtain ⟨name, named, rfl⟩ : ∃ name, Path.IsName name ∧ target = Path.join path name := by
    rcases aims.normal.root_or_join with rfl | ⟨folder, name, normal', named, rfl⟩
    · cases above
    · rw [Path.parent?_join normal' named] at above
      cases above
      exact ⟨name, named, rfl⟩
  have apart : ∀ other, Path.normalize input = .ok other →
      ¬ Path.Within (Path.join path name) other := by
    rintro other same within
    rw [normalized] at same
    cases same
    exact (Path.within_join_of_within normal named within).2 rfl
  obtain ⟨was, known⟩ := aims.told
  rcases first.both (placed.getNode_put apart) second with
    ⟨failure, rfl, rfl⟩ | ⟨folder, _, _, found', gathers, gathers', rfl, rfl⟩
  · rfl
  · cases normalized.symm.trans (placed.getNode_path found')
    exact gathers.beside placed normal named there known told gathers'

end Picture

end SeedTree
